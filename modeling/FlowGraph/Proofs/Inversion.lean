import FlowGraph.Proofs.Outcome

/-!
Lowering that succeeds is one of the runs, whatever the builder was like before. An action on a block
succeeds only if the block is open, so nothing has to be known in advance.
-/

namespace FlowGraph

open Builder

namespace Build

variable {b b' : Builder} {l target : Label} {span : Span}

theorem pure_eq_ok_iff {α : Type} {a r : α} : (pure a : Build α) b = .ok r b' ↔ a = r ∧ b = b' := by
  change EStateM.Result.ok a b = _ ↔ _
  simp

theorem fail_ne_ok {α : Type} {cause : Cause} {r : α} : fail cause span b ≠ .ok r b' := nofun

theorem isOpen_of_updateOpen {f : BasicBlock → BasicBlock} {p : Unit × Builder}
    (h : (b.updateOpen l f).map ((), ·) = .ok p) : b.IsOpen l := by
  cases hf : b.updateOpen l f with
  | error e => simp [hf, Except.map] at h
  | ok b₁ =>
    obtain ⟨block, hl, hopen, -⟩ := updateOpen_eq_ok_iff.mp hf
    exact ⟨block, hl, by simpa [BasicBlock.isOpen] using hopen⟩

theorem emit_eq_ok_iff {dst : Slot} {op : Operation} {u : Unit} :
    emit l dst op span b = .ok u b' ↔ b.IsOpen l ∧ b.append l dst op span = b' := by
  constructor
  · intro h
    have ho : b.IsOpen l := isOpen_of_updateOpen (step_eq_ok_iff.mp h)
    rw [emit_run ho] at h
    exact ⟨ho, by simpa using h⟩
  · rintro ⟨ho, rfl⟩
    exact emit_run ho

theorem terminate_eq_ok_iff {dst : Option Slot} {t : Transfer} {u : Unit} :
    terminate l dst t span b = .ok u b' ↔ b.IsOpen l ∧ b.close l dst t span = b' := by
  constructor
  · intro h
    have ho : b.IsOpen l := isOpen_of_updateOpen (step_eq_ok_iff.mp h)
    rw [terminate_run ho] at h
    exact ⟨ho, by simpa using h⟩
  · rintro ⟨ho, rfl⟩
    exact terminate_run ho

theorem addBlock_eq_ok_iff : addBlock b = .ok l b' ↔ b.nextLabel = l ∧ b.grow = b' := by
  rw [addBlock_run]
  simp

theorem temporary_eq_ok_iff {ty : Option Ty} {s : Slot} :
    temporary ty b = .ok s b' ↔ b.nextSlot = s ∧ b.addTemporary ty = b' := by
  rw [temporary_run]
  simp

theorem allocateBound_eq_ok_iff {name : String} {ty : Option Ty} {kind : VarKind} {key : Symbol}
    {s : Slot} :
    allocateBound name ty kind key b = .ok s b' ↔ b.nextSlot = s ∧ b.addBound name ty kind key = b' := by
  rw [allocateBound_run]
  simp

theorem compute_of_ok {ty : Option Ty} {op : Operation} {s : Slot}
    (h : compute l ty op span b = .ok s b') : b.nextSlot = s ∧ b.compute l ty op span = b' := by
  simp only [compute, bind_eq_ok_iff, temporary_eq_ok_iff, emit_eq_ok_iff, pure_eq_ok_iff] at h
  obtain ⟨_, _, ⟨rfl, rfl⟩, _, _, ⟨-, rfl⟩, rfl, rfl⟩ := h
  exact ⟨rfl, rfl⟩

theorem gotoFrom_of_ok {fin : Option Label} {u : Unit} (h : gotoFrom fin target span b = .ok u b') :
    b.gotoFrom fin target span = b' := by
  cases fin with
  | none => exact (pure_eq_ok_iff.mp h).2
  | some l => exact (terminate_eq_ok_iff.mp h).2

theorem popLoop_of_ok {frame : LoopFrame} (h : popLoop b = .ok frame b') : b.dropLoop = b' := by
  rw [popLoop, step_eq_ok_iff, Builder.popLoop] at h
  split at h
  · cases h
  · next heq =>
    simp only [Except.ok.injEq, Prod.mk.injEq] at h
    obtain ⟨rfl, rfl⟩ := h
    simp [dropLoop, heq, Builder.report]

theorem requireOpcode_of_ok {opcode : Option Opcode} {symbol : String} {code : Opcode}
    (h : requireOpcode opcode symbol span b = .ok code b') : opcode = some code ∧ b = b' := by
  cases opcode with
  | none => cases h
  | some c =>
    obtain ⟨rfl, rfl⟩ := pure_eq_ok_iff.mp h
    exact ⟨rfl, rfl⟩

theorem orFail_of_ok {α : Type} {x : Except Error α} {r : α} (h : orFail x b = .ok r b') :
    x = .ok r ∧ b = b' := by
  rw [orFail, step_eq_ok_iff] at h
  cases x with
  | ok a =>
    simp only [Except.map, Except.ok.injEq, Prod.mk.injEq] at h
    obtain ⟨rfl, rfl⟩ := h
    exact ⟨rfl, rfl⟩
  | error e => cases h

end Build

open Build

theorem lowerVar_inv {env : Env} {note : Note} {name : Ident} {symbol : Symbol} {here : Label}
    {b b' : Builder} {r : Placed} (h : lowerVar env name symbol here b = .ok r b') :
    ExprRun env (.var note name symbol) here b r b' := by
  rw [lowerVar, bind_eq_ok_iff] at h
  obtain ⟨slot?, _, hslot, h⟩ := h
  obtain ⟨rfl, rfl⟩ : b.locals.lookup? (env.refKey symbol) = slot? ∧ b = _ := pure_eq_ok_iff.mp hslot
  cases hslot : b.locals.lookup? (env.refKey symbol) with
  | some slot =>
    simp only [hslot, pure_eq_ok_iff] at h
    obtain ⟨rfl, rfl⟩ := h
    exact .variable hslot
  | none =>
    cases hc : env.constant? (env.refKey symbol) with
    | none =>
      simp only [hslot, hc] at h
      exact absurd h fail_ne_ok
    | some c =>
      simp only [hslot, hc, bind_eq_ok_iff, pure_eq_ok_iff] at h
      obtain ⟨_, _, hload, rfl, rfl⟩ := h
      obtain ⟨rfl, rfl⟩ := compute_of_ok hload
      exact .constant hslot hc

mutual

theorem lowerExpr_inv {env : Env} {e : Expr} {here : Label} {b b' : Builder} {r : Placed}
    (h : lowerExpr env e here b = .ok r b') : ExprRun env e here b r b' := by
  match e with
  | .literal note value =>
    simp only [lowerExpr, bind_eq_ok_iff, pure_eq_ok_iff] at h
    obtain ⟨_, _, hload, rfl, rfl⟩ := h
    obtain ⟨rfl, rfl⟩ := compute_of_ok hload
    exact .literal
  | .var note name symbol => exact lowerVar_inv (by simpa only [lowerExpr] using h)
  | .binary note op lhs rhs =>
    simp only [lowerExpr, bind_eq_ok_iff, pure_eq_ok_iff] at h
    obtain ⟨code, _, hcode, left, b₁, hl, right, b₂, hr, _, _, hcompute, rfl, rfl⟩ := h
    obtain ⟨hop, rfl⟩ := requireOpcode_of_ok hcode
    obtain ⟨rfl, rfl⟩ := compute_of_ok hcompute
    exact .binary hop (lowerExpr_inv hl) (lowerExpr_inv hr)
  | .unary note op operand =>
    simp only [lowerExpr, bind_eq_ok_iff, pure_eq_ok_iff] at h
    obtain ⟨code, _, hcode, value, b₁, hv, _, _, hcompute, rfl, rfl⟩ := h
    obtain ⟨hop, rfl⟩ := requireOpcode_of_ok hcode
    obtain ⟨rfl, rfl⟩ := compute_of_ok hcompute
    exact .unary hop (lowerExpr_inv hv)
  | .call note qualifier name args =>
    simp only [lowerExpr, bind_eq_ok_iff, pure_eq_ok_iff, addBlock_eq_ok_iff, temporary_eq_ok_iff,
      terminate_eq_ok_iff] at h
    obtain ⟨callee, _, hcallee, ⟨slots, last⟩, b₁, hargs, _, _, ⟨rfl, rfl⟩, _, _, ⟨rfl, rfl⟩, _, _,
      ⟨-, rfl⟩, rfl, rfl⟩ := h
    obtain ⟨hc, rfl⟩ := orFail_of_ok hcallee
    exact .call hc (lowerArgs_inv hargs)
  | .index note container key =>
    simp only [lowerExpr, bind_eq_ok_iff, pure_eq_ok_iff] at h
    obtain ⟨k, b₁, hkey, base, b₂, hbase, _, _, hcompute, rfl, rfl⟩ := h
    obtain ⟨rfl, rfl⟩ := compute_of_ok hcompute
    exact .index (lowerExpr_inv hkey) (lowerExpr_inv hbase)
  | .list note elements elementTy =>
    simp only [lowerExpr, bind_eq_ok_iff, pure_eq_ok_iff] at h
    obtain ⟨⟨values, last⟩, b₁, hargs, _, _, hload, _, _, hcompute, rfl, rfl⟩ := h
    obtain ⟨rfl, rfl⟩ := compute_of_ok hload
    obtain ⟨rfl, rfl⟩ := compute_of_ok hcompute
    rw [nextSlot_compute]
    exact .list (lowerArgs_inv hargs)
  | .cast note operand target =>
    simp only [lowerExpr, bind_eq_ok_iff, pure_eq_ok_iff] at h
    obtain ⟨value, b₁, hv, _, _, hcompute, rfl, rfl⟩ := h
    obtain ⟨rfl, rfl⟩ := compute_of_ok hcompute
    exact .cast (lowerExpr_inv hv)
  | .test note operand target negated =>
    simp only [lowerExpr, bind_eq_ok_iff, pure_eq_ok_iff] at h
    obtain ⟨value, b₁, hv, _, _, hcompute, rfl, rfl⟩ := h
    obtain ⟨rfl, rfl⟩ := compute_of_ok hcompute
    exact .test (lowerExpr_inv hv)
  | .group note inner => exact .group (lowerExpr_inv (by simpa only [lowerExpr] using h))
  | .wildcard note =>
    simp only [lowerExpr, bind_eq_ok_iff, pure_eq_ok_iff, temporary_eq_ok_iff] at h
    obtain ⟨_, _, ⟨rfl, rfl⟩, rfl, rfl⟩ := h
    exact .wildcard
  | .field note base name =>
    simp only [lowerExpr, bind_eq_ok_iff, pure_eq_ok_iff] at h
    obtain ⟨value, b₁, hv, _, _, hload, _, _, hcompute, rfl, rfl⟩ := h
    obtain ⟨rfl, rfl⟩ := compute_of_ok hload
    obtain ⟨rfl, rfl⟩ := compute_of_ok hcompute
    rw [nextSlot_compute]
    exact .field (lowerExpr_inv hv)
  | .mapping note fields =>
    simp only [lowerExpr, bind_eq_ok_iff, pure_eq_ok_iff] at h
    obtain ⟨⟨entries, last⟩, b₁, hf, _, _, hcompute, rfl, rfl⟩ := h
    obtain ⟨rfl, rfl⟩ := compute_of_ok hcompute
    exact .mapping (lowerFields_inv hf)
  | .ternary note cond whenTrue whenFalse =>
    simp only [lowerExpr, bind_eq_ok_iff, pure_eq_ok_iff, addBlock_eq_ok_iff, temporary_eq_ok_iff,
      terminate_eq_ok_iff, emit_eq_ok_iff, Build.goto, and_assoc, exists_and_left, exists_eq_left',
      nextLabel_grow, exists_const] at h
    obtain ⟨c, b₁, hc, -, x, b₂, hx, -, y, b₃, hy, -, -, -, rfl, rfl⟩ := h
    simpa only [join, nextLabel_append] using
      ExprRun.ternary (lowerExpr_inv hc) (lowerExpr_inv hx) (lowerExpr_inv hy)

theorem lowerArgs_inv {env : Env} {es : List Expr} {here last : Label} {b b' : Builder}
    {slots : List Slot} (h : lowerArgs env es here b = .ok (slots, last) b') :
    ArgsRun env es here b slots last b' := by
  match es with
  | [] =>
    simp only [lowerArgs, pure_eq_ok_iff, Prod.mk.injEq] at h
    obtain ⟨⟨rfl, rfl⟩, rfl⟩ := h
    exact .nil
  | e :: es =>
    simp only [lowerArgs, bind_eq_ok_iff, pure_eq_ok_iff, Prod.mk.injEq] at h
    obtain ⟨value, b₁, he, ⟨slots, last⟩, b₂, hes, ⟨rfl, rfl⟩, rfl⟩ := h
    exact .cons (lowerExpr_inv he) (lowerArgs_inv hes)

theorem lowerFields_inv {env : Env} {fields : List (Ident × Expr)} {here last : Label}
    {b b' : Builder} {entries : List MapEntry}
    (h : lowerFields env fields here b = .ok (entries, last) b') :
    FieldsRun env fields here b entries last b' := by
  match fields with
  | [] =>
    simp only [lowerFields, pure_eq_ok_iff, Prod.mk.injEq] at h
    obtain ⟨⟨rfl, rfl⟩, rfl⟩ := h
    exact .nil
  | (name, e) :: fields =>
    simp only [lowerFields, bind_eq_ok_iff, pure_eq_ok_iff, Prod.mk.injEq] at h
    obtain ⟨_, _, hload, value, b₁, he, ⟨entries, last⟩, b₂, hfields, ⟨rfl, rfl⟩, rfl⟩ := h
    obtain ⟨rfl, rfl⟩ := compute_of_ok hload
    exact .cons (lowerExpr_inv he) (lowerFields_inv hfields)

end

theorem lowerStore_inv {env : Env} {target : Expr} {value : Placed} {span : Span} {b b' : Builder}
    {last : Label} (h : lowerStore env target value span b = .ok last b') :
    StoreRun env target value span b last b' := by
  cases target with
  | var note name symbol =>
    simp only [lowerStore, bind_eq_ok_iff] at h
    obtain ⟨slot?, _, hslot, h⟩ := h
    obtain ⟨rfl, rfl⟩ : b.locals.lookup? (env.refKey symbol) = slot? ∧ b = _ := pure_eq_ok_iff.mp hslot
    cases hslot : b.locals.lookup? (env.refKey symbol) with
    | none =>
      simp only [hslot] at h
      exact absurd h fail_ne_ok
    | some slot =>
      simp only [hslot, bind_eq_ok_iff, pure_eq_ok_iff, emit_eq_ok_iff] at h
      obtain ⟨_, _, ⟨-, rfl⟩, rfl, rfl⟩ := h
      exact .variable hslot
  | index note container key =>
    simp only [lowerStore, bind_eq_ok_iff, pure_eq_ok_iff, emit_eq_ok_iff] at h
    obtain ⟨base, b₁, hbase, k, b₂, hkey, _, _, ⟨-, rfl⟩, rfl, rfl⟩ := h
    exact .index (lowerExpr_inv hbase) (lowerExpr_inv hkey)
  | field note base name =>
    simp only [lowerStore, bind_eq_ok_iff, pure_eq_ok_iff, emit_eq_ok_iff] at h
    obtain ⟨r, b₁, hbase, _, _, hload, _, _, ⟨-, rfl⟩, rfl, rfl⟩ := h
    obtain ⟨rfl, rfl⟩ := compute_of_ok hload
    exact .field (lowerExpr_inv hbase)
  | wildcard note =>
    simp only [lowerStore, bind_eq_ok_iff, pure_eq_ok_iff, emit_eq_ok_iff, temporary_eq_ok_iff] at h
    obtain ⟨_, _, ⟨rfl, rfl⟩, _, _, ⟨-, rfl⟩, rfl, rfl⟩ := h
    exact .wildcard
  | literal | binary | unary | call | list | cast | test | group | mapping | ternary =>
    exact absurd h fail_ne_ok

theorem lowerJump_inv {statement : String} {target : LoopFrame → Label} {here : Label} {span : Span}
    {b b' : Builder} {u : Unit} (h : lowerJump statement target here span b = .ok u b') :
    ∃ frame, b.loop? = some frame ∧ b.close here none (.goto (target frame)) span = b' := by
  simp only [lowerJump, bind_eq_ok_iff] at h
  obtain ⟨frame?, _, hframe, h⟩ := h
  obtain ⟨rfl, rfl⟩ : b.loop? = frame? ∧ b = _ := pure_eq_ok_iff.mp hframe
  cases hframe : b.loop? with
  | none =>
    simp only [hframe] at h
    exact absurd h fail_ne_ok
  | some frame =>
    simp only [hframe, Build.goto, terminate_eq_ok_iff] at h
    exact ⟨frame, rfl, h.2⟩

theorem lowerDefine_inv {env : Env} {var : VarDef} {here last : Label} {span : Span} {b b' : Builder}
    (h : lowerDefine env var here span b = .ok last b') :
    StmtRun env (.define span var) here b (some last) b' := by
  cases hinit : var.init with
  | none =>
    simp only [lowerDefine, hinit, bind_eq_ok_iff, pure_eq_ok_iff, allocateBound_eq_ok_iff] at h
    obtain ⟨_, _, ⟨rfl, rfl⟩, rfl, rfl⟩ := h
    exact .declare hinit
  | some init =>
    simp only [lowerDefine, hinit, bind_eq_ok_iff, pure_eq_ok_iff, allocateBound_eq_ok_iff,
      emit_eq_ok_iff] at h
    obtain ⟨r, b₁, hv, _, _, ⟨rfl, rfl⟩, _, _, ⟨-, rfl⟩, rfl, rfl⟩ := h
    exact .define hinit (lowerExpr_inv hv)

theorem lowerResult_inv {value : Placed} {span : Span} {b b' : Builder} {u : Unit}
    (h : lowerResult value span b = .ok u b') : b.result value span = b' := by
  simp only [lowerResult, bind_eq_ok_iff, emit_eq_ok_iff, terminate_eq_ok_iff] at h
  obtain ⟨_, _, ⟨-, rfl⟩, -, rfl⟩ := h
  rfl

mutual

theorem lowerStmt_inv {env : Env} {s : Stmt} {here : Label} {b b' : Builder} {out : Option Label}
    (h : lowerStmt env s here b = .ok out b') : StmtRun env s here b out b' := by
  match s with
  | .expr span value =>
    simp only [lowerStmt, bind_eq_ok_iff, pure_eq_ok_iff] at h
    obtain ⟨r, b₁, hv, rfl, rfl⟩ := h
    exact .expr (lowerExpr_inv hv)
  | .block span body => exact .block (lowerBlock_inv (by simpa only [lowerStmt] using h))
  | .ifThen span cond body =>
    simp only [lowerStmt, bind_eq_ok_iff, pure_eq_ok_iff, addBlock_eq_ok_iff, terminate_eq_ok_iff,
      and_assoc, exists_and_left, exists_eq_left', exists_const] at h
    obtain ⟨c, b₁, hc, thenEnd, b₂, hbody, -, _, _, hgoto, rfl, rfl⟩ := h
    obtain rfl := gotoFrom_of_ok hgoto
    exact .ifThen (lowerExpr_inv hc) (lowerBlock_inv hbody)
  | .ifElse span cond body otherwise =>
    simp only [lowerStmt, bind_eq_ok_iff, pure_eq_ok_iff, addBlock_eq_ok_iff, terminate_eq_ok_iff,
      and_assoc, exists_and_left, exists_eq_left', exists_const] at h
    obtain ⟨c, b₁, hc, thenEnd, b₂, hbody, -, elseEnd, b₃, helse, _, _, hgoto, _, _, hgoto', rfl, rfl⟩ := h
    obtain rfl := gotoFrom_of_ok hgoto
    obtain rfl := gotoFrom_of_ok hgoto'
    exact .ifElse (lowerExpr_inv hc) (lowerBlock_inv hbody) (lowerStmt_inv helse)
  | .whileLoop span cond body =>
    simp only [lowerStmt, bind_eq_ok_iff, pure_eq_ok_iff, addBlock_eq_ok_iff, terminate_eq_ok_iff,
      Build.goto, and_assoc, exists_and_left, exists_eq_left', exists_const, nextLabel_grow] at h
    obtain ⟨-, c, b₁, hc, -, _, _, hpush, bodyEnd, b₂, hbody, _, _, hgoto, _, _, hpop, rfl, rfl⟩ := h
    obtain rfl : Builder.pushLoop _ _ = _ := (pure_eq_ok_iff.mp hpush).2
    obtain rfl := gotoFrom_of_ok hgoto
    obtain rfl := popLoop_of_ok hpop
    exact .whileLoop (lowerExpr_inv hc) (lowerBlock_inv hbody)
  | .ret span none =>
    simp only [lowerStmt, bind_eq_ok_iff, pure_eq_ok_iff, terminate_eq_ok_iff] at h
    obtain ⟨_, _, ⟨-, rfl⟩, rfl, rfl⟩ := h
    exact .ret
  | .ret span (some value) =>
    simp only [lowerStmt, bind_eq_ok_iff, pure_eq_ok_iff] at h
    obtain ⟨r, b₁, hv, _, _, hresult, rfl, rfl⟩ := h
    obtain rfl := lowerResult_inv hresult
    exact .retValue (lowerExpr_inv hv)
  | .breakLoop span =>
    simp only [lowerStmt, bind_eq_ok_iff, pure_eq_ok_iff] at h
    obtain ⟨_, _, hjump, rfl, rfl⟩ := h
    obtain ⟨frame, hframe, rfl⟩ := lowerJump_inv hjump
    exact .breakLoop hframe
  | .continueLoop span =>
    simp only [lowerStmt, bind_eq_ok_iff, pure_eq_ok_iff] at h
    obtain ⟨_, _, hjump, rfl, rfl⟩ := h
    obtain ⟨frame, hframe, rfl⟩ := lowerJump_inv hjump
    exact .continueLoop hframe
  | .define span var =>
    simp only [lowerStmt, bind_eq_ok_iff, pure_eq_ok_iff] at h
    obtain ⟨last, b₁, hdefine, rfl, rfl⟩ := h
    exact lowerDefine_inv hdefine
  | .assign span target value =>
    simp only [lowerStmt, bind_eq_ok_iff, pure_eq_ok_iff] at h
    obtain ⟨r, b₁, hv, last, b₂, hstore, rfl, rfl⟩ := h
    exact .assign (lowerExpr_inv hv) (lowerStore_inv hstore)
  | .update span op target value ty =>
    simp only [lowerStmt, bind_eq_ok_iff, pure_eq_ok_iff] at h
    obtain ⟨r, b₁, hv, last, b₂, hstore, rfl, rfl⟩ := h
    exact .update (lowerExpr_inv hv) (lowerStore_inv hstore)
  | .panic span error =>
    simp only [lowerStmt, bind_eq_ok_iff, pure_eq_ok_iff, terminate_eq_ok_iff] at h
    obtain ⟨r, b₁, hv, _, _, ⟨-, rfl⟩, rfl, rfl⟩ := h
    exact .panic (lowerExpr_inv hv)
  | .lock span body =>
    simp only [lowerStmt, bind_eq_ok_iff, addBlock_eq_ok_iff, terminate_eq_ok_iff] at h
    obtain ⟨_, _, ⟨rfl, rfl⟩, _, _, ⟨-, rfl⟩, last?, b₁, hbody, h⟩ := h
    cases last? with
    | none =>
      obtain ⟨rfl, rfl⟩ := pure_eq_ok_iff.mp h
      exact .lockLeft (lowerBlock_inv hbody)
    | some last =>
      simp only [bind_eq_ok_iff, pure_eq_ok_iff, addBlock_eq_ok_iff, terminate_eq_ok_iff] at h
      obtain ⟨_, _, ⟨rfl, rfl⟩, _, _, ⟨-, rfl⟩, rfl, rfl⟩ := h
      exact .lock (lowerBlock_inv hbody)
  | .foreach span var collection body =>
    rw [lowerStmt] at h
    exact absurd h fail_ne_ok

theorem lowerBlock_inv {env : Env} {body : Block} {here : Label} {b b' : Builder} {out : Option Label}
    (h : lowerBlock env body here b = .ok out b') : BlockRun env body here b out b' := by
  match body with
  | .mk stmts span =>
    simp only [lowerBlock, bind_eq_ok_iff, pure_eq_ok_iff] at h
    obtain ⟨_, _, henter, last, b₁, hstmts, _, _, hexit, rfl, rfl⟩ := h
    obtain rfl : b.enterScope = _ := (pure_eq_ok_iff.mp henter).2
    obtain rfl : b₁.exitScope = _ := (pure_eq_ok_iff.mp hexit).2
    exact .mk (lowerStmts_inv hstmts)

theorem lowerStmts_inv {env : Env} {stmts : List Stmt} {here : Label} {b b' : Builder}
    {out : Option Label} (h : lowerStmts env stmts here b = .ok out b') :
    StmtsRun env stmts here b out b' := by
  match stmts with
  | [] =>
    obtain ⟨rfl, rfl⟩ := pure_eq_ok_iff.mp (by simpa only [lowerStmts] using h)
    exact .nil
  | s :: stmts =>
    simp only [lowerStmts, bind_eq_ok_iff] at h
    obtain ⟨next?, b₁, hs, h⟩ := h
    cases next? with
    | none =>
      obtain ⟨rfl, rfl⟩ := pure_eq_ok_iff.mp h
      exact .leave (lowerStmt_inv hs)
    | some next => exact .next (lowerStmt_inv hs) (lowerStmts_inv h)

end

end FlowGraph

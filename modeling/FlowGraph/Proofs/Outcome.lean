import FlowGraph.Proofs.Check
import FlowGraph.Proofs.Region
import FlowGraph.Lowering.Function

/-!
Lowering and the check of the source come to the same verdict. Where the check finds nothing, the
run of lowering is one of the derivations; where it finds an error, lowering fails with that error.
-/

namespace FlowGraph

open Builder

mutual

theorem StmtRun.isNone_eq {env : Env} {st : Stmt} {here : Label} {b b' : Builder} {out : Option Label}
    (h : StmtRun env st here b out b') : out.isNone = st.leaves := by
  cases h with
  | block hbody => exact hbody.isNone_eq
  | lockLeft hbody => exact hbody.isNone_eq
  | lock hbody => exact hbody.isNone_eq
  | _ => rfl

theorem BlockRun.isNone_eq {env : Env} {body : Block} {here : Label} {b b' : Builder}
    {out : Option Label} (h : BlockRun env body here b out b') : out.isNone = body.leaves := by
  match h with
  | .mk hstmts => exact hstmts.isNone_eq

theorem StmtsRun.isNone_eq {env : Env} {stmts : List Stmt} {here : Label} {b b' : Builder}
    {out : Option Label} (h : StmtsRun env stmts here b out b') : out.isNone = leavesList stmts := by
  match h with
  | .nil => rfl
  | .next hs hstmts => simp [leavesList, ← hs.isNone_eq, hstmts.isNone_eq]
  | .leave hs => simp [leavesList, ← hs.isNone_eq]

end

theorem Locals.lookup?_isSome_iff {t : Locals} {key : Symbol} :
    (t.lookup? key).isSome ↔ key ∈ t.bindings.map (·.1) := by
  simp [Locals.lookup?]

theorem Builder.mem_keys_iff {b : Builder} {key : Symbol} :
    key ∈ b.keys ↔ (b.locals.lookup? key).isSome := Locals.lookup?_isSome_iff.symm

section Agrees

variable {σ α β γ δ : Type} {x : EStateM Error σ α} {f : α → EStateM Error σ γ} {b b' : σ} {a : α}

theorem bind_run (h : x b = .ok a b') : (x >>= f) b = f a b' := by
  change EStateM.bind x f b = _
  simp [EStateM.bind, h]

theorem bind_fail {e : Error} (h : x b = .error e b') : (x >>= f) b = .error e b' := by
  change EStateM.bind x f b = _
  simp [EStateM.bind, h]

/-- `x` does from `b` what `c` foretells: it fails with the same error, or it succeeds as `Q` says. -/
def Agrees (x : EStateM Error σ α) (b : σ) (c : Except Error β) (Q : α → σ → β → Prop) : Prop :=
  match c with
  | .ok v => ∃ a b', x b = .ok a b' ∧ Q a b' v
  | .error e => ∃ b', x b = .error e b'

namespace Agrees

variable {c : Except Error β} {k : β → Except Error δ} {Q : α → σ → β → Prop}
  {R : γ → σ → δ → Prop}

theorem bind (h : Agrees x b c Q) (hf : ∀ a b' v, Q a b' v → Agrees (f a) b' (k v) R) :
    Agrees (x >>= f) b (c >>= k) R := by
  cases c with
  | ok v =>
    obtain ⟨a, b', hx, hq⟩ := h
    have := hf a b' v hq
    unfold Agrees at this ⊢
    rw [bind_run hx]
    exact this
  | error e =>
    obtain ⟨b', hx⟩ := h
    exact ⟨b', bind_fail hx⟩

theorem andThen {R : γ → σ → β → Prop} (h : Agrees x b c Q)
    (hf : ∀ a b' v, Q a b' v → ∃ a' b'', f a b' = .ok a' b'' ∧ R a' b'' v) :
    Agrees (x >>= f) b c R := by
  cases c with
  | ok v =>
    obtain ⟨a, b', hx, hq⟩ := h
    obtain ⟨a', b'', hf', hr⟩ := hf a b' v hq
    exact ⟨a', b'', (bind_run hx).trans hf', hr⟩
  | error e =>
    obtain ⟨b', hx⟩ := h
    exact ⟨b', bind_fail hx⟩

theorem imp {R : α → σ → β → Prop} (h : Agrees x b c Q) (hqr : ∀ a b' v, Q a b' v → R a b' v) :
    Agrees x b c R := by
  cases c with
  | ok v =>
    obtain ⟨a, b', hx, hq⟩ := h
    exact ⟨a, b', hx, hqr a b' v hq⟩
  | error e => exact h

theorem run {c : Except Error δ} (hx : x b = .ok a b') (h : Agrees (f a) b' c R) :
    Agrees (x >>= f) b c R := by
  unfold Agrees at h ⊢
  rw [bind_run hx]
  exact h

theorem of_ok (h : Agrees x b c Q) (hx : x b = .ok a b') : ∃ v, c = .ok v ∧ Q a b' v := by
  cases c with
  | ok v =>
    obtain ⟨a', b'', hx', hq⟩ := h
    obtain ⟨rfl, rfl⟩ : a' = a ∧ b'' = b' := by simpa [hx] using hx'.symm
    exact ⟨v, rfl, hq⟩
  | error e =>
    obtain ⟨b'', hx'⟩ := h
    simp [hx] at hx'

end Agrees

end Agrees

namespace Build

variable {b : Builder}

theorem updateOpen_of_isOpen {l : Label} {g : BasicBlock → BasicBlock} (ho : b.IsOpen l) :
    b.updateOpen l g = .ok { b with blocks := b.blocks.modify l g } := by
  obtain ⟨block, hl, hopen⟩ := ho
  have hset : b.blocks.set l (g block) = b.blocks.modify l g := by
    apply List.ext_getElem?
    intro m
    by_cases hlm : l = m
    · subst hlm
      rw [List.getElem?_set_self (List.getElem?_eq_some_iff.mp hl).1, List.getElem?_modify_eq, hl]
      rfl
    · rw [List.getElem?_set_ne hlm, List.getElem?_modify_ne _ _ hlm]
  exact updateOpen_eq_ok_iff.mpr ⟨block, hl, by simp [BasicBlock.isOpen, hopen], by rw [hset]⟩

theorem addBlock_run : addBlock b = .ok b.nextLabel b.grow := rfl

theorem temporary_run {ty : Option Ty} : temporary ty b = .ok b.nextSlot (b.addTemporary ty) := rfl

theorem allocateBound_run {name : String} {ty : Option Ty} {kind : VarKind} {key : Symbol} :
    allocateBound name ty kind key b = .ok b.nextSlot (b.addBound name ty kind key) := rfl

theorem emit_run {l : Label} {dst : Slot} {op : Operation} {span : Span} (ho : b.IsOpen l) :
    emit l dst op span b = .ok () (b.append l dst op span) := by
  simp [emit, step, Builder.emit, updateOpen_of_isOpen ho, Except.map, Builder.append]
  rfl

theorem terminate_run {l : Label} {dst : Option Slot} {t : Transfer} {span : Span}
    (ho : b.IsOpen l) : terminate l dst t span b = .ok () (b.close l dst t span) := by
  simp [terminate, step, Builder.terminate, updateOpen_of_isOpen ho, Except.map, Builder.close]
  rfl

theorem goto_run {l target : Label} {span : Span} (ho : b.IsOpen l) :
    goto l target span b = .ok () (b.close l none (.goto target) span) := terminate_run ho

theorem gotoFrom_run {fin : Option Label} {target : Label} {span : Span}
    (ho : ∀ l, fin = some l → b.IsOpen l) :
    gotoFrom fin target span b = .ok () (b.gotoFrom fin target span) := by
  cases fin with
  | none => rfl
  | some l => exact goto_run (ho l rfl)

theorem compute_run {l : Label} {ty : Option Ty} {op : Operation} {span : Span} (ho : b.IsOpen l) :
    compute l ty op span b = .ok b.nextSlot (b.compute l ty op span) := by
  have ho' : (b.addTemporary ty).IsOpen l := ho
  exact bind_run (f := fun dst => do emit l dst op span; return dst) rfl |>.trans (bind_run (emit_run ho'))

theorem load_run {l : Label} {value : Literal} {ty : Option Ty} {span : Span} (ho : b.IsOpen l) :
    load l value ty span b = .ok b.nextSlot (b.load l value ty span) := compute_run ho

theorem popLoop_run {frame : LoopFrame} {loops : List LoopFrame} (h : b.loops = frame :: loops) :
    popLoop b = .ok frame b.dropLoop := by
  simp [popLoop, step, Builder.popLoop, Builder.dropLoop, h]
  rfl

theorem join_run {l m : Label} {slot : Slot} {span : Span} (hl : b.IsOpen l) (hm : b.IsOpen m)
    (hne : m ≠ l) :
    (do
      let merge ← addBlock
      goto l merge span
      goto m merge span
      return (⟨slot, merge⟩ : Placed) : Build Placed) b =
    .ok ⟨slot, b.nextLabel⟩ (b.join l m span) := by
  have hl' : b.grow.IsOpen l := isOpen_grow.mpr (.inl hl)
  have hm' : (b.grow.close l none (.goto b.nextLabel) span).IsOpen m :=
    isOpen_close.mpr ⟨isOpen_grow.mpr (.inl hm), hne⟩
  rw [bind_run addBlock_run, bind_run (goto_run hl'), bind_run (goto_run hm')]
  rfl

theorem requireOpcode_agrees {code : Option Opcode} {symbol : String} {span : Span} :
    Agrees (requireOpcode code symbol span) b
      (require code.isSome (.unsupportedOperator symbol) span) fun a b' _ => code = some a ∧ b = b' := by
  cases code with
  | none => exact ⟨b, rfl⟩
  | some a => exact ⟨a, b, rfl, rfl, rfl⟩

end Build

def Env.names (env : Env) : Names where
  refKey := env.refKey
  isConstant key := (env.constant? key).isSome
  isAlias a := (env.imports.lookup a).isSome

open Build

theorem callee_agrees {env : Env} {qualifier : Option Ident} {name : Ident} {b : Builder} :
    Agrees (orFail (env.callee qualifier name)) b (env.names.checkAlias qualifier)
      fun a b' _ => env.callee qualifier name = .ok a ∧ b = b' := by
  cases qualifier with
  | none => exact ⟨_, b, rfl, rfl, rfl⟩
  | some a =>
    simp only [Names.checkAlias, Env.names, Env.callee, ImportTable.resolve]
    cases hempty : a.isEmpty with
    | true => exact ⟨_, b, rfl, rfl, rfl⟩
    | false =>
      cases hlookup : env.imports.lookup a.name with
      | none => exact ⟨b, rfl⟩
      | some package => exact ⟨_, b, rfl, rfl, rfl⟩

theorem BinOp.isSupported_eq (op : BinOp) : op.isSupported = op.opcode?.isSome := by
  cases op <;> rfl

theorem UnOp.isSupported_eq (op : UnOp) : op.isSupported = op.opcode?.isSome := by
  cases op <;> rfl

theorem lowerVar_agrees {env : Env} {note : Note} {name : Ident} {symbol : Symbol} {here : Label}
    {b : Builder} (ho : b.IsOpen here) :
    Agrees (lowerVar env name symbol here) b (env.names.checkExpr b.keys (.var note name symbol))
      fun r b' _ => ExprRun env (.var note name symbol) here b r b' := by
  have hmem := @Locals.lookup?_isSome_iff b.locals (env.refKey symbol)
  refine .run (a := b.locals.lookup? (env.refKey symbol)) rfl ?_
  cases hslot : b.locals.lookup? (env.refKey symbol) with
  | some slot =>
    have hk : env.refKey symbol ∈ b.keys := hmem.mp (by simp [hslot])
    simp only [Names.checkExpr, Env.names, require, hk, decide_true, Bool.true_or]
    exact ⟨_, b, rfl, .variable hslot⟩
  | none =>
    have hk : env.refKey symbol ∉ b.keys := fun h => by simpa [hslot] using hmem.mpr h
    cases hc : env.constant? (env.refKey symbol) with
    | some c =>
      simp only [Names.checkExpr, Env.names, require, hc, Option.isSome_some, Bool.or_true]
      exact ⟨_, _, bind_run (load_run ho), .constant hslot hc⟩
    | none =>
      simp only [Names.checkExpr, Env.names, require, hc, hk, decide_false, Option.isSome_none]
      exact ⟨b, rfl⟩

mutual

theorem lowerExpr_agrees {env : Env} {e : Expr} {here : Label} {b : Builder} {keys : List Symbol}
    (hb : b.Sound) (ho : b.IsOpen here) (hk : b.keys = keys) :
    Agrees (lowerExpr env e here) b (env.names.checkExpr keys e)
      fun r b' _ => ExprRun env e here b r b' := by
  match e with
  | .literal note value => exact ⟨_, _, bind_run (load_run ho), .literal⟩
  | .var note name symbol => exact hk ▸ lowerVar_agrees ho
  | .binary note op lhs rhs =>
    rw [lowerExpr, Names.checkExpr, op.isSupported_eq]
    refine requireOpcode_agrees.bind ?_
    rintro code b _ ⟨hcode, rfl⟩
    refine (lowerExpr_agrees hb ho hk).bind ?_
    intro left b₁ _ hl
    have h₁ := hl.evaluation hb ho
    refine (lowerExpr_agrees (h₁.sound hb) h₁.open_last (h₁.keys.trans hk)).andThen ?_
    intro right b₂ _ hr
    have h₂ := hr.evaluation (h₁.sound hb) h₁.open_last
    exact ⟨_, _, bind_run (compute_run h₂.open_last), .binary hcode hl hr⟩
  | .unary note op operand =>
    rw [lowerExpr, Names.checkExpr, op.isSupported_eq]
    refine requireOpcode_agrees.bind ?_
    rintro code b _ ⟨hcode, rfl⟩
    refine (lowerExpr_agrees hb ho hk).andThen ?_
    intro value b₁ _ hv
    exact ⟨_, _, bind_run (compute_run (hv.evaluation hb ho).open_last), .unary hcode hv⟩
  | .call note qualifier name args =>
    rw [lowerExpr, Names.checkExpr]
    refine callee_agrees.bind ?_
    rintro callee b _ ⟨hcallee, rfl⟩
    refine (lowerArgs_agrees hb ho hk).andThen ?_
    rintro ⟨slots, last⟩ b₁ _ hargs
    have h₁ := hargs.evaluation hb ho
    have ho₁ : (b₁.grow.addTemporary note.ty).IsOpen last := isOpen_grow.mpr (.inl h₁.open_last)
    refine ⟨_, _, ?_, .call hcallee hargs⟩
    exact (bind_run addBlock_run).trans ((bind_run temporary_run).trans (bind_run (terminate_run ho₁)))
  | .index note container key =>
    rw [lowerExpr, Names.checkExpr]
    refine (lowerExpr_agrees hb ho hk).bind ?_
    intro k b₁ _ hkey
    have h₁ := hkey.evaluation hb ho
    refine (lowerExpr_agrees (h₁.sound hb) h₁.open_last (h₁.keys.trans hk)).andThen ?_
    intro base b₂ _ hbase
    have h₂ := hbase.evaluation (h₁.sound hb) h₁.open_last
    exact ⟨_, _, bind_run (compute_run h₂.open_last), .index hkey hbase⟩
  | .list note elements elementTy =>
    rw [lowerExpr, Names.checkExpr]
    refine (lowerArgs_agrees hb ho hk).andThen ?_
    rintro ⟨values, last⟩ b₁ _ hargs
    have h₁ := hargs.evaluation hb ho
    refine ⟨_, _, (bind_run (load_run h₁.open_last)).trans ?_, .list hargs⟩
    rw [bind_run (compute_run h₁.load.open_last), nextSlot_load]
    rfl
  | .cast note operand target =>
    rw [lowerExpr, Names.checkExpr]
    refine (lowerExpr_agrees hb ho hk).andThen ?_
    intro value b₁ _ hv
    exact ⟨_, _, bind_run (compute_run (hv.evaluation hb ho).open_last), .cast hv⟩
  | .test note operand target negated =>
    rw [lowerExpr, Names.checkExpr]
    refine (lowerExpr_agrees hb ho hk).andThen ?_
    intro value b₁ _ hv
    exact ⟨_, _, bind_run (compute_run (hv.evaluation hb ho).open_last), .test hv⟩
  | .group note inner =>
    rw [lowerExpr, Names.checkExpr]
    obtain h := lowerExpr_agrees (e := inner) hb ho hk
    exact h.imp fun r b' _ => .group
  | .wildcard note => exact ⟨_, _, rfl, .wildcard⟩
  | .field note base name =>
    rw [lowerExpr, Names.checkExpr]
    refine (lowerExpr_agrees hb ho hk).andThen ?_
    intro value b₁ _ hv
    have h₁ := hv.evaluation hb ho
    refine ⟨_, _, (bind_run (load_run h₁.open_last)).trans ?_, .field hv⟩
    rw [bind_run (compute_run h₁.load.open_last), nextSlot_load]
    rfl
  | .mapping note fields =>
    rw [lowerExpr, Names.checkExpr]
    refine (lowerFields_agrees hb ho hk).andThen ?_
    rintro ⟨entries, last⟩ b₁ _ hf
    exact ⟨_, _, bind_run (compute_run (hf.evaluation hb ho).open_last), .mapping hf⟩
  | .ternary note cond whenTrue whenFalse =>
    rw [lowerExpr, Names.checkExpr]
    refine (lowerExpr_agrees hb ho hk).bind ?_
    intro c b₁ _ hc
    have h₁ := hc.evaluation hb ho
    have hfork : Region b here (b₁.fork c note) _ := h₁.fork
    have hclose : (b₁.addTemporary note.ty).grow.grow.IsOpen c.block := by
      have := h₁.open_last
      simp_all
    refine .run temporary_run (.run addBlock_run (.run addBlock_run (.run (terminate_run hclose) ?_)))
    rw [nextLabel_grow]
    have hk₁ : (b₁.fork c note).keys = keys := h₁.keys.trans hk
    refine (lowerExpr_agrees (hfork.sound hb) (hfork.isOpen (.inl rfl)) hk₁).bind ?_
    intro x b₂ _ hx
    have h₂ := hx.evaluation (hfork.sound hb) (hfork.isOpen (.inl rfl))
    have harm := h₁.firstArm whenTrue.span h₂
    have hk₂ : (b₂.append x.block b₁.nextSlot (.move x.slot) whenTrue.span).keys = keys :=
      h₂.keys.trans hk₁
    refine .run (emit_run h₂.open_last) ?_
    refine (lowerExpr_agrees (harm.sound hb) (harm.isOpen (.inr rfl)) hk₂).andThen ?_
    intro y b₃ _ hy
    have h₃ := hy.evaluation (harm.sound hb) (harm.isOpen (.inr rfl))
    have hboth : Region b here (b₃.append y.block b₁.nextSlot (.move y.slot) whenFalse.span) _ :=
      h₁.secondArm h₂ h₃
    refine ⟨_, _, (bind_run (emit_run h₃.open_last)).trans ?_, .ternary hc hx hy⟩
    rw [join_run (hboth.isOpen (.inl rfl)) (hboth.isOpen (.inr rfl)) (h₂.arms_ne h₃).1,
      nextLabel_append]

theorem lowerArgs_agrees {env : Env} {es : List Expr} {here : Label} {b : Builder}
    {keys : List Symbol} (hb : b.Sound) (ho : b.IsOpen here) (hk : b.keys = keys) :
    Agrees (lowerArgs env es here) b (env.names.checkExprs keys es)
      fun r b' _ => ArgsRun env es here b r.1 r.2 b' := by
  match es with
  | [] => exact ⟨_, _, rfl, .nil⟩
  | e :: es =>
    rw [lowerArgs, Names.checkExprs]
    refine (lowerExpr_agrees hb ho hk).bind ?_
    intro value b₁ _ he
    have h₁ := he.evaluation hb ho
    refine (lowerArgs_agrees (h₁.sound hb) h₁.open_last (h₁.keys.trans hk)).andThen ?_
    rintro ⟨slots, last⟩ b₂ _ hes
    exact ⟨_, _, rfl, .cons he hes⟩

theorem lowerFields_agrees {env : Env} {fields : List (Ident × Expr)} {here : Label} {b : Builder}
    {keys : List Symbol} (hb : b.Sound) (ho : b.IsOpen here) (hk : b.keys = keys) :
    Agrees (lowerFields env fields here) b (env.names.checkFields keys fields)
      fun r b' _ => FieldsRun env fields here b r.1 r.2 b' := by
  match fields with
  | [] => exact ⟨_, _, rfl, .nil⟩
  | (name, e) :: fields =>
    rw [lowerFields, Names.checkFields]
    have hr : Evaluation b here b here [] := .refl ho (by simp)
    have h₀ := hr.loadName name
    refine .run (load_run ho) ?_
    refine (lowerExpr_agrees (h₀.sound hb) h₀.open_last (h₀.keys.trans hk)).bind ?_
    intro value b₁ _ he
    have h₁ := h₀.seq (he.evaluation (h₀.sound hb) h₀.open_last)
    refine (lowerFields_agrees (h₁.sound hb) h₁.open_last (h₁.keys.trans hk)).andThen ?_
    rintro ⟨entries, last⟩ b₂ _ hfields
    exact ⟨_, _, rfl, .cons he hfields⟩

end

theorem lowerStore_agrees {env : Env} {target : Expr} {value : Placed} {span : Span} {b : Builder}
    {keys : List Symbol} (hb : b.Sound) (ho : b.IsOpen value.block) (hk : b.keys = keys) :
    Agrees (lowerStore env target value span) b (env.names.checkTarget keys target)
      fun last b' _ => StoreRun env target value span b last b' := by
  cases target with
  | var note name symbol =>
    have hmem := @Locals.lookup?_isSome_iff b.locals (env.refKey symbol)
    refine .run (a := b.locals.lookup? (env.refKey symbol)) rfl ?_
    cases hslot : b.locals.lookup? (env.refKey symbol) with
    | some slot =>
      have hmem : env.refKey symbol ∈ keys := hk ▸ hmem.mp (by simp [hslot])
      simp only [Names.checkTarget, Env.names, require, hmem, decide_true]
      exact ⟨_, _, bind_run (emit_run ho), .variable hslot⟩
    | none =>
      have hmem : env.refKey symbol ∉ keys := hk ▸ fun h => by simpa [hslot] using hmem.mpr h
      simp only [Names.checkTarget, Env.names, require, hmem, decide_false]
      exact ⟨b, rfl⟩
  | index note container key =>
    refine (lowerExpr_agrees hb ho hk).bind ?_
    intro base b₁ _ hbase
    have h₁ := hbase.evaluation hb ho
    refine (lowerExpr_agrees (h₁.sound hb) h₁.open_last (h₁.keys.trans hk)).andThen ?_
    intro k b₂ _ hkey
    have h₂ := hkey.evaluation (h₁.sound hb) h₁.open_last
    exact ⟨_, _, bind_run (emit_run h₂.open_last), .index hbase hkey⟩
  | field note base name =>
    refine (lowerExpr_agrees hb ho hk).andThen ?_
    intro r b₁ _ hbase
    have h₁ := hbase.evaluation hb ho
    refine ⟨_, _, ?_, .field hbase⟩
    exact (bind_run (load_run h₁.open_last)).trans (bind_run (emit_run h₁.load.open_last))
  | wildcard note =>
    have ho' : (b.addTemporary none).IsOpen value.block := ho
    exact ⟨_, _, (bind_run temporary_run).trans (bind_run (emit_run ho')), .wildcard⟩
  | literal | binary | unary | call | list | cast | test | group | mapping | ternary => exact ⟨b, rfl⟩

theorem lowerResult_run {value : Placed} {span : Span} {b : Builder} (ho : b.IsOpen value.block) :
    lowerResult value span b = .ok () (b.result value span) :=
  (bind_run (emit_run ho)).trans (terminate_run (isOpen_append.mpr ho))

theorem lowerJump_agrees {statement : String} {target : LoopFrame → Label} {here : Label} {span : Span}
    {b : Builder} {inLoop : Bool} (hl : b.loop?.isSome = inLoop) (ho : b.IsOpen here) :
    Agrees (lowerJump statement target here span) b (require inLoop (.noEnclosingLoop statement) span)
      fun _ b' _ => ∃ frame, b.loop? = some frame ∧
        b' = b.close here none (.goto (target frame)) span := by
  subst hl
  refine .run (a := b.loop?) rfl ?_
  cases hframe : b.loop? with
  | none => exact ⟨b, rfl⟩
  | some frame => exact ⟨(), _, goto_run ho, frame, rfl, rfl⟩

theorem lowerDefine_agrees {env : Env} {var : VarDef} {here : Label} {span : Span} {b : Builder}
    {keys : List Symbol} {inLoop : Bool} (hb : b.Sound) (ho : b.IsOpen here) (hk : b.keys = keys) :
    Agrees (lowerDefine env var here span) b (env.names.checkStmt inLoop keys (.define span var))
      fun last b' keys' => StmtRun env (.define span var) here b (some last) b' ∧ b'.keys = keys' := by
  have hkeys : ∀ c : Builder, c.keys = keys →
      (c.addBound var.name.name var.ty .declared (env.refKey var.symbol)).keys =
        env.names.refKey var.symbol :: keys := by
    intro c hc
    subst hc
    rfl
  rw [Names.checkStmt]
  unfold lowerDefine
  cases hinit : var.init with
  | none => exact ⟨_, _, bind_run allocateBound_run, .declare hinit, hkeys b hk⟩
  | some init =>
    refine (lowerExpr_agrees hb ho hk).bind ?_
    intro r b₁ _ hv
    have h₁ := hv.evaluation hb ho
    refine ⟨_, _, ?_, .define hinit hv, hkeys b₁ (h₁.keys.trans hk)⟩
    exact (bind_run allocateBound_run).trans (bind_run (emit_run h₁.open_last))

mutual

theorem lowerStmt_agrees {env : Env} {s : Stmt} {here : Label} {b : Builder} {keys : List Symbol}
    {inLoop : Bool} (hb : b.Sound) (ho : b.IsOpen here) (hk : b.keys = keys)
    (hl : b.loop?.isSome = inLoop) :
    Agrees (lowerStmt env s here) b (env.names.checkStmt inLoop keys s)
      fun out b' keys' => StmtRun env s here b out b' ∧ b'.keys = keys' ∧ out.isNone = s.leaves := by
  match s with
  | .expr span value =>
    rw [lowerStmt, Names.checkStmt]
    refine (lowerExpr_agrees hb ho hk).bind ?_
    intro r b₁ _ hv
    exact ⟨_, _, rfl, .expr hv, (hv.evaluation hb ho).keys.trans hk, rfl⟩
  | .block span body =>
    rw [lowerStmt, Names.checkStmt]
    exact (lowerBlock_agrees hb ho hk hl).imp fun _ _ _ h => ⟨.block h.1, h.2⟩
  | .ifThen span cond body =>
    rw [lowerStmt, Names.checkStmt]
    refine (lowerExpr_agrees hb ho hk).bind ?_
    intro c b₁ _ hc
    have h₁ := hc.evaluation hb ho
    have hgrow := h₁.toRegion.grow
    have hk₁ : b₁.grow.keys = keys := h₁.keys.trans hk
    have hl₁ : b₁.grow.loop?.isSome = inLoop := by rw [Builder.loop?, hgrow.loops]; exact hl
    refine .run addBlock_run ?_
    refine (lowerBlock_agrees (hgrow.sound hb) (hgrow.isOpen (.inr rfl)) hk₁ hl₁).andThen ?_
    rintro thenEnd b₂ keys₂ ⟨hbody, hkeys, -⟩
    have h₂ := hbody.region (hgrow.sound hb) (hgrow.isOpen (.inr rfl))
    have hopen : b₂.grow.IsOpen c.block := isOpen_grow.mpr (.inl (h₁.cond_open h₂))
    refine ⟨_, _, ?_, .ifThen hc hbody, ?_, rfl⟩
    · rw [bind_run addBlock_run, bind_run (terminate_run hopen),
        bind_run (gotoFrom_run fun l hl => (h₁.thenDone span h₂).isOpen (.inl hl))]
      rfl
    · cases thenEnd <;> exact hkeys
  | .ifElse span cond body otherwise =>
    rw [lowerStmt, Names.checkStmt]
    refine (lowerExpr_agrees hb ho hk).bind ?_
    intro c b₁ _ hc
    have h₁ := hc.evaluation hb ho
    have hgrow := h₁.toRegion.grow
    have hk₁ : b₁.grow.keys = keys := h₁.keys.trans hk
    have hl₁ : b₁.grow.loop?.isSome = inLoop := by rw [Builder.loop?, hgrow.loops]; exact hl
    refine .run addBlock_run ?_
    refine (lowerBlock_agrees (hgrow.sound hb) (hgrow.isOpen (.inr rfl)) hk₁ hl₁).bind ?_
    rintro thenEnd b₂ keys₂ ⟨hbody, hkeys, -⟩
    have h₂ := hbody.region (hgrow.sound hb) (hgrow.isOpen (.inr rfl))
    have hthen := h₁.thenDone span h₂
    have hopen : b₂.grow.IsOpen c.block := isOpen_grow.mpr (.inl (h₁.cond_open h₂))
    refine .run addBlock_run (.run (terminate_run hopen) ?_)
    have hl₂ : (b₂.grow.close c.block none (.branch c.slot b₁.nextLabel b₂.nextLabel) span).loop?.isSome
        = inLoop := by
      rw [Builder.loop?, hthen.loops]
      exact hl
    refine (lowerStmt_agrees (hthen.sound hb) (hthen.isOpen (.inr rfl)) hkeys hl₂).andThen ?_
    rintro elseEnd b₃ keys₃ ⟨helse, hkeys₃, -⟩
    have h₃ := helse.region (hthen.sound hb) (hthen.isOpen (.inr rfl))
    refine ⟨_, _, ?_, .ifElse hc hbody helse, ?_, rfl⟩
    · have hgoto : ∀ l, elseEnd = some l → b₃.grow.IsOpen l := fun l hl =>
        isOpen_grow.mpr (.inl (h₃.isOpen hl))
      rw [bind_run addBlock_run, bind_run (gotoFrom_run hgoto),
        bind_run (gotoFrom_run fun l hl => (h₁.elseDone h₂ h₃).isOpen (.inl hl))]
      rfl
    · cases thenEnd <;> cases elseEnd <;> exact hkeys₃
  | .whileLoop span cond body =>
    rw [lowerStmt, Names.checkStmt]
    have hr : Region b here b (· = here) := .refl ho
    have hhead := hr.advance (.goto b.nextLabel) span rfl rfl
    have hopen : b.grow.IsOpen here := isOpen_grow.mpr (.inl ho)
    refine .run addBlock_run (.run (goto_run hopen) ?_)
    have hk₀ : (b.grow.close here none (.goto b.nextLabel) span).keys = keys := hk
    refine (lowerExpr_agrees (hhead.sound hb) (hhead.isOpen rfl) hk₀).bind ?_
    intro c b₁ _ hc
    have h₁ := hc.evaluation (hhead.sound hb) (hhead.isOpen rfl)
    have hcond : b₁.grow.grow.IsOpen c.block :=
      isOpen_grow.mpr (.inl (isOpen_grow.mpr (.inl h₁.open_last)))
    refine .run addBlock_run (.run addBlock_run ?_)
    rw [nextLabel_grow]
    refine .run (terminate_run hcond) (.run rfl ?_)
    have hbody := (hhead.enterLoop h₁ span).isOpen (.inl rfl)
    have hk₁ : (b₁.enterLoop b.nextLabel c span).keys = keys := h₁.keys.trans hk₀
    have hl₁ : (b₁.enterLoop b.nextLabel c span).loop?.isSome = true := rfl
    refine (lowerBlock_agrees (hhead.enterLoop_sound h₁ hb) hbody hk₁ hl₁).andThen ?_
    rintro bodyEnd b₂ keys₂ ⟨hrun, hkeys, -⟩
    have h₂ := hrun.region (hhead.enterLoop_sound h₁ hb) hbody
    refine ⟨_, _, ?_, .whileLoop hc hrun, ?_, rfl⟩
    · have hloops : (b₂.gotoFrom bodyEnd b.nextLabel span).loops =
          ⟨b₁.nextLabel + 1, b.nextLabel⟩ :: b₁.loops := by
        cases bodyEnd <;> exact h₂.loops
      rw [bind_run (gotoFrom_run fun l hl => h₂.isOpen hl), bind_run (popLoop_run hloops)]
      rfl
    · cases bodyEnd <;> exact hkeys
  | .ret span none =>
    exact ⟨_, _, bind_run (terminate_run ho), .ret, hk, rfl⟩
  | .ret span (some value) =>
    rw [lowerStmt, Names.checkStmt]
    refine (lowerExpr_agrees hb ho hk).bind ?_
    intro r b₁ _ hv
    have h₁ := hv.evaluation hb ho
    refine ⟨_, _, bind_run (lowerResult_run h₁.open_last), .retValue hv, h₁.keys.trans hk, rfl⟩
  | .breakLoop span =>
    rw [lowerStmt, Names.checkStmt]
    refine (lowerJump_agrees hl ho).bind ?_
    rintro _ b₁ _ ⟨frame, hframe, rfl⟩
    exact ⟨_, _, rfl, .breakLoop hframe, hk, rfl⟩
  | .continueLoop span =>
    rw [lowerStmt, Names.checkStmt]
    refine (lowerJump_agrees hl ho).bind ?_
    rintro _ b₁ _ ⟨frame, hframe, rfl⟩
    exact ⟨_, _, rfl, .continueLoop hframe, hk, rfl⟩
  | .define span var =>
    rw [lowerStmt]
    exact (lowerDefine_agrees hb ho hk).andThen fun _ _ _ h => ⟨_, _, rfl, h.1, h.2, rfl⟩
  | .assign span target value =>
    rw [lowerStmt, Names.checkStmt]
    refine (lowerExpr_agrees hb ho hk).bind ?_
    intro r b₁ _ hv
    have h₁ := hv.evaluation hb ho
    refine (lowerStore_agrees (h₁.sound hb) h₁.open_last (h₁.keys.trans hk)).bind ?_
    intro last b₂ _ hstore
    have h₂ := hstore.evaluation (h₁.sound hb) h₁.open_last h₁.slot_lt
    exact ⟨_, _, rfl, .assign hv hstore, h₂.keys.trans (h₁.keys.trans hk), rfl⟩
  | .update span op target value ty =>
    rw [lowerStmt, Names.checkStmt_update]
    refine (lowerExpr_agrees hb ho hk).bind ?_
    intro r b₁ _ hv
    have h₁ := hv.evaluation hb ho
    refine (lowerStore_agrees (h₁.sound hb) h₁.open_last (h₁.keys.trans hk)).bind ?_
    intro last b₂ _ hstore
    have h₂ := hstore.evaluation (h₁.sound hb) h₁.open_last h₁.slot_lt
    exact ⟨_, _, rfl, .update hv hstore, h₂.keys.trans (h₁.keys.trans hk), rfl⟩
  | .panic span error =>
    rw [lowerStmt, Names.checkStmt]
    refine (lowerExpr_agrees hb ho hk).bind ?_
    intro r b₁ _ hv
    have h₁ := hv.evaluation hb ho
    exact ⟨_, _, bind_run (terminate_run h₁.open_last), .panic hv, h₁.keys.trans hk, rfl⟩
  | .lock span body =>
    rw [lowerStmt, Names.checkStmt]
    have hr : Region b here b (· = here) := .refl ho
    have hlock := hr.advance (.lock b.nextLabel) span rfl rfl
    have hopen : b.grow.IsOpen here := isOpen_grow.mpr (.inl ho)
    refine .run addBlock_run (.run (terminate_run hopen) ?_)
    refine (lowerBlock_agrees (hlock.sound hb) (hlock.isOpen rfl) hk hl).andThen ?_
    rintro out b₁ keys₁ ⟨hbody, hkeys, hout⟩
    cases out with
    | none => exact ⟨_, _, rfl, .lockLeft hbody, hkeys, hout⟩
    | some last =>
      have h₁ := hbody.region (hlock.sound hb) (hlock.isOpen rfl)
      have hlast : b₁.grow.IsOpen last := isOpen_grow.mpr (.inl (h₁.isOpen rfl))
      refine ⟨_, _, ?_, .lock hbody, hkeys, hout⟩
      exact (bind_run addBlock_run).trans (bind_run (terminate_run hlast))
  | .foreach span var collection body => exact ⟨b, rfl⟩

theorem lowerBlock_agrees {env : Env} {body : Block} {here : Label} {b : Builder} {keys : List Symbol}
    {inLoop : Bool} (hb : b.Sound) (ho : b.IsOpen here) (hk : b.keys = keys)
    (hl : b.loop?.isSome = inLoop) :
    Agrees (lowerBlock env body here) b (env.names.checkBlock inLoop keys body)
      fun out b' keys' =>
        BlockRun env body here b out b' ∧ b'.keys = keys' ∧ out.isNone = body.leaves := by
  match body with
  | .mk stmts span =>
    rw [lowerBlock, Names.checkBlock]
    have hb' : b.enterScope.Sound := (Step.enterScope b).sound hb
    have henter : Build.enterScope b = .ok () b.enterScope := rfl
    refine .run henter ?_
    refine (lowerStmts_agrees (b := b.enterScope) hb' ho hk hl).andThen ?_
    rintro out b₁ keys' ⟨hrun, hkeys, hout⟩
    exact ⟨_, _, rfl, .mk hrun, hkeys, hout⟩

theorem lowerStmts_agrees {env : Env} {stmts : List Stmt} {here : Label} {b : Builder}
    {keys : List Symbol} {inLoop : Bool} (hb : b.Sound) (ho : b.IsOpen here) (hk : b.keys = keys)
    (hl : b.loop?.isSome = inLoop) :
    Agrees (lowerStmts env stmts here) b (env.names.checkStmts inLoop keys stmts)
      fun out b' keys' =>
        StmtsRun env stmts here b out b' ∧ b'.keys = keys' ∧ out.isNone = leavesList stmts := by
  match stmts with
  | [] => exact ⟨_, _, rfl, .nil, hk, rfl⟩
  | s :: stmts =>
    rw [lowerStmts, Names.checkStmts]
    refine (lowerStmt_agrees hb ho hk hl).bind ?_
    rintro out b₁ keys₁ ⟨hrun, hkeys, hout⟩
    have h₁ := hrun.region hb ho
    cases out with
    | none =>
      have hleft : s.leaves = true := hout.symm
      simp only [hleft, if_true]
      exact ⟨_, _, rfl, .leave hrun, hkeys, by simp [leavesList, hleft]⟩
    | some l =>
      have hleft : s.leaves = false := hout.symm
      have hl₁ : b₁.loop?.isSome = inLoop := by rw [Builder.loop?, h₁.loops]; exact hl
      simp only [hleft, leavesList, Bool.false_or]
      exact (lowerStmts_agrees (h₁.sound hb) (h₁.isOpen rfl) hkeys hl₁).imp
        fun _ _ _ h => ⟨.next hrun h.1, h.2⟩

end

end FlowGraph

import FlowGraph.Proofs.Live
import Mathlib.Algebra.GroupWithZero.Nat

/-!
How many calls a graph makes. Each call of the source becomes a block that ends in a call, but an
update evaluates its target twice, to load from it and to store into it: the calls in the target are
made twice.
-/

namespace FlowGraph

open Builder

mutual

def Expr.calls : Expr → Nat
  | .literal _ _ | .var _ _ _ | .wildcard _ => 0
  | .binary _ _ lhs rhs => lhs.calls + rhs.calls
  | .unary _ _ x | .cast _ x _ | .test _ x _ _ | .group _ x | .field _ x _ => x.calls
  | .call _ _ _ args => callsArgs args + 1
  | .index _ container key => container.calls + key.calls
  | .list _ elements _ => callsArgs elements
  | .mapping _ fields => callsFields fields
  | .ternary _ cond whenTrue whenFalse => cond.calls + whenTrue.calls + whenFalse.calls

def Expr.callsArgs : List Expr → Nat
  | [] => 0
  | e :: es => e.calls + callsArgs es

def Expr.callsFields : List (Ident × Expr) → Nat
  | [] => 0
  | (_, e) :: fields => e.calls + callsFields fields

end

mutual

/-- The calls that are written in a statement, but for what comes after a statement that leaves. -/
def Stmt.calls : Stmt → Nat
  | .expr _ e | .ret _ (some e) | .panic _ e => e.calls
  | .block _ body | .lock _ body => body.calls
  | .ifThen _ cond body | .whileLoop _ cond body | .foreach _ _ cond body => cond.calls + body.calls
  | .ifElse _ cond body otherwise => cond.calls + body.calls + otherwise.calls
  | .define _ var => (var.init.map Expr.calls).getD 0
  | .assign _ target value | .update _ _ target value _ => target.calls + value.calls
  | .ret _ none | .breakLoop _ | .continueLoop _ => 0

def Block.calls : Block → Nat
  | .mk stmts _ => Stmt.callsList stmts

def Stmt.callsList : List Stmt → Nat
  | [] => 0
  | s :: stmts => s.calls + if s.leaves then 0 else Stmt.callsList stmts

end

mutual

def Stmt.updateCalls : Stmt → Nat
  | .update _ _ target _ _ => target.calls
  | .block _ body | .lock _ body | .ifThen _ _ body | .whileLoop _ _ body => body.updateCalls
  | .ifElse _ _ body otherwise => body.updateCalls + otherwise.updateCalls
  | _ => 0

def Block.updateCalls : Block → Nat
  | .mk stmts _ => Stmt.updateCallsList stmts

def Stmt.updateCallsList : List Stmt → Nat
  | [] => 0
  | s :: stmts => s.updateCalls + if s.leaves then 0 else Stmt.updateCallsList stmts

end

def Node.calls : Node → Nat
  | .expr e | .store e => e.calls
  | .args es => Expr.callsArgs es
  | .fields fs => Expr.callsFields fs
  | .stmt s => s.calls
  | .block body => body.calls
  | .stmts ss => Stmt.callsList ss

def Node.updateCalls : Node → Nat
  | .stmt s => s.updateCalls
  | .block body => body.updateCalls
  | .stmts ss => Stmt.updateCallsList ss
  | _ => 0

def Node.isCall : Node → Bool
  | .expr (.call _ _ _ _) => true
  | _ => false

theorem Splits.calls {env : Env} {p : Site} {ps : List Site} (h : Splits env p ps)
    (hrun : ps.Forall (·.Run env)) :
    p.node.calls + p.node.updateCalls = p.node.isCall.toNat +
      (ps.map fun q => q.node.calls + q.node.updateCalls).sum := by
  cases h with
  | next =>
    have hleaves := StmtRun.isNone_eq hrun.1
    simp [Site.node, Node.calls, Node.updateCalls, Node.isCall, Stmt.callsList, Stmt.updateCallsList,
      ← hleaves]
    lia
  | leave =>
    have hleaves := StmtRun.isNone_eq hrun
    simp [Site.node, Node.calls, Node.updateCalls, Node.isCall, Stmt.callsList, Stmt.updateCallsList,
      ← hleaves]
  | declare hi | define hi =>
    simp [Site.node, Node.calls, Node.updateCalls, Node.isCall, Stmt.calls, Stmt.updateCalls, hi]
  | _ =>
    simp only [Site.node, Node.calls, Node.updateCalls, Node.isCall, Expr.calls, Expr.callsArgs,
      Expr.callsFields, Stmt.calls, Stmt.updateCalls, Block.calls, Block.updateCalls, Stmt.callsList,
      Stmt.updateCallsList, List.map_cons, List.map_nil, List.sum_cons, List.sum_nil, Bool.toNat_true,
      Bool.toNat_false] <;> lia

def Transfer.isCall : Transfer → Bool
  | .call _ _ _ _ => true
  | _ => false

def BasicBlock.isCall (block : BasicBlock) : Bool := block.terminator.any (·.transfer.isCall)

def callBlocks (blocks : List BasicBlock) : Nat := blocks.countP (·.isCall)

theorem callBlocks_modify {blocks : List BasicBlock} {l : Label} {block : BasicBlock}
    {f : BasicBlock → BasicBlock} (h : blocks[l]? = some block) :
    callBlocks (blocks.modify l f) + block.isCall.toNat = callBlocks blocks + (f block).isCall.toNat := by
  induction blocks generalizing l with
  | nil => simp at h
  | cons x xs ih =>
    cases l with
    | zero =>
      obtain rfl : x = block := by simpa using h
      cases hx : x.isCall <;> cases hf : (f x).isCall <;> simp [callBlocks, hx, hf]
    | succ l =>
      have := ih (by simpa using h)
      simp [callBlocks, List.countP_cons] at this ⊢
      lia

/-- From `b` to `b'` there are `n` more blocks that end in a call. -/
def Adds (n : Nat) (b b' : Builder) : Prop := callBlocks b'.blocks = callBlocks b.blocks + n

namespace Adds

variable {b b₁ b₂ : Builder} {m n : Nat} {l target : Label} {span : Span}

theorem refl (b : Builder) : Adds 0 b b := rfl

theorem trans (h : Adds m b b₁) (h' : Adds n b₁ b₂) : Adds (m + n) b b₂ := by
  rw [Adds] at h h' ⊢
  lia

theorem congr (h : Adds m b b₁) (he : m = n) : Adds n b b₁ := he ▸ h

theorem same (h : Adds n b b₁) (he : b₂.blocks = b₁.blocks) : Adds n b b₂ := by
  rw [Adds, he]
  exact h

theorem grow (h : Adds n b b₁) : Adds n b b₁.grow := by
  rw [Adds] at h ⊢
  simpa [Builder.grow, callBlocks, BasicBlock.empty, BasicBlock.isCall] using h

theorem append (h : Adds n b b₁) {dst : Slot} {op : Operation} (ho : b₁.IsOpen l) :
    Adds n b (b₁.append l dst op span) := by
  obtain ⟨block, hl, -⟩ := ho
  have := callBlocks_modify (f := (·.append ⟨dst, op, b₁.scopes.current, span⟩)) hl
  rw [Adds] at h ⊢
  simp [Builder.append, BasicBlock.isCall] at this ⊢
  lia

theorem compute (h : Adds n b b₁) {ty : Option Ty} {op : Operation} (ho : b₁.IsOpen l) :
    Adds n b (b₁.compute l ty op span) := (h.same rfl : Adds n b (b₁.addTemporary ty)).append ho

theorem close (h : Adds n b b₁) {dst : Option Slot} {t : Transfer} (ho : b₁.IsOpen l) :
    Adds (n + t.isCall.toNat) b (b₁.close l dst t span) := by
  obtain ⟨block, hl, hopen⟩ := ho
  have := callBlocks_modify (f := (·.close ⟨dst, t, b₁.scopes.current, span⟩)) hl
  rw [Adds] at h ⊢
  simp [Builder.close, BasicBlock.isCall, hopen, BasicBlock.close] at this ⊢
  lia

theorem leave (h : Adds n b b₁) {t : Transfer} (ho : b₁.IsOpen l) (ht : t.isCall = false) :
    Adds n b (b₁.close l none t span) := by
  have hclose : Adds (n + t.isCall.toNat) b (b₁.close l none t span) := h.close ho
  rwa [ht] at hclose

theorem advance (h : Adds n b b₁) {t : Transfer} (ho : b₁.IsOpen l) (ht : t.isCall = false) :
    Adds n b (b₁.grow.close l none t span) := h.grow.leave (isOpen_grow.mpr (.inl ho)) ht

theorem split (h : Adds n b b₁) {cond : Slot} (ho : b₁.IsOpen l) :
    Adds n b (b₁.grow.grow.close l none (.branch cond b₁.nextLabel (b₁.nextLabel + 1)) span) :=
  h.grow.advance (isOpen_grow.mpr (.inl ho)) rfl

theorem goto (h : Adds n b b₁) (ho : b₁.IsOpen l) : Adds n b (b₁.close l none (.goto target) span) :=
  h.leave ho rfl

theorem gotoFrom (h : Adds n b b₁) {fin : Option Label} (hopen : ∀ l, fin = some l → b₁.IsOpen l) :
    Adds n b (b₁.gotoFrom fin target span) := by
  cases fin with
  | none => exact h
  | some l => exact h.goto (hopen l rfl)

end Adds

theorem Splits.adds {env : Env} {N : Site → Nat} {p : Site} {ps : List Site} (h : Splits env p ps)
    (hp : p.Ready) (hparts : ps.Forall fun q => (q.Run env ∧ q.Ready) ∧ Adds (N q) q.first q.last) :
    Adds (p.node.isCall.toNat + (ps.map N).sum) p.first p.last := by
  obtain ⟨hb, ho, -⟩ := hp
  have hr := Adds.refl p.first
  cases h with
  | literal | constant | storeWildcard => exact hr.compute ho
  | «variable» | argsNil | fieldsNil | nil => exact hr
  | wildcard | declare => exact hr.same rfl
  | storeVariable => exact hr.append ho
  | binary | index =>
    obtain ⟨⟨-, h₁⟩, ⟨hrun, hq⟩, h₂⟩ := hparts
    exact ((h₁.trans h₂).compute ((hrun.region hq).isOpen rfl)).congr (by simp [Site.node, Node.isCall])
  | unary | cast | test | mapping =>
    obtain ⟨⟨hrun, hq⟩, h₁⟩ := hparts
    exact (h₁.compute ((hrun.region hq).isOpen rfl)).congr (by simp [Site.node, Node.isCall])
  | call =>
    obtain ⟨⟨hrun, hq⟩, h₁⟩ := hparts
    have hopen := isOpen_grow.mpr (.inl ((hrun.region hq).isOpen rfl))
    refine ((h₁.grow.same rfl).close hopen).congr ?_
    simp [Site.node, Node.isCall, Transfer.isCall, Nat.add_comm]
  | list | field =>
    obtain ⟨⟨hrun, hq⟩, h₁⟩ := hparts
    have hopen := (hrun.region hq).isOpen rfl
    exact ((h₁.compute hopen).compute (isOpen_append.mpr hopen)).congr (by simp [Site.node, Node.isCall])
  | group | expr | block | leave => exact hparts.2.congr (by simp [Site.node, Node.isCall])
  | @ternary note cond whenTrue whenFalse _ b c b₁ x b₂ y b₃ =>
    obtain ⟨⟨⟨hc, -⟩, h₁⟩, ⟨⟨hx, hqx⟩, h₂⟩, ⟨hy, hqy⟩, h₃⟩ := hparts
    have e₁ := ExprRun.evaluation hc hb ho
    have e₂ := ExprRun.evaluation hx hqx.sound hqx.isOpen
    have e₃ := ExprRun.evaluation hy hqy.sound hqy.isOpen
    obtain ⟨hleft, hright⟩ := e₂.arms_open whenFalse.span e₃
    have hfork : Adds _ b (b₁.fork c note) := (h₁.same rfl).split e₁.open_last
    have harms : Adds _ b (b₃.append y.block b₁.nextSlot (.move y.slot) whenFalse.span) :=
      (((hfork.trans h₂).append e₂.open_last).trans h₃).append e₃.open_last
    refine ((harms.advance hleft rfl).goto ?_).congr (by simp [Site.node, Node.isCall, Nat.add_assoc])
    simp [hright, (e₂.arms_ne e₃).1]
  | argsCons | next | assign | update =>
    obtain ⟨⟨-, h₁⟩, -, h₂⟩ := hparts
    exact (h₁.trans h₂).congr (by simp [Site.node, Node.isCall])
  | fieldsCons =>
    obtain ⟨⟨-, h₁⟩, -, h₂⟩ := hparts
    exact (((hr.compute ho).trans h₁).trans h₂).congr (by simp [Site.node, Node.isCall])
  | storeIndex =>
    obtain ⟨⟨-, h₁⟩, ⟨hrun, hq⟩, h₂⟩ := hparts
    exact ((h₁.trans h₂).append ((hrun.region hq).isOpen rfl)).congr (by simp [Site.node, Node.isCall])
  | storeField =>
    obtain ⟨⟨hrun, hq⟩, h₁⟩ := hparts
    have hopen := (hrun.region hq).isOpen rfl
    exact ((h₁.compute hopen).append (isOpen_append.mpr hopen)).congr (by simp [Site.node, Node.isCall])
  | @ifThen span _ _ _ b c b₁ _ b₂ =>
    obtain ⟨⟨⟨hc, -⟩, h₁⟩, ⟨hbody, hq⟩, h₂⟩ := hparts
    have e₁ := ExprRun.evaluation hc hb ho
    have r₂ := BlockRun.region hbody hq.sound hq.isOpen
    have hthen : Adds _ b (b₂.grow.close c.block none (.branch c.slot b₁.nextLabel b₂.nextLabel) span) :=
      (h₁.grow.trans h₂).advance (e₁.cond_open r₂) rfl
    refine (hthen.gotoFrom fun l hl => (e₁.thenDone span r₂).isOpen (.inl hl)).congr ?_
    simp [Site.node, Node.isCall]
  | @ifElse span _ _ _ _ b c b₁ _ b₂ =>
    obtain ⟨⟨⟨hc, -⟩, h₁⟩, ⟨⟨hbody, hq⟩, h₂⟩, ⟨helse, hq'⟩, h₃⟩ := hparts
    have e₁ := ExprRun.evaluation hc hb ho
    have r₂ := BlockRun.region hbody hq.sound hq.isOpen
    have r₃ := StmtRun.region helse hq'.sound hq'.isOpen
    have hthen : Adds _ b (b₂.grow.close c.block none (.branch c.slot b₁.nextLabel b₂.nextLabel) span) :=
      (h₁.grow.trans h₂).advance (e₁.cond_open r₂) rfl
    refine (((hthen.trans h₃).grow.gotoFrom fun l hl => isOpen_grow.mpr (.inl (r₃.isOpen hl))).gotoFrom
      fun l hl => (e₁.elseDone r₂ r₃).isOpen (.inl hl)).congr ?_
    simp [Site.node, Node.isCall, Nat.add_assoc]
  | @whileLoop span _ _ _ b c b₁ =>
    obtain ⟨⟨⟨hc, hqc⟩, h₁⟩, ⟨hbody, hq⟩, h₂⟩ := hparts
    have e₁ := ExprRun.evaluation hc hqc.sound hqc.isOpen
    have r₂ := BlockRun.region hbody hq.sound hq.isOpen
    have henter : Adds _ b (b₁.enterLoop b.nextLabel c span) :=
      ((hr.advance ho rfl).trans h₁).split e₁.open_last
    exact ((henter.trans h₂).gotoFrom fun l hl => r₂.isOpen hl).congr (by simp [Site.node, Node.isCall])
  | ret | breakLoop | continueLoop => exact hr.leave ho rfl
  | retValue =>
    obtain ⟨⟨hrun, hq⟩, h₁⟩ := hparts
    have hopen := (hrun.region hq).isOpen rfl
    exact ((h₁.append hopen).leave (isOpen_append.mpr hopen) rfl).congr (by simp [Site.node, Node.isCall])
  | define =>
    obtain ⟨⟨hrun, hq⟩, h₁⟩ := hparts
    exact ((h₁.same rfl).append ((hrun.region hq).isOpen rfl)).congr (by simp [Site.node, Node.isCall])
  | panic =>
    obtain ⟨⟨hrun, hq⟩, h₁⟩ := hparts
    exact (h₁.leave ((hrun.region hq).isOpen rfl) rfl).congr (by simp [Site.node, Node.isCall])
  | lockLeft => exact ((hr.advance ho rfl).trans hparts.2).congr (by simp [Site.node, Node.isCall])
  | lock =>
    obtain ⟨⟨hrun, hq⟩, h₁⟩ := hparts
    have hbody := (hr.advance ho rfl).trans h₁
    exact (hbody.advance ((hrun.region hq).isOpen rfl) rfl).congr (by simp [Site.node, Node.isCall])
  | scope => exact (((hr.same rfl).trans hparts.2).same rfl).congr (by simp [Site.node, Node.isCall])

theorem Site.Run.adds {env : Env} {p : Site} (h : p.Run env) :
    p.Ready → Adds (p.node.calls + p.node.updateCalls) p.first p.last := by
  refine Site.Run.induct ?_ h
  intro p ps hsplits hparts hp
  rw [List.forall_iff_forall_mem] at hparts
  have hruns : ps.Forall (·.Run env) := List.forall_iff_forall_mem.mpr fun q hq => (hparts q hq).1
  have hready := List.forall_iff_forall_mem.mp (hsplits.context hruns ⟨hp, (Frame.refl _).sealed⟩)
  rw [hsplits.calls hruns]
  refine hsplits.adds hp (List.forall_iff_forall_mem.mpr fun q hq => ?_)
  exact ⟨⟨(hparts q hq).1, (hready q hq).toReady⟩, (hparts q hq).2 (hready q hq).toReady⟩

theorem Root.adds {env : Env} {body : Body} {b bf : Builder} {p : Site} (h : Root body b bf p)
    (hrun : p.Run env) (hb : b.Sound) : Adds (p.node.calls + p.node.updateCalls) b bf := by
  have hp := (h.context hrun hb).toReady
  have hstart : Adds (p.node.calls + p.node.updateCalls) b p.last := by
    have hgrow : Adds 0 b p.first := by cases h <;> exact (Adds.refl b).grow
    simpa using hgrow.trans (hrun.adds hp)
  have hopen := fun l (hl : p.out = some l) => (hrun.region hp).isOpen hl
  cases h with
  | leaves => exact hstart
  | fallsOff => exact hstart.leave (hopen _ rfl) rfl
  | expr => exact (hstart.append (hopen _ rfl)).leave (isOpen_append.mpr (hopen _ rfl)) rfl

def FunctionDef.calls (f : FunctionDef) : Nat := (f.body.node?.map Node.calls).getD 0

def FunctionDef.updateCalls (f : FunctionDef) : Nat := (f.body.node?.map Node.updateCalls).getD 0

def Graph.calls (g : Graph) : Nat := callBlocks g.blocks

theorem FunctionRun.calls {env : Env} {stem : String} {f : FunctionDef} {g : Graph}
    (h : FunctionRun env stem f g) : g.calls = f.calls + f.updateCalls := by
  obtain ⟨b, hbody, rfl⟩ := h
  obtain ⟨root, hroot, hrun⟩ := hbody.root
  have hadds : Adds _ _ b := hroot.adds hrun (env.enter_sound stem f)
  rw [Adds, env.enter_blocks] at hadds
  simpa [Graph.calls, FunctionDef.calls, FunctionDef.updateCalls, hroot.node, callBlocks, Builder.graph]
    using hadds

section Updates

variable {env : Env} {p : Site} {ps : List Site}

def Node.targetCalls : Node → Nat
  | .stmt (.update _ _ target _ _) => target.calls
  | _ => 0

theorem Splits.updateCalls (h : Splits env p ps) (hrun : ps.Forall (·.Run env)) :
    p.node.updateCalls = p.node.targetCalls + (ps.map (·.node.updateCalls)).sum := by
  cases h with
  | next =>
    have hleaves := StmtRun.isNone_eq hrun.1
    simp [Site.node, Node.updateCalls, Node.targetCalls, Stmt.updateCallsList, ← hleaves]
  | leave =>
    have hleaves := StmtRun.isNone_eq hrun
    simp [Site.node, Node.updateCalls, Node.targetCalls, Stmt.updateCallsList, ← hleaves]
  | _ =>
    simp [Site.node, Node.updateCalls, Node.targetCalls, Stmt.updateCalls, Block.updateCalls,
      Stmt.updateCallsList]

theorem Site.Run.updateCalls_eq_zero_iff (h : p.Run env) :
    p.node.updateCalls = 0 ↔ ∀ n, p.node.Within n → n.targetCalls = 0 := by
  refine Site.Run.induct (fun p ps hsplits hparts => ?_) h
  have hruns : ps.Forall (·.Run env) := hparts.imp fun _ => And.left
  have hall := List.forall_iff_forall_mem.mp hparts
  rw [hsplits.updateCalls hruns, Nat.add_eq_zero_iff, List.sum_eq_zero_iff_forall_eq_nat]
  constructor
  · rintro ⟨hown, hsum⟩ n hn
    rcases hn.cases_head with rfl | ⟨m, hm, hn⟩
    · exact hown
    · rw [← hsplits.nodes hruns] at hm
      obtain ⟨q, hq, rfl⟩ := List.mem_map.mp hm
      exact (hall q hq).2.mp (hsum _ (List.mem_map_of_mem hq)) n hn
  · intro hwithin
    refine ⟨hwithin _ .refl, fun k hk => ?_⟩
    obtain ⟨q, hq, rfl⟩ := List.mem_map.mp hk
    refine (hall q hq).2.mpr fun n hn => hwithin n (.head ?_ hn)
    rw [← hsplits.nodes hruns]
    exact List.mem_map_of_mem hq

end Updates

theorem FunctionRun.updateCalls_eq_zero_iff {env : Env} {stem : String} {f : FunctionDef} {g : Graph}
    (h : FunctionRun env stem f g) : f.updateCalls = 0 ↔ ∀ n, f.Live n → n.targetCalls = 0 := by
  obtain ⟨b, hbody, rfl⟩ := h
  obtain ⟨root, hroot, hrun⟩ := hbody.root
  simpa [FunctionDef.updateCalls, FunctionDef.Live, hroot.node] using hrun.updateCalls_eq_zero_iff

/-- A graph makes the calls that are written in the live code, and once more those in the targets of
its updates; so each call is made once exactly if no live update has a call in its target. -/
theorem lowerFunction_calls {env : Env} {stem : String} {f : FunctionDef} {g : Graph} {b : Builder}
    (h : lowerFunction env f { stem := stem } = .ok g b) :
    g.calls = f.calls + f.updateCalls ∧
    (g.calls = f.calls ↔ ∀ span op target value ty,
      f.Live (.stmt (.update span op target value ty)) → target.calls = 0) := by
  have hrun := lowerFunction_run h
  have hcalls := hrun.calls
  refine ⟨hcalls, ?_⟩
  have hzero : g.calls = f.calls ↔ f.updateCalls = 0 := by lia
  rw [hzero, hrun.updateCalls_eq_zero_iff]
  constructor
  · intro hall span op target value ty hlive
    exact hall _ hlive
  · intro hall n hn
    unfold Node.targetCalls
    split
    · exact hall _ _ _ _ _ hn
    · rfl

def callingOnce : FunctionDef where
  name := ⟨"f", {}⟩
  params := [⟨⟨"a", {}⟩, ⟨0, 0⟩, none, {}⟩]
  body := .block (.mk [
    .update {} .add (.var {} ⟨"a", {}⟩ ⟨0, 0⟩) (.call {} none ⟨"g", {}⟩ [.call {} none ⟨"h", {}⟩ []]) none,
    .assign {} (.index {} (.var {} ⟨"a", {}⟩ ⟨0, 0⟩) (.call {} none ⟨"g", {}⟩ []))
      (.call {} none ⟨"h", {}⟩ []),
    .ret {} none, .expr {} (.call {} none ⟨"g", {}⟩ [])] {})

theorem callingOnce_calls : ∃ g b,
    lowerFunction ⟨.anonymous, id, [], []⟩ callingOnce { stem := "bb" } = .ok g b ∧
    callingOnce.calls = 4 ∧ g.calls = 4 ∧
    ∀ span op target value ty,
      callingOnce.Live (.stmt (.update span op target value ty)) → target.calls = 0 := by
  have hlowers : Env.lowersTo ⟨.anonymous, id, [], []⟩ "bb" callingOnce (fun _ => true) = true := by
    decide +kernel
  obtain ⟨g, b, hg, -⟩ := Env.exists_of_lowersTo hlowers
  obtain ⟨hcalls, hiff⟩ := lowerFunction_calls hg
  have hfour : g.calls = 4 := hcalls.trans rfl
  exact ⟨g, b, hg, rfl, hfour, hiff.mp hfour⟩

def countingUp : FunctionDef where
  name := ⟨"f", {}⟩
  params := [⟨⟨"a", {}⟩, ⟨0, 0⟩, none, {}⟩]
  body := .block (.mk [.update {} .add (.index {} (.var {} ⟨"a", {}⟩ ⟨0, 0⟩) (.call {} none ⟨"g", {}⟩ []))
    (.literal ⟨some .int, {}⟩ (.int 1)) none] {})

theorem countingUp_calls : ∃ g b,
    lowerFunction ⟨.anonymous, id, [], []⟩ countingUp { stem := "bb" } = .ok g b ∧
    countingUp.calls = 1 ∧ g.calls = 2 := by
  have hlowers : Env.lowersTo ⟨.anonymous, id, [], []⟩ "bb" countingUp (fun g => g.calls = 2) = true := by
    decide +kernel
  obtain ⟨g, b, hg, htwo⟩ := Env.exists_of_lowersTo hlowers
  exact ⟨g, b, hg, rfl, of_decide_eq_true htwo⟩

end FlowGraph

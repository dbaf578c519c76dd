import FlowGraph.Proofs.Merge
import Mathlib.Algebra.GroupWithZero.Nat
import Mathlib.Data.Nat.Count

/-!
Which blocks are entered. A block that is added by the way is entered from one before it, but for the
block behind a choice whose branches both leave: nothing leads there. So these are the blocks without
predecessors, and if there is none of them then all blocks are reached from the first one.
-/

namespace FlowGraph

open Builder

/-- Do both branches leave, so that nothing goes on behind the statement? -/
def Stmt.isDeadEnd : Stmt → Bool
  | .ifElse _ _ body otherwise => body.leaves && otherwise.leaves
  | _ => false

def Entered (blocks : List BasicBlock) (m : Label) : Prop :=
  ∃ l t, l < m ∧ transferAt blocks l = some t ∧ m ∈ t.successors

theorem Entered.intro {blocks : List BasicBlock} {l m : Label} {t : Transfer}
    (ht : transferAt blocks l = some t) (hlt : l < m) (hm : m ∈ t.successors) : Entered blocks m :=
  ⟨l, t, hlt, ht, hm⟩

namespace Site.Settled

variable {env : Env} {bf b b₁ b₂ b₃ : Builder} {here last : Label} {note : Note} {span : Span}
  {cond whenTrue whenFalse : Expr} {body : Block} {otherwise : Stmt} {c x y : Placed}

theorem call_entered {qualifier : Option Ident} {name : Ident} {args : List Expr} {callee : Callee}
    {slots : List Slot}
    (h : Settled env bf (.expr (.call note qualifier name args) here b ⟨b₁.nextSlot, b₁.nextLabel⟩
      (b₁.call last note slots callee)))
    (hargs : Settled env bf (.args args here b slots last b₁)) : Entered bf.blocks b₁.nextLabel := by
  have hlt : last < b₁.nextLabel := hargs.out_lt rfl
  refine .intro (h.sealed.grows.transferAt (transferAt_close_self ?_)) hlt List.mem_cons_self
  simp
  lia

theorem ternary_entered
    (h : Settled env bf (.expr (.ternary note cond whenTrue whenFalse) here b ⟨b₁.nextSlot, b₃.nextLabel⟩
      ((b₃.append y.block b₁.nextSlot (.move y.slot) whenFalse.span).join x.block y.block note.span)))
    (hc : Settled env bf (.expr cond here b c b₁))
    (hx : Settled env bf (.expr whenTrue b₁.nextLabel (b₁.fork c note) x b₂))
    (hy : Settled env bf (.expr whenFalse (b₁.nextLabel + 1)
      (b₂.append x.block b₁.nextSlot (.move x.slot) whenTrue.span) y b₃)) :
    Entered bf.blocks b₁.nextLabel ∧ Entered bf.blocks (b₁.nextLabel + 1) ∧
      Entered bf.blocks b₃.nextLabel := by
  have hclt : c.block < b₁.nextLabel := hc.out_lt rfl
  have hylt : y.block < b₃.nextLabel := hy.out_lt rfl
  obtain ⟨hbranch, -, hright⟩ := h.ternary hc hx hy
  refine ⟨.intro hbranch hclt ?_, .intro hbranch (Nat.lt_succ_of_lt hclt) ?_, .intro hright hylt ?_⟩
  all_goals simp [Transfer.successors]

theorem ifThen_entered {thenEnd : Option Label}
    (h : Settled env bf (.stmt (.ifThen span cond body) here b (some b₂.nextLabel)
      ((b₂.grow.close c.block none (.branch c.slot b₁.nextLabel b₂.nextLabel) span).gotoFrom thenEnd
        b₂.nextLabel span)))
    (hc : Settled env bf (.expr cond here b c b₁))
    (hbody : Settled env bf (.block body b₁.nextLabel b₁.grow thenEnd b₂)) :
    Entered bf.blocks b₁.nextLabel ∧ Entered bf.blocks b₂.nextLabel := by
  have hclt : c.block < b₁.nextLabel := hc.out_lt rfl
  have hle : b₁.grow.nextLabel ≤ b₂.nextLabel := hbody.run.keeps.nextLabel_le
  simp at hle
  obtain ⟨hbranch, -⟩ := h.ifThen hc hbody
  refine ⟨.intro hbranch hclt ?_, .intro hbranch (by lia) ?_⟩
  all_goals simp [Transfer.successors]

theorem ifElse_entered {thenEnd elseEnd : Option Label}
    (h : Settled env bf (.stmt (.ifElse span cond body otherwise) here b (some b₃.nextLabel)
      ((b₃.grow.gotoFrom elseEnd b₃.nextLabel span).gotoFrom thenEnd b₃.nextLabel span)))
    (hc : Settled env bf (.expr cond here b c b₁))
    (hbody : Settled env bf (.block body b₁.nextLabel b₁.grow thenEnd b₂))
    (helse : Settled env bf (.stmt otherwise b₂.nextLabel
      (b₂.grow.close c.block none (.branch c.slot b₁.nextLabel b₂.nextLabel) span) elseEnd b₃)) :
    Entered bf.blocks b₁.nextLabel ∧ Entered bf.blocks b₂.nextLabel ∧
      ∀ l, thenEnd = some l ∨ elseEnd = some l → Entered bf.blocks b₃.nextLabel := by
  have hclt : c.block < b₁.nextLabel := hc.out_lt rfl
  have hle : b₁.grow.nextLabel ≤ b₂.nextLabel := hbody.run.keeps.nextLabel_le
  have hle' : b₂.grow.nextLabel ≤ b₃.nextLabel := by
    simpa [Site.first, Site.last] using helse.run.keeps.nextLabel_le
  simp at hle hle'
  obtain ⟨hbranch, hthen, helse'⟩ := h.ifElse hc hbody helse
  refine ⟨.intro hbranch hclt ?_, .intro hbranch (by lia) ?_, ?_⟩
  · simp [Transfer.successors]
  · simp [Transfer.successors]
  · rintro l (hl | hl)
    · have hlt : l < b₂.nextLabel := hbody.out_lt hl
      exact .intro (hthen l hl) (by lia) List.mem_cons_self
    · have hlt : l < b₃.nextLabel := helse.out_lt hl
      exact .intro (helse' l hl) hlt List.mem_cons_self

theorem whileLoop_entered {bodyEnd : Option Label}
    (h : Settled env bf (.stmt (.whileLoop span cond body) here b (some (b₁.nextLabel + 1))
      (b₂.gotoFrom bodyEnd b.nextLabel span).dropLoop))
    (hc : Settled env bf (.expr cond b.nextLabel (b.grow.close here none (.goto b.nextLabel) span) c b₁))
    (hbody : Settled env bf (.block body b₁.nextLabel (b₁.enterLoop b.nextLabel c span) bodyEnd b₂)) :
    Entered bf.blocks b.nextLabel ∧ Entered bf.blocks b₁.nextLabel ∧
      Entered bf.blocks (b₁.nextLabel + 1) := by
  have hclt : c.block < b₁.nextLabel := hc.out_lt rfl
  obtain ⟨hentry, hbranch, -⟩ := (Loops.mk .whileLoop hc.run hbody.run).closed h
  refine ⟨.intro hentry h.isOpen.lt ?_, .intro hbranch hclt ?_, .intro hbranch (Nat.lt_succ_of_lt hclt) ?_⟩
  all_goals simp [Transfer.successors]

theorem lock_entered {out : Option Label} {b' : Builder}
    (h : Settled env bf (.stmt (.lock span body) here b out b')) {fin : Option Label}
    (hbody : Settled env bf (.block body b.nextLabel (b.grow.close here none (.lock b.nextLabel) span) fin
      b₁)) : Entered bf.blocks b.nextLabel := by
  have hlt : here < b.nextLabel := h.isOpen.lt
  refine .intro (hbody.grows.transferAt (transferAt_close_self ?_)) hlt List.mem_cons_self
  simp
  lia

theorem unlock_entered {start : Label}
    (h : Settled env bf (.stmt (.lock span body) here b (some b₁.nextLabel)
      (b₁.grow.close last none (.unlock b₁.nextLabel) span)))
    (hbody : Settled env bf (.block body start b₂ (some last) b₁)) : Entered bf.blocks b₁.nextLabel := by
  have hlt : last < b₁.nextLabel := hbody.out_lt rfl
  refine .intro (h.sealed.grows.transferAt (transferAt_close_self ?_)) hlt List.mem_cons_self
  simp
  lia

theorem ifElse_unentered {l : Label} {t : Transfer}
    (h : Settled env bf (.stmt (.ifElse span cond body otherwise) here b (some b₃.nextLabel)
      ((b₃.grow.gotoFrom none b₃.nextLabel span).gotoFrom none b₃.nextLabel span)))
    (hc : Settled env bf (.expr cond here b c b₁))
    (hbody : Settled env bf (.block body b₁.nextLabel b₁.grow none b₂))
    (helse : Settled env bf (.stmt otherwise b₂.nextLabel
      (b₂.grow.close c.block none (.branch c.slot b₁.nextLabel b₂.nextLabel) span) none b₃))
    (ht : transferAt bf.blocks l = some t) : b₃.nextLabel ∉ t.successors := by
  intro hm
  have hmerges : Merges env _ c [_, _] b₃.nextLabel :=
    ⟨rfl, ⟨_, _, _, _, .ifElse, hc.run, hbody.run, helse.run⟩, rfl⟩
  simpa [Site.out] using hmerges.origin h ht hm

end Site.Settled

/-- `R` tells the blocks that nothing leads to from those that are entered from before. -/
structure Roots (bf : Builder) (R : Label → Prop) : Prop where
  root : ∀ m < bf.nextLabel, (∀ l t, transferAt bf.blocks l = some t → m ∉ t.successors) → R m
  not_root : ∀ m, Entered bf.blocks m → ¬ R m

def Counts (R : Label → Prop) [DecidablePred R] (n : Nat) (b b' : Builder) : Prop :=
  Nat.count R b'.nextLabel = Nat.count R b.nextLabel + n

namespace Counts

variable {bf b b₁ b₂ : Builder} {R : Label → Prop} [DecidablePred R] {m n : Nat}

theorem trans (h : Counts R m b b₁) (h' : Counts R n b₁ b₂) : Counts R (m + n) b b₂ := by
  rw [Counts] at h h' ⊢
  lia

theorem same (h : Counts R n b b₁) (he : b₂.nextLabel = b₁.nextLabel) : Counts R n b b₂ := by
  rw [Counts, he]
  exact h

theorem one (h : Counts R n b b₁) (hR : Roots bf R) (he : b₂.nextLabel = b₁.nextLabel + 1)
    (hm : Entered bf.blocks b₁.nextLabel) : Counts R n b b₂ := by
  rw [Counts, he, Nat.count_succ, if_neg (hR.not_root _ hm)]
  exact h

theorem two (h : Counts R n b b₁) (hR : Roots bf R) (he : b₂.nextLabel = b₁.nextLabel + 2)
    (hm : Entered bf.blocks b₁.nextLabel) (hm' : Entered bf.blocks (b₁.nextLabel + 1)) :
    Counts R n b b₂ := by
  rw [Counts, he, Nat.count_succ, if_neg (hR.not_root _ hm'), Nat.count_succ, if_neg (hR.not_root _ hm)]
  exact h

theorem after (h : Counts R n b₁ b₂) (hR : Roots bf R) (he : b₁.nextLabel = b.nextLabel + 1)
    (hm : Entered bf.blocks b.nextLabel) : Counts R n b b₂ := by
  rw [Counts, he, Nat.count_succ, if_neg (hR.not_root _ hm)] at h
  exact h

theorem root (h : Counts R n b b₁) (hR : Roots bf R) (he : b₂.nextLabel = b₁.nextLabel + 1)
    (hlt : b₁.nextLabel < bf.nextLabel)
    (hm : ∀ l t, transferAt bf.blocks l = some t → b₁.nextLabel ∉ t.successors) :
    Counts R (n + 1) b b₂ := by
  rw [Counts, he, Nat.count_succ, if_pos (hR.root _ hlt hm), h, Nat.add_assoc]

end Counts

def Node.deadEnd (n : Node) : Nat := n.stmt?.toList.countP (·.isDeadEnd)

section Counting

variable {env : Env} {bf : Builder} {R : Label → Prop} [DecidablePred R] {p : Site} {ps : List Site}

theorem Splits.counts {N : Site → Nat} (h : Splits env p ps) (hR : Roots bf R) (hp : p.Settled env bf)
    (hparts : ps.Forall fun q => q.Settled env bf ∧ Counts R (N q) q.first q.last) :
    Counts R ((ps.map N).sum + p.node.deadEnd) p.first p.last := by
  cases h with
  | call =>
    obtain ⟨hargs, h₁⟩ := hparts
    exact (h₁.one hR (by simp [Site.last, Builder.call]) (hp.call_entered hargs))
  | @ternary note _ _ _ _ b c b₁ =>
    obtain ⟨⟨hc, h₁⟩, ⟨hx, h₂⟩, hy, h₃⟩ := hparts
    obtain ⟨hleft, hright, hmerge⟩ := hp.ternary_entered hc hx hy
    exact (h₁.two hR (by simp [Site.first, Site.last, Builder.fork]) hleft hright).trans
      ((h₂.same (by simp [Site.first, Site.last])).trans
        (h₃.one hR (by simp [Site.last, Builder.join]) hmerge))
  | ifThen =>
    obtain ⟨⟨hc, h₁⟩, hbody, h₂⟩ := hparts
    obtain ⟨hleft, hmerge⟩ := hp.ifThen_entered hc hbody
    exact (h₁.one hR (by simp [Site.first, Site.last]) hleft).trans
      (h₂.one hR (by simp [Site.last, nextLabel_gotoFrom]) hmerge)
  | @ifElse span cond body otherwise _ b _ _ thenEnd _ elseEnd b₃ =>
    obtain ⟨⟨hc, h₁⟩, ⟨hbody, h₂⟩, helse, h₃⟩ := hparts
    obtain ⟨hleft, hright, hmerge⟩ := hp.ifElse_entered hc hbody helse
    have harms := (h₁.one hR (by simp [Site.first, Site.last]) hleft).trans
      ((h₂.one hR (by simp [Site.first, Site.last]) hright).trans h₃)
    have hown : Node.deadEnd (.stmt (.ifElse span cond body otherwise)) =
        (thenEnd.isNone && elseEnd.isNone).toNat := by
      rw [BlockRun.isNone_eq hbody.run, StmtRun.isNone_eq helse.run]
      cases hends : body.leaves && otherwise.leaves <;>
        simp [Node.deadEnd, Node.stmt?, Stmt.isDeadEnd, hends]
    have hnext : ((b₃.grow.gotoFrom elseEnd b₃.nextLabel span).gotoFrom thenEnd b₃.nextLabel
        span).nextLabel = b₃.nextLabel + 1 := by
      simp [nextLabel_gotoFrom]
    rw [Site.node, hown]
    cases thenEnd with
    | some l => exact harms.one hR hnext (hmerge l (.inl rfl))
    | none =>
      cases elseEnd with
      | some l => exact harms.one hR hnext (hmerge l (.inr rfl))
      | none =>
        have hlt := Nat.lt_of_lt_of_le (hp.out_lt rfl) hp.sealed.grows.nextLabel_le
        exact harms.root hR hnext hlt fun l t => hp.ifElse_unentered hc hbody helse
  | whileLoop =>
    obtain ⟨⟨hc, h₁⟩, hbody, h₂⟩ := hparts
    obtain ⟨hhead, hstart, hexit⟩ := hp.whileLoop_entered hc hbody
    exact ((h₁.after hR (by simp [Site.first]) hhead).two hR
      (by simp [Site.first, Site.last, Builder.enterLoop]) hstart hexit).trans
        (h₂.same (by simp [Site.last, nextLabel_gotoFrom]))
  | lockLeft =>
    obtain ⟨hbody, h₁⟩ := hparts
    exact h₁.after hR (by simp [Site.first]) (hp.lock_entered hbody)
  | lock =>
    obtain ⟨hbody, h₁⟩ := hparts
    exact (h₁.after hR (by simp [Site.first]) (hp.lock_entered hbody)).one hR (by simp [Site.last])
      (hp.unlock_entered hbody)
  | _ =>
    simp [Counts, Site.first, Site.last, Site.node, Node.deadEnd, Node.stmt?, Stmt.isDeadEnd,
      Builder.compute, Builder.load, Builder.loadName, Builder.result] at hparts ⊢ <;>
    lia

theorem Site.Run.counts (h : p.Run env) (hR : Roots bf R) :
    p.Settled env bf → Counts R (p.node.statements.countP (·.isDeadEnd)) p.first p.last := by
  refine Site.Run.induct (fun p ps hsplits hparts hp => ?_) h
  have hruns : ps.Forall (·.Run env) := hparts.imp fun _ => And.left
  rw [List.forall_iff_forall_mem] at hparts
  rw [hsplits.statements hruns, List.countP_append, List.countP_flatMap, Nat.add_comm]
  refine hsplits.counts hR hp (List.forall_iff_forall_mem.mpr fun q hq => ?_)
  have hq' : q.Settled env bf := Child.settled ⟨ps, hsplits, hruns, hq⟩ hp
  exact ⟨hq', (hparts q hq).2 hq'⟩

end Counting

theorem Root.nextLabel_last {body : Body} {b bf : Builder} {p : Site} (h : Root body b bf p) :
    bf.nextLabel = p.last.nextLabel := by
  cases h <;> simp [Site.last, Builder.result]

section Entry

variable {env : Env} {stem : String} {f : FunctionDef} {g : Graph}

theorem FunctionRun.zero_notMem (h : FunctionRun env stem f g) {l : Label} {t : Transfer}
    (ht : transferAt g.blocks l = some t) : 0 ∉ t.successors := by
  intro hm
  obtain ⟨b, hbody, rfl⟩ := h
  obtain ⟨root, hroot, hrun⟩ := hbody.root
  have hfirst := hroot.transferAt_first (env.enter_blocks stem f) l
  rcases hroot.origin ht with hlast | rfl
  · rcases hrun.targets hlast (by simp [hfirst]) hm with hle | ⟨r, hnear, -, hjump⟩
    · simp [hroot.first_eq] at hle
    · obtain ⟨frame, hframe, -⟩ := Site.frame_of_jump? hjump
      have hloop : r.first.loop? = none := by
        rw [Builder.loop?, hnear.loops, hroot.first_eq]
        exact env.enter_loop? stem f
      cases hloop.symm.trans hframe
  · cases hm

theorem BodyRun.counts {b : Builder} (h : BodyRun env f.body (env.enter stem f) b) (R : Label → Prop)
    [DecidablePred R] (hR : Roots b R) :
    Nat.count R b.nextLabel = Nat.count R 1 + f.statements.countP (·.isDeadEnd) := by
  obtain ⟨root, hroot, hrun⟩ := h.root
  have hcounts := hrun.counts hR (hroot.settled hrun (env.enter_sound stem f))
  have hfirst : root.first.nextLabel = 1 := by
    rw [hroot.first_eq, nextLabel_grow, nextLabel, env.enter_blocks, List.length_nil]
  rw [Counts, ← hroot.nextLabel_last, hfirst] at hcounts
  simpa [FunctionDef.statements, hroot.node] using hcounts

theorem Graph.WellFormed.origins_eq_nil_iff (h : g.WellFormed) {m : Label} (hm : m < g.blocks.length) :
    g.origins m = [] ↔ ∀ l t, transferAt g.blocks l = some t → m ∉ t.successors := by
  obtain ⟨ls, hls, hmem⟩ := h.predecessors hm
  obtain rfl : g.origins m = ls := by simpa [Graph.predecessors_eq, hm] using hls
  simp only [List.eq_nil_iff_forall_not_mem, hmem, not_exists, not_and]

theorem FunctionRun.roots {b : Builder} (h : FunctionRun env stem f (b.graph env f)) :
    Roots b fun m => (b.graph env f).origins m = [] where
  root m hm hnone := (h.wellFormed.origins_eq_nil_iff hm).mpr hnone
  not_root m hentered hnil := by
    obtain ⟨l, t, -, ht, hmem⟩ := hentered
    have hm := h.wellFormed.lt_of_transferAt ht hmem
    exact (h.wellFormed.origins_eq_nil_iff hm).mp hnil l t ht hmem

theorem BodyRun.entered {b : Builder} (h : BodyRun env f.body (env.enter stem f) b)
    (hends : f.statements.countP (·.isDeadEnd) = 0) {m : Label} (hm : m < b.nextLabel) (hpos : 0 < m) :
    Entered b.blocks m := by
  classical
  have hR : Roots b fun m => ¬ Entered b.blocks m :=
    ⟨fun m _ hnone ⟨l, t, _, ht, hmem⟩ => hnone l t ht hmem, fun m hentered hnot => hnot hentered⟩
  have hcount := h.counts _ hR
  by_contra hnot
  have hlt := Nat.count_strict_mono (p := fun m => ¬ Entered b.blocks m) hnot hm
  have hle := Nat.count_monotone (fun m => ¬ Entered b.blocks m) hpos
  lia

theorem FunctionRun.zero_lt (h : FunctionRun env stem f g) : 0 < g.blocks.length := by
  obtain ⟨b, hbody, rfl⟩ := h
  obtain ⟨root, hroot, hrun⟩ := hbody.root
  have hle := hrun.keeps.nextLabel_le
  rw [← hroot.nextLabel_last, hroot.first_eq, nextLabel_grow] at hle
  exact Nat.lt_of_lt_of_le (Nat.succ_pos _) hle

theorem FunctionRun.origins_zero (h : FunctionRun env stem f g) : g.origins 0 = [] :=
  (h.wellFormed.origins_eq_nil_iff h.zero_lt).mpr fun _ _ => h.zero_notMem

theorem FunctionRun.predecessors_zero (h : FunctionRun env stem f g) : g.predecessors[0]? = some [] := by
  simp [Graph.predecessors_eq, h.origins_zero, h.zero_lt]

theorem Graph.countP_predecessors (g : Graph) :
    g.predecessors.countP (·.isEmpty) =
      Nat.count (fun m => g.origins m = []) g.blocks.length := by
  rw [predecessors_eq, List.countP_map, Nat.count]
  apply List.countP_congr
  simp

theorem FunctionRun.countP_predecessors (h : FunctionRun env stem f g) :
    g.predecessors.tail.countP (·.isEmpty) = f.statements.countP (·.isDeadEnd) := by
  have hrun := h
  obtain ⟨b, hbody, rfl⟩ := h
  have hcount := hbody.counts _ hrun.roots
  have htotal : _ = Nat.count _ b.nextLabel := (b.graph env f).countP_predecessors
  have hone : Nat.count (fun m => (b.graph env f).origins m = []) 1 = 1 := by
    simp [Nat.count_succ, hrun.origins_zero]
  have hhead : (b.graph env f).predecessors.head? = some [] :=
    List.head?_eq_getElem?.trans hrun.predecessors_zero
  rw [List.eq_cons_of_mem_head? hhead, List.countP_cons_of_pos rfl] at htotal
  lia

end Entry

/-- The blocks without predecessors are the first one and those behind a conditional whose branches both
leave. Block 0 has no predecessor; of the others as many have none as there are live conditionals of
this kind, and if there is none, every block is reached from block 0. -/
theorem lowerFunction_roots {env : Env} {stem : String} {f : FunctionDef} {g : Graph} {b : Builder}
    (h : lowerFunction env f { stem := stem } = .ok g b) :
    g.predecessors[0]? = some [] ∧
    g.predecessors.tail.countP (·.isEmpty) = f.statements.countP (·.isDeadEnd) ∧
    (∀ s, s ∈ f.statements ↔ f.Live (.stmt s)) ∧
    ((∀ s, f.Live (.stmt s) → s.isDeadEnd = false) →
      ∀ m < g.blocks.length, Relation.ReflTransGen (fun l m => m ∈ g.successors l) 0 m) := by
  have hrun := lowerFunction_run h
  refine ⟨hrun.predecessors_zero, hrun.countP_predecessors,
    fun s => FunctionDef.mem_statements_iff, fun hends m hm => ?_⟩
  obtain ⟨b, hbody, rfl⟩ := hrun
  have hzero : f.statements.countP (·.isDeadEnd) = 0 := by
    simpa [List.countP_eq_zero, FunctionDef.mem_statements_iff] using hends
  -- each block but the first is entered from one before it
  induction m using Nat.strong_induction_on with
  | _ m ih =>
    rcases Nat.eq_zero_or_pos m with rfl | hpos
    · exact .refl
    · obtain ⟨l, t, hlt, ht, hmem⟩ := hbody.entered hzero hm hpos
      exact (ih l hlt (Nat.lt_trans hlt hm)).tail (Graph.mem_successors_iff.mpr ⟨t, ht, hmem⟩)

def parting : FunctionDef where
  name := ⟨"f", {}⟩
  params := [⟨⟨"x", {}⟩, ⟨0, 0⟩, none, {}⟩]
  body := .block (.mk [
    .whileLoop {} (.var {} ⟨"x", {}⟩ ⟨0, 0⟩) (.mk [
      .ifElse {} (.var {} ⟨"x", {}⟩ ⟨0, 0⟩) (.mk [.breakLoop {}] {})
        (.lock {} (.mk [.continueLoop {}] {}))] {}),
    .ifElse {} (.var {} ⟨"x", {}⟩ ⟨0, 0⟩) (.mk [.ret {} none] {})
      (.block {} (.mk [.panic {} (.var {} ⟨"x", {}⟩ ⟨0, 0⟩),
        .ifElse {} (.var {} ⟨"x", {}⟩ ⟨0, 0⟩) (.mk [.ret {} none] {}) (.ret {} none)] {})),
    .expr {} (.call {} none ⟨"f", {}⟩ [])] {})

theorem parting_roots :
    (∃ g b, lowerFunction ⟨.anonymous, id, [], []⟩ parting { stem := "bb" } = .ok g b ∧
      parting.statements.countP (·.isDeadEnd) = 2 ∧ g.predecessors[0]? = some [] ∧
      g.predecessors.tail.countP (·.isEmpty) = 2) ∧
    ∃ g b, lowerFunction ⟨.anonymous, id, [], []⟩ choosing { stem := "bb" } = .ok g b ∧
      g.blocks.length = 14 ∧ ∀ m < 14, Relation.ReflTransGen (fun l m => m ∈ g.successors l) 0 m := by
  have hparting : Env.lowersTo ⟨.anonymous, id, [], []⟩ "bb" parting (fun _ => true) = true := by
    decide +kernel
  have hchoosing : Env.lowersTo ⟨.anonymous, id, [], []⟩ "bb" choosing (fun g => g.blocks.length = 14) =
      true := by
    decide +kernel
  constructor
  · obtain ⟨g, b, hg, -⟩ := Env.exists_of_lowersTo hparting
    obtain ⟨hzero, hcount, -⟩ := lowerFunction_roots hg
    exact ⟨g, b, hg, rfl, hzero, hcount⟩
  · obtain ⟨g, b, hg, hlength⟩ := Env.exists_of_lowersTo hchoosing
    obtain ⟨-, -, hlive, hreach⟩ := lowerFunction_roots hg
    have hall : ∀ s ∈ choosing.statements, s.isDeadEnd = false := by decide
    rw [← of_decide_eq_true hlength]
    exact ⟨g, b, hg, rfl, hreach fun s hs => hall s ((hlive s).mpr hs)⟩

end FlowGraph

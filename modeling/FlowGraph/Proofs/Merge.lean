import FlowGraph.Proofs.Jumps

/-!
Where the branches of a choice meet. A conditional statement or expression goes on in one block, which
is entered from the ends of its branches and, if there is no second one, from its condition.
-/

namespace FlowGraph

open Builder

def Node.isChoice : Node → Bool
  | .stmt (.ifThen _ _ _) | .stmt (.ifElse _ _ _ _) | .expr (.ternary _ _ _ _) => true
  | _ => false

def Node.leaves : Node → Bool
  | .stmt s => s.leaves
  | .block body => body.leaves
  | .stmts ss => leavesList ss
  | _ => false

theorem Site.Run.isNone_out {env : Env} {p : Site} (h : p.Run env) : p.out.isNone = p.node.leaves := by
  cases p with
  | stmt => exact StmtRun.isNone_eq h
  | block => exact BlockRun.isNone_eq h
  | stmts => exact StmtsRun.isNone_eq h
  | _ => rfl

namespace Builder

variable {b : Builder} {l m : Label} {span : Span}

theorem transferAt_close_ne {dst : Option Slot} {t : Transfer} (h : m ≠ l) :
    transferAt (b.close l dst t span).blocks m = transferAt b.blocks m :=
  transferAt_congr (getElem?_close h)

theorem nextLabel_gotoFrom {fin : Option Label} {target : Label} :
    (b.gotoFrom fin target span).nextLabel = b.nextLabel := by
  cases fin with
  | none => rfl
  | some l => exact nextLabel_close ..

theorem transferAt_gotoFrom_ne {fin : Option Label} {target : Label} (h : fin ≠ some m) :
    transferAt (b.gotoFrom fin target span).blocks m = transferAt b.blocks m := by
  cases fin with
  | none => rfl
  | some l => exact transferAt_close_ne fun heq => h (heq ▸ rfl)

theorem transferAt_gotoFrom {fin : Option Label} {target : Label} (h : fin = some l)
    (hl : l < b.nextLabel) :
    transferAt (b.gotoFrom fin target span).blocks l = some (.goto target) := by
  subst h
  exact transferAt_close_self hl

end Builder

/-- `Merges env p c arms merge`: at `p` there is a choice by the value `c`, between `arms`, behind which
control goes on in `merge`. -/
structure Merges (env : Env) (p : Site) (c : Placed) (arms : List Site) (merge : Label) : Prop where
  isChoice : p.node.isChoice = true
  parts : ∃ cond here b b', Splits env p (.expr cond here b c b' :: arms) ∧
    (Site.expr cond here b c b' :: arms).Forall (·.Run env)
  out : p.out = some merge

theorem Site.Run.merges {env : Env} {p : Site} (h : p.Run env) (hp : p.node.isChoice = true) :
    ∃ c arms merge, Merges env p c arms merge := by
  obtain ⟨ps, hsplits, hrun⟩ := h.splits
  cases hsplits <;> cases hp
  case ternary => exact ⟨_, _, _, rfl, ⟨_, _, _, _, .ternary, hrun⟩, rfl⟩
  case ifThen => exact ⟨_, _, _, rfl, ⟨_, _, _, _, .ifThen, hrun⟩, rfl⟩
  case ifElse => exact ⟨_, _, _, rfl, ⟨_, _, _, _, .ifElse, hrun⟩, rfl⟩

theorem Splits.jump_lt {env : Env} {p q r : Site} {ps : List Site} {m : Label} (h : Splits env p ps)
    (hrun : ps.Forall (·.Run env)) (hb : p.first.Sound) (hloop : p.isLoop = false) (hq : q ∈ ps)
    (hnear : Near env q r) (hjump : r.jump? = some m) : m < p.first.nextLabel := by
  apply Site.lt_of_jump? hb _ hjump
  exact hnear.loops.trans (Child.loops ⟨ps, h, hrun, hq⟩ hloop)

section Forms

variable {env : Env} {bf : Builder} {p : Site} {ps arms : List Site} {c : Placed} {merge l : Label}
  {t : Transfer}

theorem Splits.merge_avoids (h : Splits env p ps) (hrun : ps.Forall (·.Run env))
    (hp : p.node.isChoice = true) (hout : p.out = some merge) :
    ¬ p.Avoids merge ∧ ∀ q ∈ ps, q.Avoids merge := by
  have hle := fun q hq => (List.forall_iff_forall_mem.mp hrun q hq).keeps.nextLabel_le
  cases h <;> cases hp <;> obtain rfl := Option.some.inj hout
  all_goals
    simp [Site.first, Site.last, Site.Avoids, Builder.fork, Builder.join, nextLabel_gotoFrom] at hle ⊢
    lia

theorem Splits.merge_closings {cond : Expr} {here : Label} {b b' : Builder}
    (h : Splits env p (.expr cond here b c b' :: arms))
    (hrun : (Site.expr cond here b c b' :: arms).Forall (·.Run env)) (hp : p.node.isChoice = true)
    (hout : p.out = some merge) (hc : (l, t) ∈ p.closings env (.expr cond here b c b' :: arms))
    (hm : merge ∈ t.successors) : (∃ a ∈ arms, a.out = some l) ∨ (arms.length = 1 ∧ l = c.block) := by
  have hle := fun q hq => (List.forall_iff_forall_mem.mp hrun q hq).keeps.nextLabel_le
  cases h <;> cases hp <;> obtain rfl := Option.some.inj hout
  all_goals
    simp [Site.closings, Site.out, Site.first, Site.last, Builder.fork] at hc hle ⊢
    grind [Transfer.successors]

/-- The block of the condition is closed by a branch to the arms, where the block in which they meet
stands in for a second arm. -/
def Branches (blocks : List BasicBlock) (c : Placed) (arms : List Site) (merge : Label) : Prop :=
  (∃ a, arms = [a] ∧ transferAt blocks c.block = some (.branch c.slot a.here merge)) ∨
    ∃ a a', arms = [a, a'] ∧ transferAt blocks c.block = some (.branch c.slot a.here a'.here)

theorem Branches.one {blocks : List BasicBlock} {a : Site}
    (h : transferAt blocks c.block = some (.branch c.slot a.here merge)) : Branches blocks c [a] merge :=
  .inl ⟨a, rfl, h⟩

theorem Branches.two {blocks : List BasicBlock} {a a' : Site}
    (h : transferAt blocks c.block = some (.branch c.slot a.here a'.here)) :
    Branches blocks c [a, a'] merge :=
  .inr ⟨a, a', rfl, h⟩

section Closed

variable {span : Span} {cond : Expr} {body : Block} {otherwise : Stmt} {here : Label} {b b₁ b₂ b₃ : Builder}
  {thenEnd elseEnd : Option Label} {note : Note} {whenTrue whenFalse : Expr} {x y : Placed}

theorem Site.Settled.ifThen
    (h : Site.Settled env bf (.stmt (.ifThen span cond body) here b (some b₂.nextLabel)
      ((b₂.grow.close c.block none (.branch c.slot b₁.nextLabel b₂.nextLabel) span).gotoFrom thenEnd
        b₂.nextLabel span)))
    (hc : Site.Settled env bf (.expr cond here b c b₁))
    (hbody : Site.Settled env bf (.block body b₁.nextLabel b₁.grow thenEnd b₂)) :
    transferAt bf.blocks c.block = some (.branch c.slot b₁.nextLabel b₂.nextLabel) ∧
      ∀ l, thenEnd = some l → transferAt bf.blocks l = some (.goto b₂.nextLabel) := by
  have hclt : c.block < b₁.nextLabel := hc.out_lt rfl
  have hle : b₁.grow.nextLabel ≤ b₂.nextLabel := hbody.run.keeps.nextLabel_le
  have hlt : c.block < b₂.grow.nextLabel := by
    simp at hle ⊢
    lia
  constructor
  · apply h.sealed.grows.transferAt
    rw [Site.last, transferAt_gotoFrom_ne, transferAt_close_self hlt]
    intro hend
    have hplace : c.block = b₁.nextLabel ∨ b₁.grow.nextLabel ≤ c.block := hbody.out_place hend
    simp at hplace
    lia
  · intro l hl
    have hend : l < b₂.nextLabel := hbody.out_lt hl
    apply h.sealed.grows.transferAt
    apply transferAt_gotoFrom hl
    simp
    lia

theorem Site.Settled.ifElse
    (h : Site.Settled env bf (.stmt (.ifElse span cond body otherwise) here b (some b₃.nextLabel)
      ((b₃.grow.gotoFrom elseEnd b₃.nextLabel span).gotoFrom thenEnd b₃.nextLabel span)))
    (hc : Site.Settled env bf (.expr cond here b c b₁))
    (hbody : Site.Settled env bf (.block body b₁.nextLabel b₁.grow thenEnd b₂))
    (helse : Site.Settled env bf (.stmt otherwise b₂.nextLabel
      (b₂.grow.close c.block none (.branch c.slot b₁.nextLabel b₂.nextLabel) span) elseEnd b₃)) :
    transferAt bf.blocks c.block = some (.branch c.slot b₁.nextLabel b₂.nextLabel) ∧
      (∀ l, thenEnd = some l → transferAt bf.blocks l = some (.goto b₃.nextLabel)) ∧
      ∀ l, elseEnd = some l → transferAt bf.blocks l = some (.goto b₃.nextLabel) := by
  have hclt : c.block < b₁.nextLabel := hc.out_lt rfl
  have hle : b₁.grow.nextLabel ≤ b₂.nextLabel := hbody.run.keeps.nextLabel_le
  have hle' : b₂.grow.nextLabel ≤ b₃.nextLabel := by
    simpa [Site.first, Site.last] using helse.run.keeps.nextLabel_le
  have hthen : ∀ l, thenEnd = some l → l < b₂.nextLabel := fun l => hbody.out_lt
  simp at hle hle'
  refine ⟨helse.grows.transferAt (transferAt_close_self ?_), fun l hl => ?_, fun l hl => ?_⟩
  · simp
    lia
  · have := hthen l hl
    apply h.sealed.grows.transferAt
    apply transferAt_gotoFrom hl
    rw [nextLabel_gotoFrom, nextLabel_grow]
    lia
  · have hplace : l = b₂.nextLabel ∨ b₂.nextLabel + 1 ≤ l := by
      simpa [Site.first, Site.here] using helse.out_place hl
    have hend : l < b₃.nextLabel := helse.out_lt hl
    apply h.sealed.grows.transferAt
    rw [Site.last, transferAt_gotoFrom_ne]
    · apply transferAt_gotoFrom hl
      rw [nextLabel_grow]
      lia
    · intro hl'
      have := hthen l hl'
      lia

theorem Site.Settled.ternary
    (h : Site.Settled env bf (.expr (.ternary note cond whenTrue whenFalse) here b ⟨b₁.nextSlot, b₃.nextLabel⟩
      ((b₃.append y.block b₁.nextSlot (.move y.slot) whenFalse.span).join x.block y.block note.span)))
    (hc : Site.Settled env bf (.expr cond here b c b₁))
    (hx : Site.Settled env bf (.expr whenTrue b₁.nextLabel (b₁.fork c note) x b₂))
    (hy : Site.Settled env bf (.expr whenFalse (b₁.nextLabel + 1)
      (b₂.append x.block b₁.nextSlot (.move x.slot) whenTrue.span) y b₃)) :
    transferAt bf.blocks c.block = some (.branch c.slot b₁.nextLabel (b₁.nextLabel + 1)) ∧
      transferAt bf.blocks x.block = some (.goto b₃.nextLabel) ∧
      transferAt bf.blocks y.block = some (.goto b₃.nextLabel) := by
  have hclt : c.block < b₁.nextLabel := hc.out_lt rfl
  have hxlt : x.block < b₂.nextLabel := hx.out_lt rfl
  have hylt : y.block < b₃.nextLabel := hy.out_lt rfl
  have hle : b₂.nextLabel ≤ b₃.nextLabel := by simpa [Site.first, Site.last] using hy.run.keeps.nextLabel_le
  have hxplace := hx.out_place rfl
  have hyplace := hy.out_place rfl
  simp [Site.first, Site.here, Builder.fork] at hxplace hyplace
  refine ⟨hx.grows.transferAt (transferAt_close_self ?_), ?_, ?_⟩
  · simp
    lia
  · apply h.sealed.grows.transferAt
    rw [Site.last, Builder.join, transferAt_close_ne (by lia), transferAt_close_self]
    · simp
    · simp
      lia
  · apply h.sealed.grows.transferAt
    rw [Site.last, Builder.join, transferAt_close_self]
    · simp
    · simp
      lia

end Closed

end Forms

namespace Merges

variable {env : Env} {bf : Builder} {p : Site} {c : Placed} {arms : List Site} {merge l : Label}
  {t : Transfer}

theorem not_isLoop (h : Merges env p c arms merge) : p.isLoop = false := by
  obtain ⟨hchoice, ⟨cond, here, b, b', hsplits, -⟩, -⟩ := h
  cases hsplits <;> cases hchoice <;> rfl

theorem closed (h : Merges env p c arms merge) (hp : p.Settled env bf) :
    Branches bf.blocks c arms merge ∧
      ∀ a ∈ arms, ∀ l, a.out = some l → transferAt bf.blocks l = some (.goto merge) := by
  obtain ⟨hchoice, ⟨cond, here, b, b', hsplits, hrun⟩, hout⟩ := h
  have hparts : (Site.expr cond here b c b' :: arms).Forall (·.Settled env bf) :=
    List.forall_iff_forall_mem.mpr fun q hq => Child.settled ⟨_, hsplits, hrun, hq⟩ hp
  cases hsplits <;> cases hchoice <;> obtain rfl := Option.some.inj hout
  case ternary =>
    obtain ⟨hc, hx, hy⟩ := hparts
    obtain ⟨hbranch, hleft, hright⟩ := hp.ternary hc hx hy
    exact ⟨.two hbranch, by simpa [Site.out] using ⟨hleft, hright⟩⟩
  case ifThen =>
    obtain ⟨hc, hbody⟩ := hparts
    obtain ⟨hbranch, hend⟩ := hp.ifThen hc hbody
    exact ⟨.one hbranch, by simpa [Site.out] using hend⟩
  case ifElse =>
    obtain ⟨hc, hbody, helse⟩ := hparts
    obtain ⟨hbranch, hthen, helse⟩ := hp.ifElse hc hbody helse
    exact ⟨.two hbranch, by simpa [Site.out] using ⟨hthen, helse⟩⟩

theorem origin (h : Merges env p c arms merge) (hp : p.Settled env bf)
    (ht : transferAt bf.blocks l = some t) (hm : merge ∈ t.successors) :
    (∃ a ∈ arms, a.out = some l) ∨ (arms.length = 1 ∧ l = c.block) := by
  have hloop := h.not_isLoop
  obtain ⟨hchoice, ⟨cond, here, b, b', hsplits, hrun⟩, hout⟩ := h
  obtain ⟨hin, havoid⟩ := hsplits.merge_avoids hrun hchoice hout
  rcases hp.origin hsplits hrun ht hm hin with hown | ⟨q, hq, ⟨hin', -⟩ | ⟨r, hnear, -, hjump⟩⟩
  · exact hsplits.merge_closings hrun hchoice hout hown hm
  · exact absurd (havoid q hq) hin'
  · exact absurd (.inl (hsplits.jump_lt hrun hp.sound hloop hq hnear hjump)) hin

theorem merge_iff (h : Merges env p c arms merge) (hp : p.Settled env bf) :
    (∃ t, transferAt bf.blocks l = some t ∧ merge ∈ t.successors) ↔
      (∃ a ∈ arms, a.out = some l) ∨ (arms.length = 1 ∧ l = c.block) := by
  obtain ⟨hbranch, hends⟩ := h.closed hp
  constructor
  · rintro ⟨t, ht, hm⟩
    exact h.origin hp ht hm
  · rintro (⟨a, ha, hl⟩ | ⟨hlen, rfl⟩)
    · exact ⟨_, hends a ha l hl, List.mem_singleton_self merge⟩
    · rcases hbranch with ⟨a, -, ht⟩ | ⟨a, a', rfl, -⟩
      · exact ⟨_, ht, by simp [Transfer.successors]⟩
      · simp at hlen

theorem lt (h : Merges env p c arms merge) (hp : p.Settled env bf) : merge < bf.nextLabel :=
  Nat.lt_of_lt_of_le (hp.out_lt h.out) hp.sealed.grows.nextLabel_le

theorem nodes (h : Merges env p c arms merge) :
    ∃ cond, p.node.parts = .expr cond :: arms.map (·.node) := by
  obtain ⟨-, ⟨cond, here, b, b', hsplits, hrun⟩, -⟩ := h
  exact ⟨cond, (hsplits.nodes hrun).symm⟩

theorem isNone_out (h : Merges env p c arms merge) {a : Site} (ha : a ∈ arms) :
    a.out.isNone = a.node.leaves := by
  obtain ⟨-, ⟨cond, here, b, b', hsplits, hrun⟩, -⟩ := h
  exact (List.forall_iff_forall_mem.mp hrun a (List.mem_cons_of_mem _ ha)).isNone_out

end Merges

/-- The arms of a choice meet in one block. Every conditional that is live is lowered; its condition
ends in a branch to its arms, and behind it control goes on in a block that is entered from the ends
of the arms which do not leave, each by a `goto`, and from the condition if there is no second arm. -/
theorem lowerFunction_merges {env : Env} {stem : String} {f : FunctionDef} {g : Graph} {b : Builder}
    (h : lowerFunction env f { stem := stem } = .ok g b) :
    (∀ n : Node, n.isChoice = true →
      (f.Live n ↔ ∃ p c arms merge, SiteOf env stem f g p ∧ p.node = n ∧ Merges env p c arms merge)) ∧
    ∀ p c arms merge, SiteOf env stem f g p → Merges env p c arms merge →
      p.out = some merge ∧ (∃ cond, p.node.parts = .expr cond :: arms.map (·.node)) ∧
      Branches g.blocks c arms merge ∧
      (∀ a ∈ arms, a.out.isNone = a.node.leaves) ∧
      (∀ a ∈ arms, ∀ l, a.out = some l → transferAt g.blocks l = some (.goto merge)) ∧
      ∃ ls, g.predecessors[merge]? = some ls ∧
        ∀ l, l ∈ ls ↔ (∃ a ∈ arms, a.out = some l) ∨ (arms.length = 1 ∧ l = c.block) := by
  have hfun := lowerFunction_run h
  refine ⟨fun n hn => ?_, fun p c arms merge hp hmerges => ?_⟩
  · have hlive := hfun.live_iff_of_run fun p hrun hnode =>
      hrun.merges ((congrArg Node.isChoice hnode).trans hn)
    simpa only [exists_and_left] using hlive
  · obtain ⟨b', rfl, hsettled⟩ := hp.settled
    obtain ⟨hbranch, hends⟩ := hmerges.closed hsettled
    obtain ⟨ls, hls, hmem⟩ := hfun.wellFormed.predecessors (hmerges.lt hsettled)
    refine ⟨hmerges.out, hmerges.nodes, hbranch, fun a => hmerges.isNone_out, hends, ls, hls, fun l => ?_⟩
    rw [hmem l]
    exact hmerges.merge_iff hsettled

def elseIfChain : Stmt :=
  .ifElse {} (.call {} none ⟨"f", {}⟩ []) (.mk [.ret {} none] {})
    (.ifElse {} (.var {} ⟨"x", {}⟩ ⟨0, 0⟩)
      (.mk [.ifThen {} (.var {} ⟨"x", {}⟩ ⟨0, 0⟩) (.mk [.panic {} (.var {} ⟨"x", {}⟩ ⟨0, 0⟩)] {})] {})
      (.expr {} (.ternary {} (.var {} ⟨"x", {}⟩ ⟨0, 0⟩) (.call {} none ⟨"f", {}⟩ [])
        (.var {} ⟨"x", {}⟩ ⟨0, 0⟩))))

def choosing : FunctionDef where
  name := ⟨"f", {}⟩
  params := [⟨⟨"x", {}⟩, ⟨0, 0⟩, none, {}⟩]
  body := .block (.mk [elseIfChain] {})

theorem choosing_merges : ∃ g b p c arms merge,
    lowerFunction ⟨.anonymous, id, [], []⟩ choosing { stem := "bb" } = .ok g b ∧
    g.predecessors = [[], [0], [1], [1], [3], [4], [4], [3], [7], [7], [8], [9, 10], [6, 11], [12]] ∧
    SiteOf ⟨.anonymous, id, [], []⟩ "bb" choosing g p ∧ p.node = .stmt elseIfChain ∧
    Merges ⟨.anonymous, id, [], []⟩ p c arms merge ∧ Branches g.blocks c arms merge ∧
    ∃ ls, g.predecessors[merge]? = some ls ∧
      ∀ l, l ∈ ls ↔ (∃ a ∈ arms, a.out = some l) ∨ (arms.length = 1 ∧ l = c.block) := by
  have hlowers : Env.lowersTo ⟨.anonymous, id, [], []⟩ "bb" choosing (fun g => g.predecessors =
      [[], [0], [1], [1], [3], [4], [4], [3], [7], [7], [8], [9, 10], [6, 11], [12]]) = true := by
    decide +kernel
  obtain ⟨g, b, hg, hpreds⟩ := Env.exists_of_lowersTo hlowers
  obtain ⟨hlive, hall⟩ := lowerFunction_merges hg
  have hchain : choosing.Live (.stmt elseIfChain) := ⟨_, rfl, .single List.mem_cons_self⟩
  obtain ⟨p, c, arms, merge, hp, hnode, hmerges⟩ := (hlive _ rfl).mp hchain
  obtain ⟨-, -, hbranch, -, -, hmerge⟩ := hall p c arms merge hp hmerges
  exact ⟨g, b, p, c, arms, merge, hg, of_decide_eq_true hpreds, hp, hnode, hmerges, hbranch, hmerge⟩

end FlowGraph

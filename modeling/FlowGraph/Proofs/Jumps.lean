import FlowGraph.Proofs.Soundness
import FlowGraph.Proofs.Transfers
import Mathlib.Data.List.Induction
import Mathlib.Data.List.Pairwise

/-!
Where the edges of a graph go. An edge that is made at a site leads to a block that is added there,
unless it is a jump of a loop around; so the blocks of a loop are entered from within that loop only,
and by its own jumps.
-/

namespace FlowGraph

open Builder

namespace Site

def jump? : Site → Option Label
  | .stmt (.breakLoop _) _ b _ _ => b.loop?.map (·.onBreak)
  | .stmt (.continueLoop _) _ b _ _ => b.loop?.map (·.onContinue)
  | _ => none

def isStmt : Site → Bool
  | .stmt _ _ _ _ _ | .block _ _ _ _ _ | .stmts _ _ _ _ _ => true
  | _ => false

theorem isStmt_of_jump? {p : Site} {l : Label} (h : p.jump? = some l) : p.isStmt = true := by
  unfold jump? at h
  split at h <;> simp_all [isStmt]

theorem frame_of_jump? {p : Site} {l : Label} (h : p.jump? = some l) :
    ∃ frame ∈ p.first.loops.head?, l = frame.onBreak ∨ l = frame.onContinue := by
  unfold jump? at h
  split at h
  · obtain ⟨frame, hframe, rfl⟩ := Option.map_eq_some_iff.mp h
    exact ⟨frame, hframe, .inl rfl⟩
  · obtain ⟨frame, hframe, rfl⟩ := Option.map_eq_some_iff.mp h
    exact ⟨frame, hframe, .inr rfl⟩
  · cases h

theorem lt_of_jump? {p : Site} {b : Builder} {l : Label} (hb : b.Sound)
    (hloops : p.first.loops = b.loops) (h : p.jump? = some l) : l < b.nextLabel := by
  obtain ⟨frame, hframe, rfl | rfl⟩ := frame_of_jump? h
  · exact (hb.loops frame (List.mem_of_mem_head? (hloops ▸ hframe))).1
  · exact (hb.loops frame (List.mem_of_mem_head? (hloops ▸ hframe))).2

/-- The block `l` is none of those added at the site. -/
def Avoids (l : Label) (p : Site) : Prop := l < p.first.nextLabel ∨ p.last.nextLabel ≤ l

end Site

section Targets

variable {env : Env} {p q : Site} {ps : List Site} {l m : Label} {t : Transfer}

theorem Child.isStmt (h : Child env p q) (hp : p.isStmt = false) : q.isStmt = false := by
  obtain ⟨ps, hsplits, -, hq⟩ := h
  cases hsplits <;> simp_all [Site.isStmt] <;> grind

theorem Part.isStmt (h : Part env p q) (hp : p.isStmt = false) : q.isStmt = false := by
  induction h with
  | refl => exact hp
  | tail _ hchild ih => exact hchild.isStmt ih

theorem Splits.targets (h : Splits env p ps) (hps : ∀ q ∈ ps, q.first.nextLabel ≤ q.last.nextLabel)
    (hc : (l, t) ∈ p.closings env ps) (hm : m ∈ t.successors) :
    (p.here = l ∧ p.jump? = some m) ∨ (p.first.nextLabel ≤ m ∧ ∀ q ∈ ps, q.Avoids m) := by
  cases h with
  | call hcallee =>
    right
    simp [Site.closings, hcallee] at hc
    simp [hc, Transfer.successors] at hm
    simp [Site.first, Site.last, Site.Avoids] at hps ⊢
    lia
  | ternary =>
    right
    simp [Site.closings] at hc
    simp [Site.first, Site.last, Site.Avoids, Builder.fork] at hps ⊢
    rcases hc with ⟨-, rfl⟩ | ⟨-, rfl⟩ | ⟨-, rfl⟩ <;> simp [Transfer.successors] at hm <;> lia
  | ifThen =>
    right
    simp [Site.closings] at hc
    simp [Site.first, Site.last, Site.Avoids] at hps ⊢
    rcases hc with ⟨-, rfl⟩ | ⟨-, rfl⟩ <;> simp [Transfer.successors] at hm <;> lia
  | ifElse =>
    right
    simp [Site.closings] at hc
    simp [Site.first, Site.last, Site.Avoids] at hps ⊢
    rcases hc with ⟨-, rfl⟩ | ⟨-, rfl⟩ | ⟨-, rfl⟩ <;> simp [Transfer.successors] at hm <;> lia
  | whileLoop =>
    right
    simp [Site.closings] at hc
    simp [Site.first, Site.last, Site.Avoids, Builder.enterLoop] at hps ⊢
    rcases hc with ⟨-, rfl⟩ | ⟨-, rfl⟩ | ⟨-, rfl⟩ <;> simp [Transfer.successors] at hm <;> lia
  | breakLoop hf | continueLoop hf =>
    simp [Site.closings, hf] at hc
    simp [hc, Transfer.successors] at hm
    simp [Site.here, Site.jump?, hf, hc, hm]
  | ret | retValue | panic =>
    simp [Site.closings] at hc
    simp [hc, Transfer.successors] at hm
  | lockLeft =>
    right
    simp [Site.closings] at hc
    simp [hc, Transfer.successors] at hm
    simp [Site.first, Site.last, Site.Avoids] at hps ⊢
    lia
  | lock =>
    right
    simp [Site.closings] at hc
    simp [Site.first, Site.last, Site.Avoids] at hps ⊢
    rcases hc with ⟨-, rfl⟩ | ⟨-, rfl⟩ <;> simp [Transfer.successors] at hm <;> lia
  | _ => simp [Site.closings] at hc

theorem Splits.loop_frame (h : Splits env p ps) (hloop : p.isLoop = true)
    (hps : ∀ q ∈ ps, q.first.nextLabel ≤ q.last.nextLabel) :
    ∃ frame, (∀ q ∈ ps, q.isStmt = true → q.first.loop? = some frame) ∧
      ∀ m, m = frame.onBreak ∨ m = frame.onContinue → ¬ p.Avoids m ∧ ∀ q ∈ ps, q.Avoids m := by
  have hbounds := (h.linked.bounds hps).2
  cases h <;> cases hloop
  case whileLoop span cond body here b c b₁ bodyEnd b₂ =>
    refine ⟨⟨b₁.nextLabel + 1, b.nextLabel⟩, ?_, fun m hm => ?_⟩
    · simp [Site.isStmt, Site.first, Builder.enterLoop, Builder.loop?]
    · simp [Site.first, Site.last, Site.Avoids, Builder.enterLoop] at hbounds hps hm ⊢
      lia

theorem Splits.loop_jump {r : Site} (h : Splits env p ps) (hloop : p.isLoop = true)
    (hps : ∀ q ∈ ps, q.first.nextLabel ≤ q.last.nextLabel) (hq : q ∈ ps) (hnear : Near env q r)
    (hjump : r.jump? = some m) : ¬ p.Avoids m ∧ ∀ q ∈ ps, q.Avoids m := by
  obtain ⟨frame, hframe, htargets⟩ := h.loop_frame hloop hps
  have hstmt : q.isStmt = true := by
    by_contra hq
    have := hnear.part.isStmt (Bool.eq_false_iff.mpr hq)
    simp [Site.isStmt_of_jump? hjump] at this
  obtain ⟨frame', hframe', htarget⟩ := Site.frame_of_jump? hjump
  rw [hnear.loops] at hframe'
  obtain rfl := Option.some.inj ((hframe q hq hstmt).symm.trans hframe')
  exact htargets m htarget

theorem Site.Run.targets (h : p.Run env) (hlast : transferAt p.last.blocks l = some t)
    (hfirst : transferAt p.first.blocks l ≠ some t) (hm : m ∈ t.successors) :
    p.first.nextLabel ≤ m ∨ ∃ q, Near env p q ∧ q.here = l ∧ q.jump? = some m := by
  revert hlast hfirst
  refine Site.Run.induct (fun p ps hsplits hparts hlast hfirst => ?_) h
  have hall := List.forall_iff_forall_mem.mp hparts
  have hrun : ps.Forall (·.Run env) := hparts.imp fun _ => And.left
  have hle : ∀ q ∈ ps, q.first.nextLabel ≤ q.last.nextLabel := fun q hq => (hall q hq).1.keeps.nextLabel_le
  rcases hsplits.linked.origin hlast with hold | hown | ⟨q, hq, hqlast, hqfirst⟩
  · exact absurd hold hfirst
  · rcases hsplits.targets hle hown hm with hjump | hfresh
    · exact .inr ⟨p, .refl, hjump⟩
    · exact .inl hfresh.1
  · have hqle := ((hsplits.linked.bounds hle).2 q hq).1
    rcases (hall q hq).2 hqlast hqfirst with hfresh | ⟨r, hnear, hhere, hjump⟩
    · exact .inl (Nat.le_trans hqle hfresh)
    · cases hloop : p.isLoop with
      | false => exact .inr ⟨r, .head ⟨hloop, ps, hsplits, hrun, hq⟩ hnear, hhere, hjump⟩
      | true =>
        have hin := (hsplits.loop_jump hloop hle hq hnear hjump).1
        exact .inl (Nat.le_of_not_lt fun hlt => hin (.inl hlt))

theorem Splits.jump_avoids {r : Site} (h : Splits env p ps) (hrun : ps.Forall (·.Run env))
    (hb : p.first.Sound) (hq : q ∈ ps) (hnear : Near env q r) (hjump : r.jump? = some m) :
    m < p.first.nextLabel ∨ ∀ q ∈ ps, q.Avoids m := by
  have hall := List.forall_iff_forall_mem.mp hrun
  cases hloop : p.isLoop with
  | true => exact .inr (h.loop_jump hloop (fun q hq => (hall q hq).keeps.nextLabel_le) hq hnear hjump).2
  | false =>
    have hloops : r.first.loops = p.first.loops :=
      hnear.loops.trans (Child.loops ⟨ps, h, hrun, hq⟩ hloop)
    exact .inl (Site.lt_of_jump? hb hloops hjump)

end Targets

/-- In the end, no block leads to those added at the site but where one did behind the site. -/
def Site.Shut (bf : Builder) (p : Site) : Prop :=
  ∀ l t m, transferAt bf.blocks l = some t → m ∈ t.successors → ¬ p.Avoids m →
    transferAt p.last.blocks l = some t

/-- A site within the function that `bf` ends up as. -/
structure Site.Settled (env : Env) (bf : Builder) (p : Site) : Prop extends p.Context bf where
  run : p.Run env
  shut : p.Shut bf

section Settled

variable {env : Env} {bf : Builder} {p q : Site} {ps : List Site} {l m : Label} {t : Transfer}

theorem Site.Settled.origin (h : p.Settled env bf) (hsplits : Splits env p ps)
    (hrun : ps.Forall (·.Run env)) (ht : transferAt bf.blocks l = some t) (hm : m ∈ t.successors)
    (hin : ¬ p.Avoids m) :
    (l, t) ∈ p.closings env ps ∨ ∃ q ∈ ps, (¬ q.Avoids m ∧ transferAt q.last.blocks l = some t) ∨
      ∃ r, Near env q r ∧ r.here = l ∧ r.jump? = some m := by
  have hlast := h.shut l t m ht hm hin
  have hcontexts := hsplits.context hrun h.toContext
  rcases hsplits.linked.origin hlast with hold | hown | ⟨q, hq, hqlast, hqfirst⟩
  · exact absurd (.inl (h.sound.transferAt_lt hold hm)) hin
  · exact .inl hown
  · have hqrun := List.forall_iff_forall_mem.mp hrun q hq
    have hqready := (List.forall_iff_forall_mem.mp hcontexts q hq).toReady
    have hlt := ((hqrun.region hqready).sound hqready.sound).transferAt_lt hqlast hm
    refine .inr ⟨q, hq, ?_⟩
    rcases hqrun.targets hqlast hqfirst hm with hle | hjump
    · exact .inl ⟨fun ha => ha.elim (Nat.not_lt.mpr hle) (Nat.not_le.mpr hlt), hqlast⟩
    · exact .inr hjump

theorem Splits.eq_of_not_avoids (h : Splits env p ps) (hrun : ps.Forall (·.Run env)) {q' : Site}
    (hq : q ∈ ps) (hq' : q' ∈ ps) (hm : ¬ q.Avoids m) (hm' : ¬ q'.Avoids m) : q = q' := by
  have hall := List.forall_iff_forall_mem.mp hrun
  have hpairs : ps.Pairwise fun q r => q.Avoids m ∨ r.Avoids m := by
    refine (h.linked.pairwise fun q hq => (hall q hq).keeps.nextLabel_le).imp fun {q r} hle => ?_
    rcases Nat.lt_or_ge m q.last.nextLabel with hlt | hge
    · exact .inr (.inl (Nat.lt_of_lt_of_le hlt hle))
    · exact .inl (.inr hge)
  have : Std.Symm fun q r : Site => q.Avoids m ∨ r.Avoids m := ⟨fun _ _ => Or.symm⟩
  by_contra hne
  exact (hpairs.forall hq hq' hne).elim hm hm'

theorem Child.settled (h : Child env p q) (hp : p.Settled env bf) : q.Settled env bf := by
  obtain ⟨ps, hsplits, hrun, hq⟩ := h
  have hall := List.forall_iff_forall_mem.mp hrun
  have hle : ∀ q ∈ ps, q.first.nextLabel ≤ q.last.nextLabel := fun q hq => (hall q hq).keeps.nextLabel_le
  refine ⟨List.forall_iff_forall_mem.mp (hsplits.context hrun hp.toContext) q hq, hall q hq, ?_⟩
  intro l t m ht hm hin
  have hin' : ¬ p.Avoids m := by
    have := (hsplits.linked.bounds hle).2 q hq
    simp only [Site.Avoids] at hin ⊢
    lia
  rcases hp.origin hsplits hrun ht hm hin' with hown | ⟨q', hq', ⟨hin'', hlast⟩ | ⟨r, hnear, -, hjump⟩⟩
  · rcases hsplits.targets hle hown hm with ⟨-, hjump⟩ | ⟨-, havoid⟩
    · exact absurd (.inl (Site.lt_of_jump? hp.sound rfl hjump)) hin'
    · exact absurd (havoid q hq) hin
  · obtain rfl := hsplits.eq_of_not_avoids hrun hq hq' hin hin''
    exact hlast
  · rcases hsplits.jump_avoids hrun hp.sound hq' hnear hjump with hlt | havoid
    · exact absurd (.inl hlt) hin'
    · exact absurd (havoid q hq) hin

theorem Part.settled (h : Part env p q) (hp : p.Settled env bf) : q.Settled env bf := by
  induction h with
  | refl => exact hp
  | tail _ hchild ih => exact hchild.settled ih

theorem Root.settled {body : Body} {b : Builder} (h : Root body b bf p) (hrun : p.Run env)
    (hb : b.Sound) : p.Settled env bf where
  toContext := h.context hrun hb
  run := hrun
  shut l t m ht hm _ := by
    rcases h.origin ht with hlast | rfl
    · exact hlast
    · cases hm

theorem SiteOf.settled {stem : String} {f : FunctionDef} {g : Graph} (h : SiteOf env stem f g p) :
    ∃ b, g = b.graph env f ∧ p.Settled env b := by
  obtain ⟨b, root, hroot, hrun, hg, hpart⟩ := h
  exact ⟨b, hg, hpart.settled (hroot.settled hrun (env.enter_sound stem f))⟩

theorem Site.Settled.region (h : p.Settled env bf) :
    Region p.first p.here p.last fun l => p.out = some l := h.run.region h.toReady

theorem Site.Settled.grows (h : p.Settled env bf) : p.first.Grows bf :=
  h.region.steps.grows.trans h.sealed.grows

theorem Site.Settled.out_lt (h : p.Settled env bf) (hl : p.out = some l) : l < p.last.nextLabel :=
  h.region.lt hl

theorem Site.Settled.out_place (h : p.Settled env bf) (hl : p.out = some l) :
    l = p.here ∨ p.first.nextLabel ≤ l := h.region.place l hl

theorem Site.Settled.jumps (h : p.Settled env bf) (hm : p.jump? = some m) :
    transferAt bf.blocks p.here = some (.goto m) := by
  have hrun := h.run
  unfold Site.jump? at hm
  split at hm
  · cases hrun with
    | @breakLoop _ _ _ frame hframe =>
      obtain rfl : frame.onBreak = m := by simpa [hframe] using hm
      exact h.sealed.grows.transferAt (transferAt_close_self h.isOpen.lt)
  · cases hrun with
    | @continueLoop _ _ _ frame hframe =>
      obtain rfl : frame.onContinue = m := by simpa [hframe] using hm
      exact h.sealed.grows.transferAt (transferAt_close_self h.isOpen.lt)
  · cases hm

end Settled

/-- The blocks of a loop: `entry`, from which it is entered; `head`, where its condition is
evaluated, to `cond`; `start`, where its body begins, and `bodyEnd`, where the body ends if it does not
leave; and `exit`, where control goes on. -/
structure Loop where
  entry : Label
  head : Label
  cond : Placed
  start : Label
  bodyEnd : Option Label
  exit : Label

/-- `Loops env p w q`: at `p` a loop is lowered, with the blocks `w`, and its body at `q`. -/
inductive Loops (env : Env) : Site → Loop → Site → Prop
  | mk {span cond body entry b exit b' head b₀ c b₁ start b₂ bodyEnd b₃} :
    Splits env (.stmt (.whileLoop span cond body) entry b (some exit) b')
      [.expr cond head b₀ c b₁, .block body start b₂ bodyEnd b₃] →
    ExprRun env cond head b₀ c b₁ → BlockRun env body start b₂ bodyEnd b₃ →
    Loops env (.stmt (.whileLoop span cond body) entry b (some exit) b')
      ⟨entry, head, c, start, bodyEnd, exit⟩ (.block body start b₂ bodyEnd b₃)

def Breaks (env : Env) (q : Site) (l : Label) : Prop :=
  ∃ span b out b', Near env q (.stmt (.breakLoop span) l b out b')

def Continues (env : Env) (q : Site) (l : Label) : Prop :=
  ∃ span b out b', Near env q (.stmt (.continueLoop span) l b out b')

theorem Site.Run.loops {env : Env} {p : Site} (h : p.Run env) (hp : p.isLoop = true) :
    ∃ w q, Loops env p w q := by
  obtain ⟨ps, hsplits, hrun⟩ := h.splits
  cases hsplits <;> cases hp
  case whileLoop => exact ⟨_, _, .mk .whileLoop hrun.1 hrun.2⟩

section Loops

variable {env : Env} {bf : Builder} {p q r : Site} {w : Loop} {l m : Label} {t : Transfer}

theorem Loops.child (h : Loops env p w q) : Child env p q := by
  cases h with
  | mk hsplits hc hbody => exact ⟨_, hsplits, ⟨hc, hbody⟩, by simp⟩

theorem Loops.loop? (h : Loops env p w q) : q.first.loop? = some ⟨w.exit, w.head⟩ := by
  cases h with
  | mk hsplits =>
    cases hsplits
    rfl

theorem Loops.closed (h : Loops env p w q) (hp : p.Settled env bf) :
    transferAt bf.blocks w.entry = some (.goto w.head) ∧
    transferAt bf.blocks w.cond.block = some (.branch w.cond.slot w.start w.exit) ∧
    ∀ l, w.bodyEnd = some l → transferAt bf.blocks l = some (.goto w.head) := by
  cases h with
  | @mk span cond body entry b exit b' head b₀ c b₁ start b₂ bodyEnd b₃ hsplits hc hbody =>
    have hcond := Child.settled ⟨_, hsplits, ⟨hc, hbody⟩, by simp⟩ hp (q := .expr cond head b₀ c b₁)
    have hblock := Child.settled ⟨_, hsplits, ⟨hc, hbody⟩, by simp⟩ hp
      (q := .block body start b₂ bodyEnd b₃)
    cases hsplits
    have hentry : entry < b.grow.nextLabel := (isOpen_grow.mpr (.inl hp.isOpen)).lt
    have hclt : c.block < b₁.grow.grow.nextLabel := by
      have : c.block < b₁.nextLabel := hcond.out_lt rfl
      simp
      lia
    refine ⟨hcond.grows.transferAt (transferAt_close_self hentry),
      hblock.grows.transferAt (transferAt_close_self hclt), ?_⟩
    rintro l rfl
    exact hp.sealed.grows.transferAt (transferAt_close_self (hblock.out_lt rfl))

theorem Loops.loop?_of_near (h : Loops env p w q) (hnear : Near env q r) :
    r.first.loop? = some ⟨w.exit, w.head⟩ := by
  rw [Builder.loop?, hnear.loops]
  exact h.loop?

theorem Loops.jump (h : Loops env p w q) (hnear : Near env q r) (hjump : r.jump? = some m) :
    (Breaks env q r.here ∧ m = w.exit) ∨ (Continues env q r.here ∧ m = w.head) := by
  have hloop := h.loop?_of_near hnear
  unfold Site.jump? at hjump
  split at hjump
  next span here b out b' =>
    obtain rfl : w.exit = m := by simpa [show b.loop? = _ from hloop] using hjump
    exact .inl ⟨⟨span, b, out, b', hnear⟩, rfl⟩
  next span here b out b' =>
    obtain rfl : w.head = m := by simpa [show b.loop? = _ from hloop] using hjump
    exact .inr ⟨⟨span, b, out, b', hnear⟩, rfl⟩
  next => cases hjump

theorem Loops.breaks (h : Loops env p w q) (hp : p.Settled env bf) (hl : Breaks env q l) :
    transferAt bf.blocks l = some (.goto w.exit) := by
  obtain ⟨span, b, out, b', hnear⟩ := hl
  refine (hnear.part.settled (h.child.settled hp)).jumps ?_
  simp [Site.jump?, show b.loop? = _ from h.loop?_of_near hnear]

theorem Loops.continues (h : Loops env p w q) (hp : p.Settled env bf) (hl : Continues env q l) :
    transferAt bf.blocks l = some (.goto w.head) := by
  obtain ⟨span, b, out, b', hnear⟩ := hl
  refine (hnear.part.settled (h.child.settled hp)).jumps ?_
  simp [Site.jump?, show b.loop? = _ from h.loop?_of_near hnear]

theorem Loops.head_lt (h : Loops env p w q) : w.head < w.start ∧ w.exit = w.start + 1 := by
  cases h with
  | @mk span cond _ _ _ _ _ head b₀ c b₁ _ _ _ _ hsplits hc _ =>
    have hrun : Site.Run env (.expr cond head b₀ c b₁) := hc
    have hle := hrun.keeps.nextLabel_le
    cases hsplits
    simp [Site.first, Site.last] at hle ⊢
    lia

theorem Loops.origin (h : Loops env p w q) (hp : p.Settled env bf) (hm : m = w.exit ∨ m = w.head)
    (ht : transferAt bf.blocks l = some t) (hmem : m ∈ t.successors) :
    (l = w.entry ∧ m = w.head) ∨ (l = w.cond.block ∧ m = w.exit) ∨ (w.bodyEnd = some l ∧ m = w.head) ∨
      (Breaks env q l ∧ m = w.exit) ∨ (Continues env q l ∧ m = w.head) := by
  have hloops := h
  cases h with
  | @mk span cond body entry b exit b' head b₀ c b₁ start b₂ bodyEnd b₃ hsplits hc hbody =>
    have hrun : [Site.expr cond head b₀ c b₁, .block body start b₂ bodyEnd b₃].Forall (·.Run env) :=
      ⟨hc, hbody⟩
    have hps := fun q hq => (List.forall_iff_forall_mem.mp hrun q hq).keeps.nextLabel_le
    obtain ⟨frame, hframe, htargets⟩ := hsplits.loop_frame rfl hps
    obtain rfl := Option.some.inj (hloops.loop?.symm.trans (hframe _ (by simp) rfl))
    obtain ⟨hin, havoid⟩ := htargets m hm
    rcases hp.origin hsplits hrun ht hmem hin with hown | ⟨q', hq', ⟨hin', -⟩ | ⟨r, hnear, rfl, hjump⟩⟩
    · obtain ⟨hhead, hexit⟩ := hloops.head_lt
      rcases (show _ ∨ _ ∨ _ by simpa [Site.closings] using hown) with ⟨hl, rfl⟩ | ⟨hl, rfl⟩ | ⟨hl, rfl⟩
      · exact .inl ⟨hl, List.mem_singleton.mp hmem⟩
      · refine .inr (.inl ⟨hl, (List.mem_pair.mp hmem).resolve_left fun hstart => ?_⟩)
        simp only at hm hhead hexit
        lia
      · exact .inr (.inr (.inl ⟨hl, List.mem_singleton.mp hmem⟩))
    · exact absurd (havoid q' hq') hin'
    · rcases List.mem_pair.mp hq' with rfl | rfl
      · have := hnear.part.isStmt rfl
        simp [Site.isStmt_of_jump? hjump] at this
      · exact .inr (.inr (.inr (hloops.jump hnear hjump)))

theorem Loops.exit_iff (h : Loops env p w q) (hp : p.Settled env bf) :
    (∃ t, transferAt bf.blocks l = some t ∧ w.exit ∈ t.successors) ↔
      l = w.cond.block ∨ Breaks env q l := by
  have hne : w.exit ≠ w.head := by
    have := h.head_lt
    lia
  constructor
  · rintro ⟨t, ht, hmem⟩
    have := h.origin hp (.inl rfl) ht hmem
    simpa [hne] using this
  · rintro (rfl | hl)
    · exact ⟨_, (h.closed hp).2.1, by simp [Transfer.successors]⟩
    · exact ⟨_, h.breaks hp hl, by simp [Transfer.successors]⟩

theorem Loops.head_iff (h : Loops env p w q) (hp : p.Settled env bf) :
    (∃ t, transferAt bf.blocks l = some t ∧ w.head ∈ t.successors) ↔
      l = w.entry ∨ Continues env q l ∨ w.bodyEnd = some l := by
  have hne : w.head ≠ w.exit := by
    have := h.head_lt
    lia
  constructor
  · rintro ⟨t, ht, hmem⟩
    have := h.origin hp (.inr rfl) ht hmem
    simp only [hne, and_true, and_false, false_or] at this
    tauto
  · rintro (rfl | hl | hl)
    · exact ⟨_, (h.closed hp).1, by simp [Transfer.successors]⟩
    · exact ⟨_, h.continues hp hl, by simp [Transfer.successors]⟩
    · exact ⟨_, (h.closed hp).2.2 l hl, by simp [Transfer.successors]⟩

end Loops

theorem Graph.mem_successors_iff {g : Graph} {l m : Label} :
    m ∈ g.successors l ↔ ∃ t, transferAt g.blocks l = some t ∧ m ∈ t.successors := by
  cases hl : g.blocks[l]? with
  | none => simp [Graph.successors, Graph.block?, transferAt, hl]
  | some block =>
    cases ht : block.terminator <;>
      simp [Graph.successors, Graph.block?, transferAt, hl, BasicBlock.successors, ht, Terminator.successors]

section Predecessors

theorem eraseDups_concat (ls : List Label) (l : Label) :
    (ls ++ [l]).eraseDups = if l ∈ ls then ls.eraseDups else ls.eraseDups ++ [l] := by
  by_cases hl : l ∈ ls <;> simp [List.eraseDups_append, List.removeAll, hl, List.eraseDups_cons]

namespace Graph

def origins (g : Graph) (l : Label) : List Label :=
  ((g.blocks.map (·.id)).filter (l ∈ g.successors ·)).eraseDups

@[simp] theorem mem_origins {g : Graph} {l p : Label} :
    p ∈ g.origins l ↔ (∃ b ∈ g.blocks, b.id = p) ∧ l ∈ g.successors p := by
  simp [origins, List.mem_eraseDups]

theorem getElem?_addPredecessors (p m : Label) (ls : List Label) (preds : List (List Label)) :
    (ls.foldl (addPredecessor p) preds)[m]? =
      preds[m]?.map fun ps => if m ∈ ls ∧ p ∉ ps then ps ++ [p] else ps := by
  induction ls generalizing preds with
  | nil => simp
  | cons l ls ih =>
    rw [List.foldl_cons, ih, addPredecessor, List.getElem?_modify]
    cases preds[m]? with
    | none => rfl
    | some ps => grind

theorem predecessors_eq (g : Graph) : g.predecessors = (List.range g.blocks.length).map g.origins := by
  apply List.ext_getElem?
  intro m
  -- what the loop has collected when it has come to the end of `blocks`
  suffices h : ∀ (n : Nat) (blocks : List BasicBlock),
      (blocks.foldl (fun preds b => (g.successors b.id).foldl (addPredecessor b.id) preds)
        (List.replicate n []))[m]? =
      (List.range n)[m]?.map fun m => ((blocks.map (·.id)).filter (m ∈ g.successors ·)).eraseDups by
    rw [predecessors, h, List.getElem?_map]
    rfl
  intro n blocks
  induction blocks using List.reverseRecOn with
  | nil => by_cases hm : m < n <;> simp [hm]
  | append_singleton blocks b ih =>
    rw [List.foldl_append, List.foldl_cons, List.foldl_nil, getElem?_addPredecessors, ih, Option.map_map]
    by_cases hm : m < n
    · by_cases hb : m ∈ g.successors b.id <;> simp [hm, hb, eraseDups_concat]
    · simp [hm]

theorem WellFormed.predecessors {g : Graph} (h : g.WellFormed) {m : Label} (hm : m < g.blocks.length) :
    ∃ ls, g.predecessors[m]? = some ls ∧
      ∀ l, l ∈ ls ↔ ∃ t, transferAt g.blocks l = some t ∧ m ∈ t.successors := by
  refine ⟨g.origins m, by simp [predecessors_eq, hm], fun l => ?_⟩
  rw [mem_origins, ← mem_successors_iff, and_iff_right_iff_imp]
  intro hmem
  obtain ⟨t, ht, -⟩ := mem_successors_iff.mp hmem
  obtain ⟨block, -, hl, -⟩ := transferAt_eq_some_iff.mp ht
  exact ⟨block, List.mem_of_getElem? hl, (h.blocks l block hl).1.id⟩

end Graph

end Predecessors

theorem Graph.WellFormed.lt_of_transferAt {g : Graph} (h : g.WellFormed) {l m : Label} {t : Transfer}
    (ht : transferAt g.blocks l = some t) (hm : m ∈ t.successors) : m < g.blocks.length := by
  obtain ⟨block, u, hl, hu, rfl⟩ := transferAt_eq_some_iff.mp ht
  exact ((h.blocks l block hl).1.terminator u hu).successors m hm

/-- The jumps of a loop go to that loop and nothing else does. Every `while` statement that is live is
lowered; its exit is entered from the end of its condition, where that fails, and from the `break`
statements of which it is the innermost loop; its head is entered from where the statement begins, from
its `continue` statements, and from the end of its body. -/
theorem lowerFunction_loops {env : Env} {stem : String} {f : FunctionDef} {g : Graph} {b : Builder}
    (h : lowerFunction env f { stem := stem } = .ok g b) :
    (∀ n : Node, n.isLoop = true → (f.Live n ↔ ∃ p w q, SiteOf env stem f g p ∧ p.node = n ∧ Loops env p w q)) ∧
    ∀ p w q, SiteOf env stem f g p → Loops env p w q →
      (∀ n, q.node.Near n ↔ ∃ r, Near env q r ∧ r.node = n) ∧
      transferAt g.blocks w.cond.block = some (.branch w.cond.slot w.start w.exit) ∧ w.start ≠ w.exit ∧
      (∀ l, Breaks env q l → transferAt g.blocks l = some (.goto w.exit)) ∧
      (∀ l, Continues env q l → transferAt g.blocks l = some (.goto w.head)) ∧
      (∃ ls, g.predecessors[w.exit]? = some ls ∧ ∀ l, l ∈ ls ↔ l = w.cond.block ∨ Breaks env q l) ∧
      ∃ ls, g.predecessors[w.head]? = some ls ∧
        ∀ l, l ∈ ls ↔ l = w.entry ∨ Continues env q l ∨ w.bodyEnd = some l := by
  have hfun := lowerFunction_run h
  refine ⟨fun n hn => ?_, fun p w q hp hloops => ?_⟩
  · have hlive := hfun.live_iff_of_run fun p hrun hnode => hrun.loops ((congrArg Node.isLoop hnode).trans hn)
    simpa only [exists_and_left] using hlive
  · obtain ⟨b', rfl, hsettled⟩ := hp.settled
    have hwf := hfun.wellFormed
    obtain ⟨hentry, hcond, -⟩ := hloops.closed hsettled
    have hstart : w.start ≠ w.exit := by
      have := hloops.head_lt
      lia
    obtain ⟨exits, hexits, hexit⟩ := hwf.predecessors (hwf.lt_of_transferAt hcond (m := w.exit)
      (by simp [Transfer.successors]))
    obtain ⟨heads, hheads, hhead⟩ := hwf.predecessors (hwf.lt_of_transferAt hentry (m := w.head)
      (by simp [Transfer.successors]))
    refine ⟨fun n => (hloops.child.settled hsettled).run.near_iff, hcond, hstart,
      fun l => hloops.breaks hsettled, fun l => hloops.continues hsettled, ⟨exits, hexits, fun l => ?_⟩,
      heads, hheads, fun l => ?_⟩
    · rw [hexit l]
      exact hloops.exit_iff hsettled
    · rw [hhead l]
      exact hloops.head_iff hsettled

def outerLoop : Stmt :=
  .whileLoop {} (.call {} none ⟨"f", {}⟩ []) (.mk [
    .whileLoop {} (.var {} ⟨"x", {}⟩ ⟨0, 0⟩) (.mk [.ifThen {} (.var {} ⟨"x", {}⟩ ⟨0, 0⟩)
      (.mk [.breakLoop {}, .continueLoop {}] {})] {}),
    .ifElse {} (.var {} ⟨"x", {}⟩ ⟨0, 0⟩) (.mk [.breakLoop {}] {})
      (.lock {} (.mk [.continueLoop {}] {}))] {})

def nestedLoops : FunctionDef where
  name := ⟨"f", {}⟩
  params := [⟨⟨"x", {}⟩, ⟨0, 0⟩, none, {}⟩]
  body := .block (.mk [outerLoop] {})

theorem nestedLoops_loops : ∃ g b p w q,
    lowerFunction ⟨.anonymous, id, [], []⟩ nestedLoops { stem := "bb" } = .ok g b ∧
    g.predecessors = [[], [0, 12, 13], [1], [2], [2, 10], [3, 9], [5], [5, 8], [6], [6], [7], [7], [11], []] ∧
    SiteOf ⟨.anonymous, id, [], []⟩ "bb" nestedLoops g p ∧ p.node = .stmt outerLoop ∧
    Loops ⟨.anonymous, id, [], []⟩ p w q ∧
    (∃ l, Breaks ⟨.anonymous, id, [], []⟩ q l ∧ transferAt g.blocks l = some (.goto w.exit)) ∧
    ∃ ls, g.predecessors[w.exit]? = some ls ∧
      ∀ l, l ∈ ls ↔ l = w.cond.block ∨ Breaks ⟨.anonymous, id, [], []⟩ q l := by
  have hlowers : Env.lowersTo ⟨.anonymous, id, [], []⟩ "bb" nestedLoops (fun g => g.predecessors =
      [[], [0, 12, 13], [1], [2], [2, 10], [3, 9], [5], [5, 8], [6], [6], [7], [7], [11], []]) = true := by
    decide +kernel
  obtain ⟨g, b, hg, hpreds⟩ := Env.exists_of_lowersTo hlowers
  obtain ⟨hlive, hall⟩ := lowerFunction_loops hg
  have houter : nestedLoops.Live (.stmt outerLoop) := ⟨_, rfl, .single List.mem_cons_self⟩
  obtain ⟨p, w, q, hp, hnode, hloops⟩ := (hlive _ rfl).mp houter
  obtain ⟨hnear, -, -, hbreaks, -, hexit, -⟩ := hall p w q hp hloops
  refine ⟨g, b, p, w, q, hg, of_decide_eq_true hpreds, hp, hnode, hloops, ?_, hexit⟩
  have hbreak : q.node.Near (.stmt (.breakLoop {})) := by
    cases hloops
    cases hnode
    -- into the block, past the inner loop, and into the first branch
    refine .head (b := .stmts _) ⟨rfl, List.mem_cons_self⟩ ?_
    refine .head (b := .stmts _) ⟨rfl, List.mem_cons_of_mem _ List.mem_cons_self⟩ ?_
    refine .head (b := .stmt _) ⟨rfl, List.mem_cons_self⟩ ?_
    refine .head (b := .block _) ⟨rfl, List.mem_cons_of_mem _ List.mem_cons_self⟩ ?_
    refine .head (b := .stmts _) ⟨rfl, List.mem_cons_self⟩ ?_
    exact .single ⟨rfl, List.mem_cons_self⟩
  obtain ⟨r, hr, hnode'⟩ := (hnear _).mp hbreak
  cases r <;> cases hnode'
  exact ⟨_, ⟨_, _, _, _, hr⟩, hbreaks _ ⟨_, _, _, _, hr⟩⟩

end FlowGraph

import FlowGraph.Proofs.Live

/-!
How blocks are closed. What a site closes is closed by the site itself or in one of its parts, and
leads to blocks that are made there, unless it is a jump of a loop around.
-/

namespace FlowGraph

open Builder

def transferAt (blocks : List BasicBlock) (l : Label) : Option Transfer :=
  (blocks[l]?.bind (·.terminator)).map (·.transfer)

theorem transferAt_congr {blocks blocks' : List BasicBlock} {l : Label}
    (h : blocks'[l]? = blocks[l]?) : transferAt blocks' l = transferAt blocks l := by
  simp [transferAt, h]

theorem transferAt_eq_some_iff {blocks : List BasicBlock} {l : Label} {t : Transfer} :
    transferAt blocks l = some t ↔
      ∃ block u, blocks[l]? = some block ∧ block.terminator = some u ∧ u.transfer = t := by
  simp [transferAt, Option.bind_eq_some_iff]

theorem transferAt_of_openAt {blocks : List BasicBlock} {l : Label} (h : OpenAt blocks l) :
    transferAt blocks l = none := by
  obtain ⟨block, hl, hopen⟩ := h
  simp [transferAt, hl, hopen]

theorem exists_transferAt {blocks : List BasicBlock} {l : Label} (hl : l < blocks.length)
    (ho : ¬ OpenAt blocks l) : ∃ t, transferAt blocks l = some t := by
  have hblock := List.getElem?_eq_getElem hl
  cases ht : blocks[l].terminator with
  | none => exact absurd ⟨_, hblock, ht⟩ ho
  | some t => exact ⟨t.transfer, transferAt_eq_some_iff.mpr ⟨_, t, hblock, ht, rfl⟩⟩

theorem transferAt_of_le {blocks : List BasicBlock} {l : Label} (h : blocks.length ≤ l) :
    transferAt blocks l = none := by
  simp [transferAt, List.getElem?_eq_none h]

namespace Builder

variable {b b' : Builder} {l m : Label} {t u : Transfer} {span : Span}

@[simp] theorem transferAt_grow : transferAt b.grow.blocks l = transferAt b.blocks l := by
  by_cases hl : l = b.nextLabel
  · subst hl
    simp [transferAt, grow, BasicBlock.empty]
  · exact transferAt_congr (getElem?_grow hl)

@[simp] theorem transferAt_append {dst : Slot} {op : Operation} :
    transferAt (b.append l dst op span).blocks m = transferAt b.blocks m := by
  by_cases hm : m = l
  · subst hm
    cases h : b.blocks[m]? <;> simp [transferAt, append, h]
  · exact transferAt_congr (getElem?_append hm)

theorem transferAt_close_self {dst : Option Slot} (hl : l < b.nextLabel) :
    transferAt (b.close l dst t span).blocks l = some t := by
  simp [transferAt, close, List.getElem?_eq_getElem hl]

theorem transferAt_of_close {dst : Option Slot}
    (h : transferAt (b.close l dst t span).blocks m = some u) :
    transferAt b.blocks m = some u ∨ m = l ∧ u = t := by
  by_cases hm : m = l
  · subst hm
    rcases Nat.lt_or_ge m b.nextLabel with hl | hl
    · rw [transferAt_close_self hl] at h
      exact .inr ⟨rfl, (Option.some.inj h).symm⟩
    · rw [transferAt_of_le (by simpa using hl)] at h
      cases h
  · rw [transferAt_congr (getElem?_close hm)] at h
    exact .inl h

theorem Grows.transferAt (h : b.Grows b') (ht : transferAt b.blocks l = some t) :
    FlowGraph.transferAt b'.blocks l = some t := by
  obtain ⟨block, u, hl, hu, rfl⟩ := transferAt_eq_some_iff.mp ht
  obtain ⟨block', hl', hg⟩ := h.blocks l block hl
  obtain rfl := hg.closed (by simp [hu])
  exact transferAt_eq_some_iff.mpr ⟨_, u, hl', hu, rfl⟩

theorem Sound.transferAt_lt (hb : b.Sound) (ht : FlowGraph.transferAt b.blocks l = some t) {m : Label}
    (hm : m ∈ t.successors) : m < b.nextLabel := by
  obtain ⟨block, u, hl, hu, rfl⟩ := transferAt_eq_some_iff.mp ht
  exact ((hb.blocks l block hl).terminator u hu).successors m hm

end Builder

/-- From `b` to `b'` blocks are closed only as `C` says, and the loops around are the same if `plain`. -/
structure Link (C : Label → Transfer → Prop) (plain : Prop) (b b' : Builder) : Prop where
  nextLabel_le : b.nextLabel ≤ b'.nextLabel
  loops : plain → b'.loops = b.loops
  closes : ∀ l t, transferAt b'.blocks l = some t → transferAt b.blocks l = some t ∨ C l t

namespace Link

variable {C : Label → Transfer → Prop} {plain : Prop} {b b₁ : Builder} {l m target : Label}
  {span : Span}

@[simp] theorem refl (b : Builder) : Link C plain b b := ⟨Nat.le_refl _, fun _ => rfl, fun _ _ => .inl⟩

theorem grow (h : Link C plain b b₁) : Link C plain b b₁.grow where
  nextLabel_le := Nat.le_trans h.nextLabel_le (by simp)
  loops := h.loops
  closes l t ht := h.closes l t (by simpa using ht)

theorem addTemporary (h : Link C plain b b₁) (ty : Option Ty) : Link C plain b (b₁.addTemporary ty) :=
  ⟨h.nextLabel_le, h.loops, h.closes⟩

theorem addBound (h : Link C plain b b₁) {name : String} {ty : Option Ty} {kind : VarKind}
    {key : Symbol} : Link C plain b (b₁.addBound name ty kind key) :=
  ⟨h.nextLabel_le, h.loops, h.closes⟩

theorem append (h : Link C plain b b₁) {dst : Slot} {op : Operation} :
    Link C plain b (b₁.append l dst op span) where
  nextLabel_le := Nat.le_trans h.nextLabel_le (by simp)
  loops := h.loops
  closes m t ht := h.closes m t (by simpa using ht)

theorem compute (h : Link C plain b b₁) {ty : Option Ty} {op : Operation} :
    Link C plain b (b₁.compute l ty op span) := (h.addTemporary ty).append

theorem close (h : Link C plain b b₁) {dst : Option Slot} {t : Transfer} (hC : C l t) :
    Link C plain b (b₁.close l dst t span) where
  nextLabel_le := Nat.le_trans h.nextLabel_le (by simp)
  loops := h.loops
  closes m u hu := by
    rcases transferAt_of_close hu with hold | ⟨rfl, rfl⟩
    · exact h.closes m u hold
    · exact .inr hC

theorem gotoFrom (h : Link C plain b b₁) {fin : Option Label}
    (hC : ∀ l, fin = some l → C l (.goto target)) : Link C plain b (b₁.gotoFrom fin target span) := by
  cases fin with
  | none => exact h
  | some l => exact h.close (hC l rfl)

theorem enterScope (h : Link C plain b b₁) : Link C plain b b₁.enterScope :=
  ⟨h.nextLabel_le, h.loops, h.closes⟩

theorem exitScope (h : Link C plain b b₁) : Link C plain b b₁.exitScope :=
  ⟨h.nextLabel_le, h.loops, h.closes⟩

theorem pushLoop (h : Link C plain b b₁) (hp : ¬ plain) (frame : LoopFrame) :
    Link C plain b (b₁.pushLoop frame) :=
  ⟨h.nextLabel_le, fun hplain => absurd hplain hp, h.closes⟩

theorem dropLoop (h : Link C plain b b₁) (hp : ¬ plain) : Link C plain b b₁.dropLoop :=
  ⟨h.nextLabel_le, fun hplain => absurd hplain hp, h.closes⟩

end Link

namespace Site

def isLoop (p : Site) : Bool := p.node.isLoop

/-- The blocks that a site closes itself, rather than in one of its parts. -/
def closings (env : Env) : Site → List Site → List (Label × Transfer)
  | .expr (.call _ qualifier name _) _ _ r _, [.args _ _ _ slots last _] =>
    match env.callee qualifier name with
    | .ok callee => [(last, .call slots callee false r.block)]
    | .error _ => []
  | .expr (.ternary _ _ _ _) _ _ r _, [.expr _ _ _ c _, .expr _ left _ x _, .expr _ right _ y _] =>
    [(c.block, .branch c.slot left right), (x.block, .goto r.block), (y.block, .goto r.block)]
  | .stmt (.ifThen _ _ _) _ _ (some merge) _, [.expr _ _ _ c _, .block _ left _ thenEnd _] =>
    (c.block, .branch c.slot left merge) :: thenEnd.toList.map (·, .goto merge)
  | .stmt (.ifElse _ _ _ _) _ _ (some merge) _,
    [.expr _ _ _ c _, .block _ left _ thenEnd _, .stmt _ right _ elseEnd _] =>
    (c.block, .branch c.slot left right) :: (elseEnd.toList ++ thenEnd.toList).map (·, .goto merge)
  | .stmt (.whileLoop _ _ _) here _ (some exit) _, [.expr _ head _ c _, .block _ start _ bodyEnd _] =>
    (here, .goto head) :: (c.block, .branch c.slot start exit) :: bodyEnd.toList.map (·, .goto head)
  | .stmt (.ret _ none) here _ _ _, _ => [(here, .ret)]
  | .stmt (.ret _ (some _)) _ _ _ _, [.expr _ _ _ r _] => [(r.block, .ret)]
  | .stmt (.breakLoop _) here b _ _, _ => b.loop?.toList.map fun frame => (here, .goto frame.onBreak)
  | .stmt (.continueLoop _) here b _ _, _ =>
    b.loop?.toList.map fun frame => (here, .goto frame.onContinue)
  | .stmt (.panic _ _) _ _ _ _, [.expr _ _ _ r _] => [(r.block, .panic r.slot)]
  | .stmt (.lock _ _) here _ none _, [.block _ start _ _ _] => [(here, .lock start)]
  | .stmt (.lock _ _) here _ (some next) _, [.block _ start _ (some last) _] =>
    [(here, .lock start), (last, .unlock next)]
  | _, _ => []

end Site

def Linked (C : Label → Transfer → Prop) (plain : Prop) : Builder → List Site → Builder → Prop
  | b, [], b' => Link C plain b b'
  | b, q :: ps, b' => Link C plain b q.first ∧ Linked C plain q.last ps b'

theorem Splits.linked {env : Env} {p : Site} {ps : List Site} (h : Splits env p ps) :
    Linked (fun l t => (l, t) ∈ p.closings env ps) (p.isLoop = false) p.first ps p.last := by
  have hr := @Link.refl (fun l t => (l, t) ∈ p.closings env ps) (p.isLoop = false)
  cases h with
  | literal | constant => exact (hr _).compute
  | «variable» | argsNil | fieldsNil | nil => exact hr _
  | wildcard => exact (hr _).addTemporary _
  | binary | index => exact ⟨hr _, hr _, (hr _).compute⟩
  | unary | cast | test | mapping => exact ⟨hr _, (hr _).compute⟩
  | call hcallee => exact ⟨hr _, ((hr _).grow.addTemporary _).close (by simp [Site.closings, hcallee])⟩
  | list | field => exact ⟨hr _, (hr _).compute.compute⟩
  | group | expr | block | leave => exact ⟨hr _, hr _⟩
  | ternary =>
    refine ⟨hr _, ((hr _).addTemporary _).grow.grow.close ?_, (hr _).append, ?_⟩
    · simp [Site.closings]
    · exact ((hr _).append.grow.close (by simp [Site.closings])).close (by simp [Site.closings])
  | argsCons | assign | update | next => exact ⟨hr _, hr _, hr _⟩
  | fieldsCons => exact ⟨(hr _).compute, hr _, hr _⟩
  | storeVariable => exact (hr _).append
  | storeIndex => exact ⟨hr _, hr _, (hr _).append⟩
  | storeField => exact ⟨hr _, (hr _).compute.append⟩
  | storeWildcard => exact (hr _).compute
  | ifThen =>
    refine ⟨hr _, (hr _).grow, ((hr _).grow.close ?_).gotoFrom ?_⟩
    · simp [Site.closings]
    · simp [Site.closings]
  | ifElse =>
    refine ⟨hr _, (hr _).grow, (hr _).grow.close ?_, ((hr _).grow.gotoFrom ?_).gotoFrom ?_⟩
    · simp [Site.closings]
    · simp +contextual [Site.closings]
    · simp +contextual [Site.closings]
  | whileLoop =>
    refine ⟨(hr _).grow.close ?_, ((hr _).grow.grow.close ?_).pushLoop ?_ _, ((hr _).gotoFrom ?_).dropLoop ?_⟩
    · simp [Site.closings]
    · simp [Site.closings]
    · simp [Site.isLoop, Site.node, Node.isLoop]
    · simp +contextual [Site.closings]
    · simp [Site.isLoop, Site.node, Node.isLoop]
  | ret => exact (hr _).close (by simp [Site.closings])
  | retValue => exact ⟨hr _, (hr _).append.close (by simp [Site.closings])⟩
  | breakLoop hf | continueLoop hf => exact (hr _).close (by simp [Site.closings, hf])
  | declare => exact (hr _).addBound
  | define => exact ⟨hr _, (hr _).addBound.append⟩
  | panic => exact ⟨hr _, (hr _).close (by simp [Site.closings])⟩
  | lockLeft => exact ⟨(hr _).grow.close (by simp [Site.closings]), hr _⟩
  | lock => exact ⟨(hr _).grow.close (by simp [Site.closings]), (hr _).grow.close (by simp [Site.closings])⟩
  | scope => exact ⟨(hr _).enterScope, (hr _).exitScope⟩

namespace Linked

variable {C : Label → Transfer → Prop} {plain : Prop} {b b' : Builder} {ps : List Site}

theorem bounds (h : Linked C plain b ps b') (hps : ∀ q ∈ ps, q.first.nextLabel ≤ q.last.nextLabel) :
    b.nextLabel ≤ b'.nextLabel ∧
      ∀ q ∈ ps, b.nextLabel ≤ q.first.nextLabel ∧ q.last.nextLabel ≤ b'.nextLabel := by
  induction ps generalizing b with
  | nil => exact ⟨Link.nextLabel_le h, by simp⟩
  | cons q ps ih =>
    obtain ⟨hlink, hrest⟩ := h
    obtain ⟨hle, hbounds⟩ := ih hrest fun q hq => hps q (List.mem_cons_of_mem _ hq)
    have hfirst := hlink.nextLabel_le
    have hq := hps q List.mem_cons_self
    refine ⟨Nat.le_trans hfirst (Nat.le_trans hq hle), fun r hr => ?_⟩
    rcases List.mem_cons.mp hr with rfl | hr
    · exact ⟨hfirst, hle⟩
    · obtain ⟨h₁, h₂⟩ := hbounds r hr
      exact ⟨Nat.le_trans hfirst (Nat.le_trans hq h₁), h₂⟩

theorem pairwise (h : Linked C plain b ps b') (hps : ∀ q ∈ ps, q.first.nextLabel ≤ q.last.nextLabel) :
    ps.Pairwise fun q r => q.last.nextLabel ≤ r.first.nextLabel := by
  induction ps generalizing b with
  | nil => exact .nil
  | cons q ps ih =>
    have hps' := fun q hq => hps q (List.mem_cons_of_mem _ hq)
    exact List.pairwise_cons.mpr ⟨fun r hr => ((h.2.bounds hps').2 r hr).1, ih h.2 hps'⟩

theorem loops (h : Linked C plain b ps b') (hplain : plain) (hps : ∀ q ∈ ps, q.last.loops = q.first.loops) :
    b'.loops = b.loops ∧ ∀ q ∈ ps, q.first.loops = b.loops := by
  induction ps generalizing b with
  | nil => exact ⟨Link.loops h hplain, by simp⟩
  | cons q ps ih =>
    obtain ⟨hlink, hrest⟩ := h
    obtain ⟨hlast, hloops⟩ := ih hrest fun q hq => hps q (List.mem_cons_of_mem _ hq)
    have hq : q.last.loops = b.loops := (hps q List.mem_cons_self).trans (hlink.loops hplain)
    refine ⟨hlast.trans hq, fun r hr => ?_⟩
    rcases List.mem_cons.mp hr with rfl | hr
    · exact hlink.loops hplain
    · exact (hloops r hr).trans hq

theorem origin (h : Linked C plain b ps b') {l : Label} {t : Transfer}
    (ht : transferAt b'.blocks l = some t) :
    transferAt b.blocks l = some t ∨ C l t ∨
      ∃ q ∈ ps, transferAt q.last.blocks l = some t ∧ transferAt q.first.blocks l ≠ some t := by
  induction ps generalizing b with
  | nil => exact (Link.closes h l t ht).imp_right .inl
  | cons q ps ih =>
    obtain ⟨hlink, hrest⟩ := h
    rcases ih hrest with hlast | hC | ⟨r, hr, hnew⟩
    · by_cases hfirst : transferAt q.first.blocks l = some t
      · exact (hlink.closes l t hfirst).imp_right .inl
      · exact .inr (.inr ⟨q, List.mem_cons_self, hlast, hfirst⟩)
    · exact .inr (.inl hC)
    · exact .inr (.inr ⟨r, List.mem_cons_of_mem _ hr, hnew⟩)

end Linked

structure Site.Keeps (p : Site) : Prop where
  nextLabel_le : p.first.nextLabel ≤ p.last.nextLabel
  loops : p.last.loops = p.first.loops

theorem Builder.gotoFrom_loops {b : Builder} {fin : Option Label} {target : Label} {span : Span} :
    (b.gotoFrom fin target span).loops = b.loops := by
  cases fin <;> rfl

theorem Site.Run.keeps {env : Env} {p : Site} (h : p.Run env) : p.Keeps := by
  refine Site.Run.induct (fun p ps hsplits hparts => ?_) h
  have hkeeps : ∀ q ∈ ps, q.Keeps := fun q hq => (List.forall_iff_forall_mem.mp hparts q hq).2
  have hlinked := hsplits.linked
  refine ⟨(hlinked.bounds fun q hq => (hkeeps q hq).nextLabel_le).1, ?_⟩
  cases hloop : p.isLoop with
  | false => exact (hlinked.loops hloop fun q hq => (hkeeps q hq).loops).1
  | true =>
    cases hsplits <;> cases hloop
    -- the loop is entered after its condition and left after its body
    have hcond := hparts.1.2.loops
    have hbody := hparts.2.2.loops
    simp_all [Site.first, Site.last, Builder.enterLoop, Builder.gotoFrom_loops]

theorem Site.Run.origin {env : Env} {p : Site} (h : p.Run env) {l : Label} {t : Transfer}
    (ht : transferAt p.last.blocks l = some t) :
    transferAt p.first.blocks l = some t ∨
      ∃ q ps, Part env p q ∧ Splits env q ps ∧ ps.Forall (·.Run env) ∧ (l, t) ∈ q.closings env ps := by
  revert ht
  refine Site.Run.induct (fun p ps hsplits hparts ht => ?_) h
  have hall := List.forall_iff_forall_mem.mp hparts
  have hrun : ps.Forall (·.Run env) := hparts.imp fun _ => And.left
  rcases hsplits.linked.origin ht with hold | hown | ⟨q, hq, hlast, hfirst⟩
  · exact .inl hold
  · exact .inr ⟨p, ps, .refl, hsplits, hrun, hown⟩
  · obtain ⟨r, rs, hpart, hr⟩ := ((hall q hq).2 hlast).resolve_left hfirst
    exact .inr ⟨r, rs, .head ⟨ps, hsplits, hrun, hq⟩ hpart, hr⟩

theorem Root.origin {body : Body} {b bf : Builder} {p : Site} (h : Root body b bf p) {l : Label}
    {t : Transfer} (ht : transferAt bf.blocks l = some t) :
    transferAt p.last.blocks l = some t ∨ t = .ret := by
  cases h with
  | leaves => exact .inl ht
  | fallsOff => exact (transferAt_of_close ht).imp_right And.right
  | expr => exact (transferAt_of_close ht).imp (by simp [Site.last]) And.right

theorem Root.first_eq {body : Body} {b bf : Builder} {p : Site} (h : Root body b bf p) :
    p.first = b.grow := by
  cases h <;> rfl

theorem Root.transferAt_first {body : Body} {b bf : Builder} {p : Site} (h : Root body b bf p)
    (hb : b.blocks = []) (l : Label) : transferAt p.first.blocks l = none := by
  rw [h.first_eq, transferAt_grow]
  simp [transferAt, hb]

theorem FunctionRun.origin {env : Env} {stem : String} {f : FunctionDef} {g : Graph}
    (h : FunctionRun env stem f g) {l : Label} {t : Transfer} (ht : transferAt g.blocks l = some t) :
    t = .ret ∨ ∃ p ps, SiteOf env stem f g p ∧ Splits env p ps ∧ ps.Forall (·.Run env) ∧
      (l, t) ∈ p.closings env ps := by
  obtain ⟨b, hbody, rfl⟩ := h
  obtain ⟨root, hroot, hrun⟩ := hbody.root
  rcases hroot.origin ht with hlast | hret
  · rcases hrun.origin hlast with hfirst | ⟨p, ps, hpart, hparts⟩
    · simp [hroot.transferAt_first (env.enter_blocks stem f)] at hfirst
    · exact .inr ⟨p, ps, ⟨b, root, hroot, hrun, rfl, hpart⟩, hparts⟩
  · exact .inl hret

/-- `Near env p q`: `q` is within `p`, but not within a loop there. -/
abbrev Near (env : Env) : Site → Site → Prop :=
  Relation.ReflTransGen fun p q => p.isLoop = false ∧ Child env p q

section Children

variable {env : Env} {p q : Site}

theorem Child.loops (h : Child env p q) (hp : p.isLoop = false) : q.first.loops = p.first.loops := by
  obtain ⟨ps, hsplits, hrun, hq⟩ := h
  exact (hsplits.linked.loops hp fun r hr => (List.forall_iff_forall_mem.mp hrun r hr).keeps.loops).2 q hq

theorem Near.loops (h : Near env p q) : q.first.loops = p.first.loops := by
  induction h with
  | refl => rfl
  | tail _ hstep ih => exact (hstep.2.loops hstep.1).trans ih

theorem Near.part (h : Near env p q) : Part env p q :=
  Relation.ReflTransGen.mono (fun _ _ => And.right) _ _ h

theorem Site.Run.near_iff (h : p.Run env) {n : Node} :
    p.node.Near n ↔ ∃ q, Near env p q ∧ q.node = n := by
  constructor
  · intro hn
    obtain ⟨q, hq, -, heq⟩ := h.exists_of_path hn
    exact ⟨q, hq, heq⟩
  · rintro ⟨q, hq, rfl⟩
    exact hq.lift Site.node fun _ _ hstep => ⟨hstep.1, hstep.2.node⟩

end Children

end FlowGraph

import FlowGraph.Proofs.Transition
import Mathlib.Data.List.Nodup

/-!
What every action of a builder keeps. `Step` lists the actions with what they may refer to; a
builder only grows under them, and stays sound: all it refers to exists, and each entry of a table
has its own position as its number.
-/

namespace FlowGraph

/-- A block may take more code until it is closed, and never changes after that. -/
structure BasicBlock.GrowsTo (block block' : BasicBlock) : Prop where
  id : block'.id = block.id
  name : block'.name = block.name
  instructions : block.instructions <+: block'.instructions
  closed : block.terminator ≠ none → block' = block

namespace BasicBlock.GrowsTo

theorem refl (block : BasicBlock) : block.GrowsTo block :=
  ⟨rfl, rfl, List.prefix_rfl, fun _ => rfl⟩

theorem trans {x y z : BasicBlock} (h : x.GrowsTo y) (h' : y.GrowsTo z) : x.GrowsTo z where
  id := h'.id.trans h.id
  name := h'.name.trans h.name
  instructions := h.instructions.trans h'.instructions
  closed hx := by
    have hy : y = x := h.closed hx
    subst hy
    exact h'.closed hx

end BasicBlock.GrowsTo

def BlocksGrow (blocks blocks' : List BasicBlock) : Prop :=
  ∀ (l : Label) (block : BasicBlock), blocks[l]? = some block →
    ∃ block', blocks'[l]? = some block' ∧ block.GrowsTo block'

namespace BlocksGrow

theorem refl (blocks : List BasicBlock) : BlocksGrow blocks blocks :=
  fun _ block h => ⟨block, h, .refl block⟩

theorem trans {xs ys zs : List BasicBlock} (h : BlocksGrow xs ys) (h' : BlocksGrow ys zs) :
    BlocksGrow xs zs := by
  intro l block hl
  obtain ⟨block', hl', hb⟩ := h l block hl
  obtain ⟨block'', hl'', hb'⟩ := h' l block' hl'
  exact ⟨block'', hl'', hb.trans hb'⟩

theorem length_le {xs ys : List BasicBlock} (h : BlocksGrow xs ys) : xs.length ≤ ys.length := by
  by_contra hlt
  obtain ⟨block', hl', -⟩ := h ys.length _ (List.getElem?_eq_getElem (Nat.lt_of_not_le hlt))
  simp at hl'

theorem snoc (blocks : List BasicBlock) (block : BasicBlock) :
    BlocksGrow blocks (blocks ++ [block]) := by
  intro l old hl
  refine ⟨old, ?_, .refl old⟩
  rw [List.getElem?_append_left (List.getElem?_eq_some_iff.mp hl).1, hl]

theorem modify {blocks : List BasicBlock} {l : Label} {f : BasicBlock → BasicBlock}
    (ho : OpenAt blocks l) (hf : ∀ block : BasicBlock, block.terminator = none → block.GrowsTo (f block)) :
    BlocksGrow blocks (blocks.modify l f) := by
  intro m block hm
  by_cases hlm : l = m
  · subst hlm
    obtain ⟨block', hb', hopen⟩ := ho
    obtain rfl : block' = block := Option.some.inj (hb'.symm.trans hm)
    exact ⟨f block', by simp [hm], hf block' hopen⟩
  · exact ⟨block, by rw [List.getElem?_modify_ne _ _ hlm, hm], .refl block⟩

end BlocksGrow

structure Instruction.Fits (i : Instruction) (slots scopes : Nat) : Prop where
  dst : i.dst < slots
  sources : ∀ s ∈ i.sources, s < slots
  scope : i.scope < scopes

structure Terminator.Fits (t : Terminator) (slots scopes labels : Nat) : Prop where
  dst : ∀ s ∈ t.dst, s < slots
  sources : ∀ s ∈ t.sources, s < slots
  scope : t.scope < scopes
  successors : ∀ l ∈ t.successors, l < labels

structure BasicBlock.Fits (block : BasicBlock) (l slots scopes labels : Nat) : Prop where
  id : block.id = l
  instructions : ∀ i ∈ block.instructions, i.Fits slots scopes
  terminator : ∀ t ∈ block.terminator, t.Fits slots scopes labels

theorem BasicBlock.Fits.mono {block : BasicBlock} {l slots scopes labels slots' scopes' labels' : Nat}
    (h : block.Fits l slots scopes labels) (hs : slots ≤ slots') (hc : scopes ≤ scopes')
    (hl : labels ≤ labels') : block.Fits l slots' scopes' labels' where
  id := h.id
  instructions i hi := by
    have hfit := h.instructions i hi
    exact ⟨Nat.lt_of_lt_of_le hfit.dst hs, fun s hm => Nat.lt_of_lt_of_le (hfit.sources s hm) hs,
      Nat.lt_of_lt_of_le hfit.scope hc⟩
  terminator t ht := by
    have hfit := h.terminator t ht
    exact ⟨fun s hm => Nat.lt_of_lt_of_le (hfit.dst s hm) hs,
      fun s hm => Nat.lt_of_lt_of_le (hfit.sources s hm) hs, Nat.lt_of_lt_of_le hfit.scope hc,
      fun m hm => Nat.lt_of_lt_of_le (hfit.successors m hm) hl⟩

def Locals.IsNamed (t : Locals) (s : Slot) : Prop :=
  ∃ v, t.vars[s]? = some v ∧ (v.kind = .argument ∨ v.kind = .declared)

theorem Locals.IsNamed.lt {t : Locals} {s : Slot} (h : t.IsNamed s) : s < t.vars.length := by
  obtain ⟨v, hv, -⟩ := h
  exact (List.getElem?_eq_some_iff.mp hv).1

theorem Locals.lookup?_mem {t : Locals} {key : Symbol} {s : Slot} (h : t.lookup? key = some s) :
    (key, s) ∈ t.bindings := by
  obtain ⟨l₁, l₂, hl, -⟩ := List.lookup_eq_some_iff.mp h
  simp [hl]

namespace ScopeTree

structure Sound (t : ScopeTree) : Prop where
  numbered : ∀ (i : ScopeId) (s : Scope), t.scopes[i]? = some s → s.id = i
  parents : ∀ (i : ScopeId) (s : Scope), t.scopes[i]? = some s → ∀ p ∈ s.parent, p < i
  current : t.current < t.scopes.length

theorem Sound.enter {t : ScopeTree} (h : t.Sound) : t.enter.Sound where
  numbered i s hs := by
    rcases Nat.lt_or_ge i t.scopes.length with hi | hi
    · exact h.numbered i s (by simpa [ScopeTree.enter, List.getElem?_append_left hi] using hs)
    · simp only [ScopeTree.enter, List.getElem?_append_right hi, List.getElem?_singleton] at hs
      grind
  parents i s hs := by
    rcases Nat.lt_or_ge i t.scopes.length with hi | hi
    · exact h.parents i s (by simpa [ScopeTree.enter, List.getElem?_append_left hi] using hs)
    · have := h.current
      simp only [ScopeTree.enter, List.getElem?_append_right hi, List.getElem?_singleton] at hs
      grind
  current := by simp [ScopeTree.enter]

theorem Sound.exit {t : ScopeTree} (h : t.Sound) : t.exit.Sound where
  numbered := h.numbered
  parents := h.parents
  current := by
    obtain ⟨s, hs⟩ : ∃ s, t.scopes[t.current]? = some s :=
      ⟨_, List.getElem?_eq_getElem h.current⟩
    cases hp : s.parent with
    | none => simpa [ScopeTree.exit, hs, hp] using h.current
    | some p =>
      have hlt := h.parents _ _ hs p hp
      simpa [ScopeTree.exit, hs, hp] using Nat.lt_trans hlt h.current

end ScopeTree

namespace Builder

structure Sound (b : Builder) : Prop where
  result : ∃ v, b.locals.vars[0]? = some v ∧ v.kind = .result
  bound : ∀ key s, (key, s) ∈ b.locals.bindings → b.locals.IsNamed s
  distinct : (b.locals.bindings.map (·.2)).Nodup
  blocks : ∀ (l : Label) (block : BasicBlock), b.blocks[l]? = some block →
    block.Fits l b.nextSlot b.scopes.scopes.length b.nextLabel
  scopes : b.scopes.Sound
  loops : ∀ frame ∈ b.loops, frame.onBreak < b.nextLabel ∧ frame.onContinue < b.nextLabel

/-- One action of a builder, with what it may refer to. -/
inductive Step : Builder → Builder → Prop
  | grow (b) : Step b b.grow
  | addTemporary (b ty) : Step b (b.addTemporary ty)
  | addBound {b name ty kind key} :
    kind = .argument ∨ kind = .declared → Step b (b.addBound name ty kind key)
  | append {b l dst op span} :
    b.IsOpen l → dst < b.nextSlot → (∀ s ∈ op.sources, s < b.nextSlot) →
    Step b (b.append l dst op span)
  | close {b l dst transfer span} :
    b.IsOpen l → (∀ s ∈ dst, s < b.nextSlot) → (∀ s ∈ transfer.sources, s < b.nextSlot) →
    (∀ m ∈ transfer.successors, m < b.nextLabel) → Step b (b.close l dst transfer span)
  | enterScope (b) : Step b b.enterScope
  | exitScope (b) : Step b b.exitScope
  | pushLoop {b frame} :
    frame.onBreak < b.nextLabel → frame.onContinue < b.nextLabel → Step b (b.pushLoop frame)
  | dropLoop (b) : Step b b.dropLoop

abbrev Steps := Relation.ReflTransGen Step

structure Grows (b b' : Builder) : Prop where
  blocks : BlocksGrow b.blocks b'.blocks
  vars : b.locals.vars <+: b'.locals.vars
  bindings : b.locals.bindings <:+ b'.locals.bindings
  scopes : b.scopes.scopes <+: b'.scopes.scopes

namespace Grows

theorem refl (b : Builder) : b.Grows b :=
  ⟨.refl _, List.prefix_rfl, List.suffix_rfl, List.prefix_rfl⟩

theorem trans {b₁ b₂ b₃ : Builder} (h : b₁.Grows b₂) (h' : b₂.Grows b₃) : b₁.Grows b₃ :=
  ⟨h.blocks.trans h'.blocks, h.vars.trans h'.vars, h.bindings.trans h'.bindings,
    h.scopes.trans h'.scopes⟩

theorem append {b b₁ : Builder} (h : b.Grows b₁) {l : Label} {dst : Slot} {op : Operation} {span : Span}
    (ho : b₁.IsOpen l) : b.Grows (b₁.append l dst op span) := by
  refine h.trans { refl b₁ with blocks := .modify ho fun block hopen => ?_ }
  exact ⟨rfl, rfl, List.prefix_append _ _, fun hclosed => absurd hopen hclosed⟩

theorem close {b b₁ : Builder} (h : b.Grows b₁) {l : Label} {dst : Option Slot} {t : Transfer}
    {span : Span} (ho : b₁.IsOpen l) : b.Grows (b₁.close l dst t span) := by
  refine h.trans { refl b₁ with blocks := .modify ho fun block hopen => ?_ }
  exact ⟨rfl, rfl, List.prefix_rfl, fun hclosed => absurd hopen hclosed⟩

theorem var {b b' : Builder} (h : b.Grows b') {s : Slot} {v : Variable}
    (hv : b.locals.vars[s]? = some v) : b'.locals.vars[s]? = some v := by
  obtain ⟨rest, hr⟩ := h.vars
  rw [← hr, List.getElem?_append_left (List.getElem?_eq_some_iff.mp hv).1, hv]

theorem nextLabel_le {b b' : Builder} (h : b.Grows b') : b.nextLabel ≤ b'.nextLabel :=
  h.blocks.length_le

theorem nextSlot_le {b b' : Builder} (h : b.Grows b') : b.nextSlot ≤ b'.nextSlot :=
  h.vars.length_le

end Grows

theorem Step.grows {b b' : Builder} (h : Step b b') : b.Grows b' := by
  have hr := Grows.refl b
  cases h with
  | grow => exact { hr with blocks := .snoc _ _ }
  | addTemporary ty => exact { hr with vars := by simp }
  | addBound hk => exact { hr with vars := by simp, bindings := List.suffix_cons _ _ }
  | append ho hd hs => exact hr.append ho
  | close ho hd hs hm => exact hr.close ho
  | enterScope => exact { hr with scopes := List.prefix_append _ _ }
  | exitScope => exact { hr with scopes := List.prefix_rfl }
  | pushLoop h₁ h₂ => exact { hr with }
  | dropLoop => exact { hr with }

theorem Sound.fits {b b' : Builder} {l : Label} {block : BasicBlock} (hb : b.Sound)
    (hg : b.Grows b') (hl : b.blocks[l]? = some block) :
    block.Fits l b'.nextSlot b'.scopes.scopes.length b'.nextLabel :=
  (hb.blocks l block hl).mono hg.nextSlot_le hg.scopes.length_le hg.nextLabel_le

theorem Sound.named {b b' : Builder} (hb : b.Sound) (hg : b.Grows b') {key : Symbol} {s : Slot}
    (hm : (key, s) ∈ b.locals.bindings) : b'.locals.IsNamed s := by
  obtain ⟨v, hv, hk⟩ := hb.bound key s hm
  exact ⟨v, hg.var hv, hk⟩

theorem Sound.result_of_grows {b b' : Builder} (hb : b.Sound) (hg : b.Grows b') :
    ∃ v, b'.locals.vars[0]? = some v ∧ v.kind = .result := by
  obtain ⟨v, hv, hk⟩ := hb.result
  exact ⟨v, hg.var hv, hk⟩

theorem Sound.loops_of_grows {b b' : Builder} (hb : b.Sound) (hg : b.Grows b') :
    ∀ frame ∈ b.loops, frame.onBreak < b'.nextLabel ∧ frame.onContinue < b'.nextLabel := by
  intro frame hf
  have hle := hg.nextLabel_le
  obtain ⟨h₁, h₂⟩ := hb.loops frame hf
  exact ⟨Nat.lt_of_lt_of_le h₁ hle, Nat.lt_of_lt_of_le h₂ hle⟩

theorem Sound.zero_lt {b : Builder} (hb : b.Sound) : 0 < b.nextSlot := by
  obtain ⟨v, hv, -⟩ := hb.result
  exact (List.getElem?_eq_some_iff.mp hv).1

theorem Sound.lookup_lt {b : Builder} (hb : b.Sound) {key : Symbol} {s : Slot}
    (h : b.locals.lookup? key = some s) : s < b.nextSlot :=
  (hb.bound key s (Locals.lookup?_mem h)).lt

theorem Sound.key_eq {b : Builder} (hb : b.Sound) {key key' : Symbol} {s : Slot}
    (h : b.locals.lookup? key = some s) (h' : b.locals.lookup? key' = some s) : key = key' := by
  have heq := List.inj_on_of_nodup_map hb.distinct (Locals.lookup?_mem h) (Locals.lookup?_mem h') rfl
  exact (Prod.mk.inj heq).1

theorem Step.sound {b b' : Builder} (h : Step b b') (hb : b.Sound) : b'.Sound := by
  have hg := h.grows
  have hres := hb.result_of_grows hg
  have hloops := hb.loops_of_grows hg
  have hfits := fun l block (hl : b.blocks[l]? = some block) => hb.fits hg hl
  have hnamed := fun key s (hm : (key, s) ∈ b.locals.bindings) => hb.named hg hm
  cases h with
  | grow =>
    refine ⟨hres, hnamed, hb.distinct, fun l block hl => ?_, hb.scopes, hloops⟩
    rcases Nat.lt_or_ge l b.nextLabel with hlt | hge
    · exact hfits l block ((getElem?_grow (Nat.ne_of_lt hlt)).symm.trans hl)
    · obtain ⟨rfl, rfl⟩ : l = b.nextLabel ∧ block = .empty b.stem b.nextLabel := by
        simp only [Builder.grow, List.getElem?_append_right hge, List.getElem?_singleton] at hl
        grind
      exact ⟨rfl, by simp [BasicBlock.empty], by simp [BasicBlock.empty]⟩
  | addTemporary ty => exact ⟨hres, hnamed, hb.distinct, hfits, hb.scopes, hloops⟩
  | addBound hk =>
    refine ⟨hres, fun k s hm => ?_, List.nodup_cons.mpr ⟨fun hm => ?_, hb.distinct⟩, hfits, hb.scopes,
      hloops⟩
    · rcases List.mem_cons.mp hm with heq | hm
      · obtain ⟨rfl, rfl⟩ := Prod.mk.inj heq
        exact ⟨_, List.getElem?_concat_length, hk⟩
      · exact hnamed k s hm
    · obtain ⟨p, hp, hslot⟩ := List.mem_map.mp hm
      exact Nat.ne_of_lt (hb.bound p.1 p.2 hp).lt hslot
  | @append l dst op span ho hd hs =>
    refine ⟨hres, hnamed, hb.distinct, fun m block hm => ?_, hb.scopes, hloops⟩
    by_cases hlm : m = l
    · subst hlm
      obtain ⟨old, hold, rfl⟩ : ∃ old, b.blocks[m]? = some old ∧
          old.append ⟨dst, op, b.scopes.current, span⟩ = block := by
        simpa [Builder.append] using hm
      have hfit := hfits m old hold
      refine ⟨hfit.id, fun i hi => ?_, hfit.terminator⟩
      rcases List.mem_append.mp hi with hi | hi
      · exact hfit.instructions i hi
      · obtain rfl := List.mem_singleton.mp hi
        exact ⟨hd, hs, hb.scopes.current⟩
    · exact hfits m block ((getElem?_append hlm).symm.trans hm)
  | @close l dst transfer span ho hd hs hsucc =>
    refine ⟨hres, hnamed, hb.distinct, fun m block hm => ?_, hb.scopes, hloops⟩
    by_cases hlm : m = l
    · subst hlm
      obtain ⟨old, hold, rfl⟩ : ∃ old, b.blocks[m]? = some old ∧
          old.close ⟨dst, transfer, b.scopes.current, span⟩ = block := by
        simpa [Builder.close] using hm
      have hfit := hfits m old hold
      refine ⟨hfit.id, hfit.instructions, fun t ht => ?_⟩
      obtain rfl := Option.some.inj ht
      exact ⟨hd, hs, hb.scopes.current, fun n hn => Nat.lt_of_lt_of_le (hsucc n hn) hg.nextLabel_le⟩
    · exact hfits m block ((getElem?_close hlm).symm.trans hm)
  | enterScope => exact ⟨hres, hnamed, hb.distinct, hfits, hb.scopes.enter, hloops⟩
  | exitScope => exact ⟨hres, hnamed, hb.distinct, hfits, hb.scopes.exit, hloops⟩
  | pushLoop h₁ h₂ =>
    refine ⟨hres, hnamed, hb.distinct, hfits, hb.scopes, fun frame hf => ?_⟩
    rcases List.mem_cons.mp hf with rfl | hf
    · exact ⟨h₁, h₂⟩
    · exact hloops frame hf
  | dropLoop =>
    exact ⟨hres, hnamed, hb.distinct, hfits, hb.scopes,
      fun frame hf => hloops frame (List.mem_of_mem_tail hf)⟩

theorem Steps.grows {b b' : Builder} (h : Steps b b') : b.Grows b' := by
  induction h with
  | refl => exact .refl b
  | tail _ hstep ih => exact ih.trans hstep.grows

theorem Steps.sound {b b' : Builder} (h : Steps b b') (hb : b.Sound) : b'.Sound := by
  induction h with
  | refl => exact hb
  | tail _ hstep ih => exact hstep.sound ih

end Builder

end FlowGraph

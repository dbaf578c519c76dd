import FlowGraph.Proofs.Growth

/-!
What writes a slot. A store changes what its destination refers to, not the slot, so it does not
count as a writer. Under every action of a builder the writers of a slot in a block only get more.
-/

namespace FlowGraph

inductive Action where
  | instruction (i : Instruction)
  | terminator (t : Terminator)

def Action.target? : Action → Option Slot
  | .instruction i => if i.op.isStore then none else some i.dst
  | .terminator t => t.dst

def BasicBlock.actions (block : BasicBlock) : List Action :=
  block.instructions.map .instruction ++ block.terminator.toList.map .terminator

def actionsAt (blocks : List BasicBlock) (l : Label) : List Action :=
  match blocks[l]? with
  | some block => block.actions
  | none => []

theorem actionsAt_eq {blocks : List BasicBlock} {l : Label} {block : BasicBlock}
    (h : blocks[l]? = some block) : actionsAt blocks l = block.actions := by
  simp [actionsAt, h]

theorem actionsAt_congr {blocks blocks' : List BasicBlock} {l : Label}
    (h : blocks'[l]? = blocks[l]?) : actionsAt blocks' l = actionsAt blocks l := by
  simp [actionsAt, h]

def writersAt (blocks : List BasicBlock) (l : Label) (s : Slot) : List Action :=
  (actionsAt blocks l).filter (·.target? = some s)

theorem writersAt_ne_nil {blocks : List BasicBlock} {l : Label} {block : BasicBlock} {a : Action}
    {s : Slot} (hb : blocks[l]? = some block) (ha : a ∈ block.actions) (ht : a.target? = some s) :
    writersAt blocks l s ≠ [] := by
  refine List.ne_nil_of_mem (List.mem_filter.mpr ⟨?_, decide_eq_true ht⟩)
  rwa [actionsAt_eq hb]

namespace Builder

variable {b : Builder} {l m : Label} {s : Slot} {span : Span}

@[simp] theorem actionsAt_grow : actionsAt b.grow.blocks l = actionsAt b.blocks l := by
  by_cases hl : l = b.nextLabel
  · subst hl
    simp [actionsAt, grow, BasicBlock.actions, BasicBlock.empty]
  · exact actionsAt_congr (getElem?_grow hl)

theorem actionsAt_append {dst : Slot} {op : Operation} (ho : b.IsOpen l) :
    actionsAt (b.append l dst op span).blocks m = actionsAt b.blocks m ++
      if m = l then [.instruction ⟨dst, op, b.scopes.current, span⟩] else [] := by
  by_cases hm : m = l
  · subst hm
    obtain ⟨block, hb, hopen⟩ := ho
    simp [actionsAt, append, hb, BasicBlock.actions, BasicBlock.append, hopen]
  · simp [actionsAt_congr (getElem?_append hm), hm]

theorem actionsAt_close {dst : Option Slot} {t : Transfer} (ho : b.IsOpen l) :
    actionsAt (b.close l dst t span).blocks m = actionsAt b.blocks m ++
      if m = l then [.terminator ⟨dst, t, b.scopes.current, span⟩] else [] := by
  by_cases hm : m = l
  · subst hm
    obtain ⟨block, hb, hopen⟩ := ho
    simp [actionsAt, close, hb, BasicBlock.actions, BasicBlock.close, hopen]
  · simp [actionsAt_congr (getElem?_close hm), hm]

@[simp] theorem writersAt_grow : writersAt b.grow.blocks l s = writersAt b.blocks l s := by
  simp [writersAt]

theorem writersAt_append {dst : Slot} {op : Operation} (ho : b.IsOpen l) :
    writersAt (b.append l dst op span).blocks m s = writersAt b.blocks m s ++
      if m = l ∧ op.isStore = false ∧ dst = s then [.instruction ⟨dst, op, b.scopes.current, span⟩]
      else [] := by
  rw [writersAt, actionsAt_append ho, List.filter_append, ← writersAt]
  by_cases hm : m = l <;> cases hstore : op.isStore <;>
    simp [hm, hstore, Action.target?, List.filter_singleton]

theorem writersAt_close {dst : Option Slot} {t : Transfer} (ho : b.IsOpen l) :
    writersAt (b.close l dst t span).blocks m s = writersAt b.blocks m s ++
      if m = l ∧ dst = some s then [.terminator ⟨dst, t, b.scopes.current, span⟩] else [] := by
  rw [writersAt, actionsAt_close ho, List.filter_append, ← writersAt]
  by_cases hm : m = l <;> by_cases hd : dst = some s <;> simp [hm, hd, Action.target?]

theorem Sound.writersAt_eq_nil (hb : b.Sound) (hs : b.nextSlot ≤ s) : writersAt b.blocks l s = [] := by
  refine List.filter_eq_nil_iff.mpr fun a ha => ?_
  rw [decide_eq_true_eq]
  unfold actionsAt at ha
  split at ha
  next block hl =>
    have hfit := hb.blocks l block hl
    simp only [BasicBlock.actions, List.mem_append, List.mem_map, Option.mem_toList] at ha
    rcases ha with ⟨i, hi, rfl⟩ | ⟨t, ht, rfl⟩
    · have := (hfit.instructions i hi).dst
      grind [Action.target?]
    · intro hd
      have := (hfit.terminator t ht).dst s hd
      lia
  next => simp at ha

end Builder

def Locals.IsTemporary (t : Locals) (s : Slot) : Prop :=
  ∃ v, t.vars[s]? = some v ∧ v.kind = .temporary

namespace Locals

variable {t : Locals} {s : Slot}

theorem IsTemporary.lt (h : t.IsTemporary s) : s < t.vars.length := by
  obtain ⟨v, hv, -⟩ := h
  exact (List.getElem?_eq_some_iff.mp hv).1

theorem IsNamed.not_isTemporary (h : t.IsNamed s) : ¬ t.IsTemporary s := by
  rintro ⟨v, hv, hk⟩
  obtain ⟨v', hv', hk'⟩ := h
  grind

end Locals

namespace Builder

theorem Grows.isTemporary {b b' : Builder} {s : Slot} (h : b.Grows b') (ht : b.locals.IsTemporary s) :
    b'.locals.IsTemporary s := by
  obtain ⟨v, hv, hk⟩ := ht
  exact ⟨v, h.var hv, hk⟩

theorem Grows.isTemporary_iff {b b' : Builder} {s : Slot} (h : b.Grows b') (hs : s < b.nextSlot) :
    b'.locals.IsTemporary s ↔ b.locals.IsTemporary s := by
  refine ⟨fun ⟨v, hv, hk⟩ => ⟨v, ?_, hk⟩, h.isTemporary⟩
  have hold := List.getElem?_eq_getElem hs
  rw [hold, ← h.var hold, hv]

theorem isTemporary_of_addBound {b : Builder} {name : String} {ty : Option Ty} {kind : VarKind}
    {key : Symbol} {s : Slot} (hk : kind = .argument ∨ kind = .declared)
    (h : (b.addBound name ty kind key).locals.IsTemporary s) : b.locals.IsTemporary s := by
  obtain ⟨v, hv, hkind⟩ := h
  have hv' : (b.locals.vars ++ [.ofName name ty kind])[s]? = some v := hv
  rcases Nat.lt_or_ge s b.nextSlot with hlt | hge
  · rw [List.getElem?_append_left hlt] at hv'
    exact ⟨v, hv', hkind⟩
  · rw [List.getElem?_append_right hge, List.getElem?_singleton] at hv'
    grind [Variable.ofName]

theorem Sound.result_not_isTemporary {b : Builder} (hb : b.Sound) : ¬ b.locals.IsTemporary 0 := by
  rintro ⟨v, hv, hk⟩
  obtain ⟨v', hv', hk'⟩ := hb.result
  grind

/-- Code is added, but no temporary that was there is written again. -/
structure Frame (b b' : Builder) : Prop where
  grows : b.Grows b'
  writes : ∀ l s, b.locals.IsTemporary s → writersAt b'.blocks l s = writersAt b.blocks l s

namespace Frame

variable {b b₁ b₂ : Builder} {l target : Label} {span : Span}

theorem refl (b : Builder) : b.Frame b := ⟨.refl b, fun _ _ _ => rfl⟩

theorem trans (h : b.Frame b₁) (h' : b₁.Frame b₂) : b.Frame b₂ where
  grows := h.grows.trans h'.grows
  writes l s hs := by rw [h'.writes l s (h.grows.isTemporary hs), h.writes l s hs]

theorem grow (h : b.Frame b₁) : b.Frame b₁.grow :=
  h.trans ⟨(Step.grow b₁).grows, fun _ _ _ => writersAt_grow⟩

theorem addTemporary (h : b.Frame b₁) (ty : Option Ty) : b.Frame (b₁.addTemporary ty) :=
  h.trans ⟨(Step.addTemporary b₁ ty).grows, fun _ _ _ => rfl⟩

theorem addBound (h : b.Frame b₁) {name : String} {ty : Option Ty} {kind : VarKind} {key : Symbol}
    (hk : kind = .argument ∨ kind = .declared) : b.Frame (b₁.addBound name ty kind key) :=
  h.trans ⟨(Step.addBound hk).grows, fun _ _ _ => rfl⟩

theorem append (h : b.Frame b₁) {dst : Slot} {op : Operation} (ho : b₁.IsOpen l)
    (hw : op.isStore = true ∨ ¬ b.locals.IsTemporary dst) : b.Frame (b₁.append l dst op span) where
  grows := h.grows.append ho
  writes m s hs := by
    rw [writersAt_append ho, h.writes m s hs]
    grind

theorem compute (h : b.Frame b₁) {ty : Option Ty} {op : Operation} (ho : b₁.IsOpen l) :
    b.Frame (b₁.compute l ty op span) := by
  refine (h.addTemporary ty).append ho (.inr fun ht => ?_)
  have := ht.lt
  have := h.grows.nextSlot_le
  lia

theorem close (h : b.Frame b₁) {t : Transfer} (ho : b₁.IsOpen l) :
    b.Frame (b₁.close l none t span) where
  grows := h.grows.close ho
  writes m s hs := by simp [writersAt_close ho, h.writes m s hs]

theorem gotoFrom (h : b.Frame b₁) {fin : Option Label} (ho : ∀ m, fin = some m → b₁.IsOpen m) :
    b.Frame (b₁.gotoFrom fin target span) := by
  cases fin with
  | none => exact h
  | some l => exact h.close (ho l rfl)

theorem advance (h : b.Frame b₁) {t : Transfer} (ho : b₁.IsOpen l) :
    b.Frame (b₁.grow.close l none t span) :=
  h.grow.close (isOpen_grow.mpr (.inl ho))

theorem enterScope (h : b.Frame b₁) : b.Frame b₁.enterScope :=
  h.trans ⟨(Step.enterScope b₁).grows, fun _ _ _ => rfl⟩

theorem exitScope (h : b.Frame b₁) : b.Frame b₁.exitScope :=
  h.trans ⟨(Step.exitScope b₁).grows, fun _ _ _ => rfl⟩

theorem pushLoop (h : b.Frame b₁) (frame : LoopFrame) : b.Frame (b₁.pushLoop frame) :=
  h.trans ⟨{ Grows.refl b₁ with }, fun _ _ _ => rfl⟩

theorem dropLoop (h : b.Frame b₁) : b.Frame b₁.dropLoop :=
  h.trans ⟨(Step.dropLoop b₁).grows, fun _ _ _ => rfl⟩

end Frame

/-- From `b'` on, nothing writes the temporaries that were added between `b` and `b'`. -/
structure Sealed (b b' bf : Builder) : Prop where
  grows : b'.Grows bf
  writes : ∀ l s, b.nextSlot ≤ s → b'.locals.IsTemporary s →
    writersAt bf.blocks l s = writersAt b'.blocks l s

theorem Frame.sealed {b b' bf : Builder} (h : b'.Frame bf) : Sealed b b' bf :=
  ⟨h.grows, fun l s _ => h.writes l s⟩

namespace Sealed

variable {b b₁ b₂ bf : Builder}

theorem before (h : Sealed b b₂ bf) (hf : b₁.Frame b₂) : Sealed b b₁ bf where
  grows := hf.grows.trans h.grows
  writes l s hle hs := by rw [h.writes l s hle (hf.grows.isTemporary hs), hf.writes l s hs]

theorem compute {l : Label} {ty : Option Ty} {op : Operation} {span : Span}
    (h : Sealed b (b₁.compute l ty op span) bf) (ho : b₁.IsOpen l) : Sealed b b₁ bf :=
  h.before ((Frame.refl b₁).compute ho)

theorem append {l : Label} {dst : Slot} {op : Operation} {span : Span}
    (h : Sealed b (b₁.append l dst op span) bf) (ho : b₁.IsOpen l) (hd : dst < b.nextSlot) :
    Sealed b b₁ bf where
  grows := ((Grows.refl b₁).append ho).trans h.grows
  writes m s hle hs := by
    rw [h.writes m s hle hs, writersAt_append ho]
    have hne : dst ≠ s := by lia
    simp [hne]

theorem after (h : Sealed b b₂ bf) (hle : b.nextSlot ≤ b₁.nextSlot) : Sealed b₁ b₂ bf where
  grows := h.grows
  writes l s hs := h.writes l s (Nat.le_trans hle hs)

end Sealed

end Builder

end FlowGraph

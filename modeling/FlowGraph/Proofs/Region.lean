import FlowGraph.Proofs.Run
import FlowGraph.Proofs.Writers

/-!
Lowering builds a region: code is added to the block it starts in and to new blocks, and in the end
at most one of these is open. While a region is built it owns several open blocks; each action says
what becomes of them.
-/

namespace FlowGraph

open Builder

theorem Builder.Frame.join {b b₁ : Builder} {l m : Label} {span : Span} (h : b.Frame b₁)
    (hl : b₁.IsOpen l) (hm : b₁.IsOpen m) (hne : m ≠ l) : b.Frame (b₁.join l m span) :=
  (h.grow.close (isOpen_grow.mpr (.inl hl))).close (by simp [isOpen_close, isOpen_grow, hm, hne])

theorem Builder.enterLoop_frame {b : Builder} {head : Label} {c : Placed} {span : Span}
    (ho : b.IsOpen c.block) : b.Frame (b.enterLoop head c span) :=
  ((Frame.refl b).grow.grow.close (by simp [ho])).pushLoop _

/-- From `b` to `b'` code was added to block `here` and to new blocks only, of which just those in
`owned` are open, and the place in the nesting of the source is as before. No temporary that was
there is written again. -/
structure Region (b : Builder) (here : Label) (b' : Builder) (owned : Label → Prop) : Prop where
  steps : Steps b b'
  keeps : ∀ l, l < b.nextLabel → l ≠ here → b'.blocks[l]? = b.blocks[l]?
  opens : ∀ l, b'.IsOpen l ↔ (b.IsOpen l ∧ l ≠ here) ∨ owned l
  place : ∀ l, owned l → l = here ∨ b.nextLabel ≤ l
  scope : b'.scopes.current = b.scopes.current
  loops : b'.loops = b.loops
  writes : ∀ l s, b.locals.IsTemporary s → writersAt b'.blocks l s = writersAt b.blocks l s

namespace Region

variable {b b₁ b₂ : Builder} {here l : Label} {owned owned' : Label → Prop} {span : Span}

theorem refl (ho : b.IsOpen here) : Region b here b (· = here) where
  steps := .refl
  keeps _ _ _ := rfl
  opens l := by grind
  place _ h := .inl h
  scope := rfl
  loops := rfl
  writes _ _ _ := rfl

theorem congr (h : Region b here b₁ owned) (he : ∀ l, owned l ↔ owned' l) :
    Region b here b₁ owned' := by
  obtain rfl : owned = owned' := funext fun l => propext (he l)
  exact h

theorem isOpen (h : Region b here b₁ owned) (hl : owned l) : b₁.IsOpen l :=
  (h.opens l).mpr (.inr hl)

theorem lt (h : Region b here b₁ owned) (hl : owned l) : l < b₁.nextLabel := (h.isOpen hl).lt

theorem nextLabel_le (h : Region b here b₁ owned) : b.nextLabel ≤ b₁.nextLabel :=
  h.steps.grows.nextLabel_le

theorem nextSlot_le (h : Region b here b₁ owned) : b.nextSlot ≤ b₁.nextSlot :=
  h.steps.grows.nextSlot_le

theorem sound (h : Region b here b₁ owned) (hb : b.Sound) : b₁.Sound := h.steps.sound hb

theorem frame (h : Region b here b₁ owned) : b.Frame b₁ := ⟨h.steps.grows, h.writes⟩

theorem ne_of_owned (h : Region b here b₁ owned) (hl : owned l) {m : Label} (hm : m < b.nextLabel)
    (hne : m ≠ here) : m ≠ l := by
  have := h.place l hl
  lia

theorem seq (h : Region b here b₁ owned) (hl : owned l) (h' : Region b₁ l b₂ owned') :
    Region b here b₂ fun m => (owned m ∧ m ≠ l) ∨ owned' m where
  steps := h.steps.trans h'.steps
  keeps m hm hne := by
    have hlt := Nat.lt_of_lt_of_le hm h.nextLabel_le
    rw [h'.keeps m hlt (h.ne_of_owned hl hm hne), h.keeps m hm hne]
  opens m := by
    have hne : b.IsOpen m → m ≠ here → m ≠ l := fun ho => h.ne_of_owned hl ho.lt
    grind [h.opens m, h'.opens m]
  place m hm := by
    have := h.nextLabel_le
    rcases hm with ⟨hm, -⟩ | hm
    · exact h.place m hm
    · have := h.place l hl
      have := h'.place m hm
      lia
  scope := h'.scope.trans h.scope
  loops := h'.loops.trans h.loops
  writes m s hs := by rw [h'.writes m s (h.steps.grows.isTemporary hs), h.writes m s hs]

theorem grow (h : Region b here b₁ owned) :
    Region b here b₁.grow fun l => owned l ∨ l = b₁.nextLabel where
  steps := h.steps.tail (.grow _)
  keeps m hm hne := by
    rw [getElem?_grow (Nat.ne_of_lt (Nat.lt_of_lt_of_le hm h.nextLabel_le)), h.keeps m hm hne]
  opens m := by grind [isOpen_grow, h.opens m]
  place m hm := by
    rcases hm with hm | rfl
    · exact h.place m hm
    · exact .inr h.nextLabel_le
  scope := h.scope
  loops := h.loops
  writes m s hs := by rw [writersAt_grow, h.writes m s hs]

theorem addTemporary (h : Region b here b₁ owned) (ty : Option Ty) :
    Region b here (b₁.addTemporary ty) owned :=
  { h with steps := h.steps.tail (.addTemporary _ ty) }

theorem addBound (h : Region b here b₁ owned) {name : String} {ty : Option Ty} {kind : VarKind}
    {key : Symbol} (hk : kind = .argument ∨ kind = .declared) :
    Region b here (b₁.addBound name ty kind key) owned :=
  { h with steps := h.steps.tail (.addBound hk) }

theorem append (h : Region b here b₁ owned) (hl : owned l) {dst : Slot} {op : Operation}
    (hd : dst < b₁.nextSlot) (hs : ∀ s ∈ op.sources, s < b₁.nextSlot)
    (hw : op.isStore = true ∨ ¬ b.locals.IsTemporary dst) :
    Region b here (b₁.append l dst op span) owned where
  steps := h.steps.tail (.append (h.isOpen hl) hd hs)
  keeps m hm hne := by rw [getElem?_append (h.ne_of_owned hl hm hne), h.keeps m hm hne]
  opens m := isOpen_append.trans (h.opens m)
  place := h.place
  scope := h.scope
  loops := h.loops
  writes m s hs := by
    rw [writersAt_append (h.isOpen hl), h.writes m s hs]
    grind

theorem not_isTemporary {s : Slot} (h : Region b here b₁ owned) (hs : b₁.nextSlot ≤ s) :
    ¬ b.locals.IsTemporary s := by
  intro ht
  have := ht.lt
  have := h.nextSlot_le
  lia

theorem move (h : Region b here b₁ owned) (hl : owned l) {dst source : Slot}
    (hd : dst < b₁.nextSlot) (hs : source < b₁.nextSlot) (hw : ¬ b.locals.IsTemporary dst) :
    Region b here (b₁.append l dst (.move source) span) owned :=
  h.append hl hd (by simpa [Operation.sources] using hs) (.inr hw)

theorem compute (h : Region b here b₁ owned) (hl : owned l) {ty : Option Ty} {op : Operation}
    (hs : ∀ s ∈ op.sources, s < b₁.nextSlot) : Region b here (b₁.compute l ty op span) owned := by
  refine (h.addTemporary ty).append hl (by simp) (fun s hm => ?_) (.inr (h.not_isTemporary ?_))
  · have := hs s hm
    simp
    lia
  · simp

theorem load (h : Region b here b₁ owned) (hl : owned l) {value : Literal} {ty : Option Ty} :
    Region b here (b₁.load l value ty span) owned :=
  h.compute hl (by simp [Operation.sources])

theorem close (h : Region b here b₁ owned) (hl : owned l) {dst : Option Slot} {t : Transfer}
    (hd : ∀ s ∈ dst, s < b₁.nextSlot ∧ ¬ b.locals.IsTemporary s)
    (hs : ∀ s ∈ t.sources, s < b₁.nextSlot) (ht : ∀ m ∈ t.successors, m < b₁.nextLabel) :
    Region b here (b₁.close l dst t span) fun m => owned m ∧ m ≠ l where
  steps := h.steps.tail (.close (h.isOpen hl) (fun s hm => (hd s hm).1) hs ht)
  keeps m hm hne := by rw [getElem?_close (h.ne_of_owned hl hm hne), h.keeps m hm hne]
  opens m := by
    have hne : b.IsOpen m → m ≠ here → m ≠ l := fun ho => h.ne_of_owned hl ho.lt
    grind [isOpen_close, h.opens m]
  place m hm := h.place m hm.1
  scope := h.scope
  loops := h.loops
  writes m s hs := by
    rw [writersAt_close (h.isOpen hl), h.writes m s hs]
    grind

theorem leave (h : Region b here b₁ (· = l)) {t : Transfer}
    (hs : ∀ s ∈ t.sources, s < b₁.nextSlot) (ht : ∀ m ∈ t.successors, m < b₁.nextLabel) :
    Region b here (b₁.close l none t span) fun m => none = some m :=
  (h.close rfl (by simp) hs ht).congr (by simp)

theorem goto (h : Region b here b₁ owned) (hl : owned l) {target : Label}
    (ht : target < b₁.nextLabel) :
    Region b here (b₁.close l none (.goto target) span) fun m => owned m ∧ m ≠ l :=
  h.close hl (by simp) (by simp [Transfer.sources]) (by simpa [Transfer.successors] using ht)

theorem gotoFrom (h : Region b here b₁ owned) {fin : Option Label} {target : Label}
    (hf : ∀ l, fin = some l → owned l) (ht : target < b₁.nextLabel) :
    Region b here (b₁.gotoFrom fin target span) fun m => owned m ∧ fin ≠ some m := by
  cases fin with
  | none => exact h.congr (by simp)
  | some l => exact (h.goto (hf l rfl) ht).congr (by grind)

theorem advance (h : Region b here b₁ (· = l)) (t : Transfer) (span : Span) (hs : t.sources = [])
    (ht : t.successors = [b₁.nextLabel]) :
    Region b here (b₁.grow.close l none t span) (· = b₁.nextLabel) := by
  have hlt := h.lt rfl
  refine (h.grow.close (.inl rfl) ?_ ?_ ?_).congr (by lia)
  · simp
  · simp [hs]
  · simp [ht]

theorem split (h : Region b here b₁ (· = l)) {cond : Slot} (hc : cond < b₁.nextSlot) :
    Region b here
      (b₁.grow.grow.close l none (.branch cond b₁.nextLabel (b₁.nextLabel + 1)) span)
      fun m => m = b₁.nextLabel ∨ m = b₁.nextLabel + 1 := by
  have hlt := h.lt rfl
  refine (h.grow.grow.close (.inl (.inl rfl)) ?_ ?_ ?_).congr fun m => ?_
  · simp
  · simpa [Transfer.sources] using hc
  · intro m hm
    simp [Transfer.successors] at hm ⊢
    lia
  · simp
    lia

theorem join {m : Label} (h : Region b here b₁ fun n => n = l ∨ n = m) (hne : m ≠ l) :
    Region b here (b₁.join l m span) (· = b₁.nextLabel) := by
  have hl := h.lt (.inl rfl)
  have hm := h.lt (.inr rfl)
  refine ((h.grow.goto (.inl (.inl rfl)) ?_).goto ⟨.inl (.inr rfl), hne⟩ ?_).congr (by lia)
  · simp
  · simp

theorem inScope (h : Region b.enterScope here b₁ owned) : Region b here b₁.exitScope owned where
  steps := (Relation.ReflTransGen.single (.enterScope b)).trans (h.steps.tail (.exitScope b₁))
  keeps := h.keeps
  opens := h.opens
  place := h.place
  scope := by
    obtain ⟨rest, hr⟩ := h.steps.grows.scopes
    have hcur : b₁.scopes.current = b.scopes.scopes.length := h.scope
    have hentry : b₁.scopes.scopes[b.scopes.scopes.length]? =
        some ⟨b.scopes.scopes.length, some b.scopes.current⟩ := by
      simp [← hr, ScopeTree.enter]
    simp [ScopeTree.exit, hcur, hentry]
  loops := h.loops
  writes := h.writes

theorem back_frame {fin : Option Label} {target : Label} (h : Region b here b₁ fun m => fin = some m) :
    b₁.Frame (b₁.gotoFrom fin target span).dropLoop :=
  ((Frame.refl b₁).gotoFrom fun _ hm => h.isOpen hm).dropLoop

theorem inLoop {frame : LoopFrame} (h : Region (b.pushLoop frame) here b₁ owned)
    (hbreak : frame.onBreak < b.nextLabel) (hcont : frame.onContinue < b.nextLabel) :
    Region b here b₁.dropLoop owned where
  steps := (Relation.ReflTransGen.single (.pushLoop hbreak hcont)).trans (h.steps.tail (.dropLoop b₁))
  keeps := h.keeps
  opens := h.opens
  place := h.place
  scope := h.scope
  loops := by simp [h.loops]
  writes := h.writes

end Region

/-- A region that computes values into `slots`, binds nothing and ends in the open block `last`. -/
structure Evaluation (b : Builder) (here : Label) (b' : Builder) (last : Label)
    (slots : List Slot) : Prop extends Region b here b' (· = last) where
  bindings : b'.locals.bindings = b.locals.bindings
  slots_lt : ∀ s ∈ slots, s < b'.nextSlot

namespace Evaluation

variable {b b₁ b₂ : Builder} {here l m : Label} {slots slots' : List Slot} {span : Span}

theorem refl (ho : b.IsOpen here) (hs : ∀ s ∈ slots, s < b.nextSlot) :
    Evaluation b here b here slots :=
  ⟨.refl ho, rfl, hs⟩

theorem open_last (h : Evaluation b here b₁ l slots) : b₁.IsOpen l := h.isOpen rfl

theorem keys (h : Evaluation b here b₁ l slots) : b₁.keys = b.keys := by
  simp only [Builder.keys, h.bindings]

theorem slot_congr {s s' : Slot} (h : Evaluation b here b₁ l [s]) (he : s = s') :
    Evaluation b here b₁ l [s'] := he ▸ h

theorem slot_lt {s : Slot} (h : Evaluation b here b₁ l [s]) : s < b₁.nextSlot :=
  h.slots_lt s (by simp)

theorem seq (h : Evaluation b here b₁ l slots) (h' : Evaluation b₁ l b₂ m slots') :
    Evaluation b here b₂ m (slots ++ slots') where
  toRegion := (h.toRegion.seq rfl h'.toRegion).congr (by simp)
  bindings := h'.bindings.trans h.bindings
  slots_lt s hs := by
    rcases List.mem_append.mp hs with hs | hs
    · exact Nat.lt_of_lt_of_le (h.slots_lt s hs) h'.nextSlot_le
    · exact h'.slots_lt s hs

theorem compute (h : Evaluation b here b₁ l slots) {ty : Option Ty} {op : Operation}
    (hs : op.sources ⊆ slots) :
    Evaluation b here (b₁.compute l ty op span) l [b₁.nextSlot] where
  toRegion := h.toRegion.compute rfl fun s hm => h.slots_lt s (hs hm)
  bindings := h.bindings
  slots_lt s hm := by
    obtain rfl := List.mem_singleton.mp hm
    simp [Builder.compute]

theorem append (h : Evaluation b here b₁ l slots) {dst : Slot} {op : Operation} (hd : dst ∈ slots)
    (hs : op.sources ⊆ slots) (hw : op.isStore = true ∨ ¬ b.locals.IsTemporary dst) :
    Evaluation b here (b₁.append l dst op span) l [] where
  toRegion := h.toRegion.append rfl (h.slots_lt dst hd) (fun s hm => h.slots_lt s (hs hm)) hw
  bindings := h.bindings
  slots_lt := by simp

theorem load (h : Evaluation b here b₁ l slots) {value : Literal} {ty : Option Ty} :
    Evaluation b here (b₁.load l value ty span) l (slots ++ [b₁.nextSlot]) where
  toRegion := h.toRegion.load rfl
  bindings := h.bindings
  slots_lt s hm := by
    rcases List.mem_append.mp hm with hm | hm
    · exact Nat.lt_of_lt_of_le (h.slots_lt s hm) (by simp [Builder.load, Builder.compute])
    · obtain rfl := List.mem_singleton.mp hm
      simp [Builder.load, Builder.compute]

theorem loadName (h : Evaluation b here b₁ l slots) (name : Ident) :
    Evaluation b here (b₁.loadName l name) l (slots ++ [b₁.nextSlot]) := h.load

theorem call (h : Evaluation b here b₁ l slots) {note : Note} {callee : Callee} :
    Evaluation b here (b₁.call l note slots callee) b₁.nextLabel [b₁.nextSlot] where
  toRegion := by
    have hlt := h.lt rfl
    refine ((h.toRegion.grow.addTemporary note.ty).close (.inl rfl) ?_ ?_ ?_).congr (by lia)
    · simpa using h.not_isTemporary (Nat.le_refl b₁.nextSlot)
    · intro s hm
      have := h.slots_lt s hm
      simp
      lia
    · simp [Transfer.successors]
  bindings := h.bindings
  slots_lt s hm := by
    obtain rfl := List.mem_singleton.mp hm
    simp [Builder.call]

theorem result {r : Placed} (hb : b.Sound) (h : Evaluation b here b₁ r.block [r.slot]) :
    Region b here (b₁.result r span) fun m => none = some m :=
  (h.toRegion.move rfl (h.sound hb).zero_lt h.slot_lt hb.result_not_isTemporary).leave
    (by simp [Transfer.sources]) (by simp [Transfer.successors])

section Ternary

variable {b₃ : Builder} {c x y : Placed} {note : Note} {span' : Span}

theorem fork (hc : Evaluation b here b₁ c.block [c.slot]) :
    Region b here (b₁.fork c note) fun m => m = b₁.nextLabel ∨ m = b₁.nextLabel + 1 := by
  refine (hc.toRegion.addTemporary note.ty).split ?_
  have := hc.slots_lt c.slot (by simp)
  simp
  lia

theorem nextSlot_lt_of_fork (hx : Evaluation (b₁.fork c note) l b₂ m slots) :
    b₁.nextSlot < b₂.nextSlot := by
  have hle := hx.nextSlot_le
  simp [Builder.fork] at hle
  lia

theorem firstArm (span : Span) (hc : Evaluation b here b₁ c.block [c.slot])
    (hx : Evaluation (b₁.fork c note) b₁.nextLabel b₂ x.block [x.slot]) :
    Region b here (b₂.append x.block b₁.nextSlot (.move x.slot) span)
      fun m => m = x.block ∨ m = b₁.nextLabel + 1 := by
  have hx' := hx.place x.block rfl
  simp [Builder.fork] at hx'
  exact ((hc.fork.seq (.inl rfl) hx.toRegion).move (.inr rfl) hx.nextSlot_lt_of_fork
    hx.slot_lt (hc.not_isTemporary (Nat.le_refl _))).congr (by lia)

theorem arms_ne (hx : Evaluation (b₁.fork c note) b₁.nextLabel b₂ x.block [x.slot])
    (hy : Evaluation (b₂.append x.block b₁.nextSlot (.move x.slot) span) (b₁.nextLabel + 1) b₃ y.block
      [y.slot]) : y.block ≠ x.block ∧ x.block ≠ b₁.nextLabel + 1 := by
  have hx' := hx.place x.block rfl
  have hy' := hy.place y.block rfl
  have hlt := hx.lt rfl
  -- What the first arm opens is there before the second one begins.
  simp [Builder.fork] at hx' hy'
  lia

theorem arms_open (span' : Span) (hx : Evaluation (b₁.fork c note) b₁.nextLabel b₂ x.block [x.slot])
    (hy : Evaluation (b₂.append x.block b₁.nextSlot (.move x.slot) span) (b₁.nextLabel + 1) b₃ y.block
      [y.slot]) :
    (b₃.append y.block b₁.nextSlot (.move y.slot) span').IsOpen x.block ∧
      (b₃.append y.block b₁.nextSlot (.move y.slot) span').IsOpen y.block := by
  have hleft := (hy.opens x.block).mpr (.inl ⟨isOpen_append.mpr hx.open_last, (hx.arms_ne hy).2⟩)
  exact ⟨isOpen_append.mpr hleft, isOpen_append.mpr hy.open_last⟩

theorem arms_sealed {bf : Builder} (hx : Evaluation (b₁.fork c note) b₁.nextLabel b₂ x.block [x.slot])
    (hy : Evaluation (b₂.append x.block b₁.nextSlot (.move x.slot) span) (b₁.nextLabel + 1) b₃ y.block
      [y.slot])
    (h : Sealed b (b₃.append y.block b₁.nextSlot (.move y.slot) span') bf)
    (hle : b.nextSlot ≤ b₁.nextSlot) :
    Sealed (b₁.fork c note) b₂ bf ∧
      Sealed (b₂.append x.block b₁.nextSlot (.move x.slot) span) b₃ bf := by
  have hlt := hx.nextSlot_lt_of_fork
  -- Both arms write the result, so they are sealed from the slot behind it on.
  have h₀ : Sealed (b₁.fork c note) (b₃.append y.block b₁.nextSlot (.move y.slot) span') bf :=
    h.after (by simp [Builder.fork]; lia)
  have h₁ : Sealed (b₁.fork c note) b₃ bf := h₀.append hy.open_last (by simp [Builder.fork])
  constructor
  · exact (h₁.before hy.frame).append hx.open_last (by simp [Builder.fork])
  · exact h₁.after hx.nextSlot_le

theorem secondArm (hc : Evaluation b here b₁ c.block [c.slot])
    (hx : Evaluation (b₁.fork c note) b₁.nextLabel b₂ x.block [x.slot])
    (hy : Evaluation (b₂.append x.block b₁.nextSlot (.move x.slot) span) (b₁.nextLabel + 1) b₃ y.block
      [y.slot]) :
    Region b here (b₃.append y.block b₁.nextSlot (.move y.slot) span')
      fun m => m = x.block ∨ m = y.block := by
  have hne := hx.arms_ne hy
  have hslot : b₁.nextSlot < b₃.nextSlot :=
    Nat.lt_of_lt_of_le hx.nextSlot_lt_of_fork hy.nextSlot_le
  exact (((hc.firstArm span hx).seq (.inr rfl) hy.toRegion).move (.inr rfl) hslot hy.slot_lt
    (hc.not_isTemporary (Nat.le_refl _))).congr (by lia)

theorem ternary (hc : Evaluation b here b₁ c.block [c.slot])
    (hx : Evaluation (b₁.fork c note) b₁.nextLabel b₂ x.block [x.slot])
    (hy : Evaluation (b₂.append x.block b₁.nextSlot (.move x.slot) span) (b₁.nextLabel + 1) b₃ y.block
      [y.slot]) :
    Evaluation b here
      ((b₃.append y.block b₁.nextSlot (.move y.slot) span').join x.block y.block note.span)
      b₃.nextLabel [b₁.nextSlot] := by
  refine ⟨?_, ?_, ?_⟩
  · simpa using (hc.secondArm hx hy).join (hx.arms_ne hy).1
  · exact hy.bindings.trans (hx.bindings.trans hc.bindings)
  · intro s hm
    obtain rfl := List.mem_singleton.mp hm
    simpa [Builder.join] using Nat.lt_of_lt_of_le hx.nextSlot_lt_of_fork hy.nextSlot_le

end Ternary

section Conditional

variable {b₃ : Builder} {c : Placed} {thenEnd elseEnd : Option Label}

theorem cond_open (hc : Evaluation b here b₁ c.block [c.slot])
    (hbody : Region b₁.grow b₁.nextLabel b₂ fun m => thenEnd = some m) : b₂.IsOpen c.block := by
  have hlt := hc.lt rfl
  exact (hbody.opens _).mpr (.inl ⟨isOpen_grow.mpr (.inl hc.open_last), by lia⟩)

theorem thenDone (span : Span) (hc : Evaluation b here b₁ c.block [c.slot])
    (hbody : Region b₁.grow b₁.nextLabel b₂ fun m => thenEnd = some m) :
    Region b here (b₂.grow.close c.block none (.branch c.slot b₁.nextLabel b₂.nextLabel) span)
      fun m => thenEnd = some m ∨ m = b₂.nextLabel := by
  have hclt := hc.lt rfl
  have hlt := hbody.nextLabel_le
  have hslot := Nat.lt_of_lt_of_le hc.slot_lt hbody.nextSlot_le
  have hplace := hbody.place c.block
  simp at hlt hplace
  refine ((hc.toRegion.grow.seq (.inr rfl) hbody).grow.close (.inl (.inl ⟨.inl rfl, ?_⟩)) ?_ ?_
    ?_).congr ?_
  · lia
  · simp
  · simpa [Transfer.sources] using hslot
  · intro m hm
    simp [Transfer.successors] at hm ⊢
    lia
  · grind

theorem thenDone_frame (span : Span) (hc : Evaluation b here b₁ c.block [c.slot])
    (hbody : Region b₁.grow b₁.nextLabel b₂ fun m => thenEnd = some m) :
    b₂.Frame (b₂.grow.close c.block none (.branch c.slot b₁.nextLabel b₂.nextLabel) span) :=
  (Frame.refl b₂).advance (hc.cond_open hbody)

theorem ifThen_frame (hc : Evaluation b here b₁ c.block [c.slot])
    (hbody : Region b₁.grow b₁.nextLabel b₂ fun m => thenEnd = some m) :
    b₂.Frame
      ((b₂.grow.close c.block none (.branch c.slot b₁.nextLabel b₂.nextLabel) span).gotoFrom thenEnd
        b₂.nextLabel span) :=
  (hc.thenDone_frame span hbody).gotoFrom fun _ hm => (hc.thenDone span hbody).isOpen (.inl hm)

theorem ifThen (hc : Evaluation b here b₁ c.block [c.slot])
    (hbody : Region b₁.grow b₁.nextLabel b₂ fun m => thenEnd = some m) :
    Region b here
      ((b₂.grow.close c.block none (.branch c.slot b₁.nextLabel b₂.nextLabel) span).gotoFrom thenEnd
        b₂.nextLabel span) fun m => some b₂.nextLabel = some m := by
  have hlt := fun m (hm : thenEnd = some m) => hbody.lt hm
  exact ((hc.thenDone span hbody).gotoFrom (fun m => .inl) (by simp)).congr (by grind)

section Otherwise

variable (hc : Evaluation b here b₁ c.block [c.slot])
  (hbody : Region b₁.grow b₁.nextLabel b₂ fun m => thenEnd = some m)
  (helse : Region (b₂.grow.close c.block none (.branch c.slot b₁.nextLabel b₂.nextLabel) span)
    b₂.nextLabel b₃ fun m => elseEnd = some m)

include hbody helse

theorem ends_ne : thenEnd = some l → elseEnd ≠ some l := by
  intro hl hl'
  have hlt := hbody.lt hl
  have hplace := helse.place l hl'
  simp at hplace
  lia

include hc

theorem elseDone : Region b here (b₃.grow.gotoFrom elseEnd b₃.nextLabel span)
    fun m => thenEnd = some m ∨ m = b₃.nextLabel := by
  have hlt := fun m (hm : thenEnd = some m) => hbody.lt hm
  have hlt' := fun m (hm : elseEnd = some m) => helse.lt hm
  have hne := fun m (hm : thenEnd = some m) => ends_ne hbody helse hm
  have h₃ := ((hc.thenDone span hbody).seq (.inr rfl) helse).grow
  exact (h₃.gotoFrom (fun m hm => .inl (.inr hm)) (by simp)).congr (by grind)

theorem ifElse_frame :
    b₃.Frame ((b₃.grow.gotoFrom elseEnd b₃.nextLabel span).gotoFrom thenEnd b₃.nextLabel span) := by
  have hopen := fun m (hm : elseEnd = some m) => isOpen_grow.mpr (.inl (helse.isOpen hm))
  exact ((Frame.refl b₃).grow.gotoFrom hopen).gotoFrom fun m hm => (hc.elseDone hbody helse).isOpen (.inl hm)

theorem ifElse :
    Region b here ((b₃.grow.gotoFrom elseEnd b₃.nextLabel span).gotoFrom thenEnd b₃.nextLabel span)
      fun m => some b₃.nextLabel = some m := by
  have hle := helse.nextLabel_le
  have hlt := fun m (hm : thenEnd = some m) => hbody.lt hm
  simp at hle
  refine ((hc.elseDone hbody helse).gotoFrom (fun m hm => .inl hm) ?_).congr (by grind)
  cases elseEnd <;> simp [Builder.gotoFrom]

end Otherwise

end Conditional

end Evaluation

mutual

theorem ExprRun.evaluation {env : Env} {e : Expr} {here : Label} {b b' : Builder} {r : Placed}
    (h : ExprRun env e here b r b') (hb : b.Sound) (ho : b.IsOpen here) :
    Evaluation b here b' r.block [r.slot] := by
  have hr : Evaluation b here b here [] := .refl ho (by simp)
  cases h with
  | literal => exact hr.load
  | «variable» hslot => exact .refl ho (by simpa using hb.lookup_lt hslot)
  | constant hnone hc => exact hr.load
  | binary hop hl hrhs =>
    have h₁ := hl.evaluation hb ho
    have h₂ := hrhs.evaluation (h₁.sound hb) h₁.open_last
    exact (h₁.seq h₂).compute (by simp [Operation.sources])
  | unary hop hv => exact (hv.evaluation hb ho).compute (by simp [Operation.sources])
  | call hcallee hargs => exact (hargs.evaluation hb ho).call
  | index hk hc =>
    have h₁ := hk.evaluation hb ho
    have h₂ := hc.evaluation (h₁.sound hb) h₁.open_last
    exact (h₁.seq h₂).compute (by simp [Operation.sources])
  | list hargs =>
    exact ((hargs.evaluation hb ho).load.compute (by simp [Operation.sources])).slot_congr
      (nextSlot_load ..)
  | cast hv => exact (hv.evaluation hb ho).compute (by simp [Operation.sources])
  | test hv => exact (hv.evaluation hb ho).compute (by simp [Operation.sources])
  | group hi => exact hi.evaluation hb ho
  | wildcard => exact ⟨hr.toRegion.addTemporary none, rfl, by simp⟩
  | field hv =>
    exact ((hv.evaluation hb ho).load.compute (by simp [Operation.sources])).slot_congr
      (nextSlot_load ..)
  | mapping hf => exact (hf.evaluation hb ho).compute (by simp [Operation.sources])
  | @ternary _ _ whenTrue _ _ _ _ _ _ _ _ _ hc hx hy =>
    have h₁ := hc.evaluation hb ho
    have h₂ := hx.evaluation (h₁.fork.sound hb) (h₁.fork.isOpen (.inl rfl))
    have harm := h₁.firstArm whenTrue.span h₂
    exact h₁.ternary h₂ (hy.evaluation (harm.sound hb) (harm.isOpen (.inr rfl)))

theorem ArgsRun.evaluation {env : Env} {es : List Expr} {here last : Label} {b b' : Builder}
    {slots : List Slot} (h : ArgsRun env es here b slots last b') (hb : b.Sound)
    (ho : b.IsOpen here) : Evaluation b here b' last slots := by
  match h with
  | .nil => exact .refl ho (by simp)
  | .cons he hes =>
    have h₁ := he.evaluation hb ho
    exact h₁.seq (hes.evaluation (h₁.sound hb) h₁.open_last)

theorem FieldsRun.evaluation {env : Env} {fields : List (Ident × Expr)} {here last : Label}
    {b b' : Builder} {entries : List MapEntry} (h : FieldsRun env fields here b entries last b')
    (hb : b.Sound) (ho : b.IsOpen here) :
    Evaluation b here b' last (entries.flatMap MapEntry.sources) := by
  match h with
  | .nil => exact .refl ho (by simp)
  | @FieldsRun.cons _ name _ _ _ _ _ _ _ _ _ he hfields =>
    have hr : Evaluation b here b here [] := .refl ho (by simp)
    have h₀ := hr.loadName name
    have h₁ := he.evaluation (h₀.sound hb) h₀.open_last
    have h₂ := hfields.evaluation (h₁.sound (h₀.sound hb)) h₁.open_last
    simpa [MapEntry.sources] using (h₀.seq h₁).seq h₂

end

theorem Access.loadFrom_isStore (container : Expr) : (Access.loadFrom container).isStore = false := by
  unfold Access.loadFrom
  split <;> rfl

theorem Access.storeInto_isStore (container : Expr) : (Access.storeInto container).isStore = true := by
  unfold Access.storeInto
  split <;> rfl

theorem StoreRun.evaluation {env : Env} {target : Expr} {value : Placed} {span : Span} {b b' : Builder}
    {last : Label} (h : StoreRun env target value span b last b') (hb : b.Sound)
    (ho : b.IsOpen value.block) (hv : value.slot < b.nextSlot) :
    Evaluation b value.block b' last [] := by
  have hr : Evaluation b value.block b value.block [value.slot] := .refl ho (by simpa using hv)
  cases h with
  | @«variable» _ _ _ _ _ _ slot hslot =>
    have hslots : Evaluation b value.block b value.block [slot, value.slot] :=
      .refl ho (by simpa using ⟨hb.lookup_lt hslot, hv⟩)
    have hw := (hb.bound _ _ (Locals.lookup?_mem hslot)).not_isTemporary
    exact hslots.append (by simp) (by simp [Operation.sources]) (.inr hw)
  | index hbase hkey =>
    have h₁ := hbase.evaluation hb ho
    have h₂ := hkey.evaluation (h₁.sound hb) h₁.open_last
    exact ((hr.seq h₁).seq h₂).append (by simp) (by simp [Operation.sources])
      (.inl (Access.storeInto_isStore _))
  | field hbase =>
    have h₁ := hbase.evaluation hb ho
    exact (hr.seq h₁).load.append (by simp) (by simp [Operation.sources]) (.inl rfl)
  | wildcard => exact ⟨(hr.compute (by simp [Operation.sources])).toRegion, rfl, by simp⟩

namespace Region

variable {b b₁ b₂ : Builder} {here : Label} {c : Placed} {span span' : Span} {bodyEnd : Option Label}

section Loop

variable (h : Region b here (b.grow.close here none (.goto b.nextLabel) span) (· = b.nextLabel))
  (hc : Evaluation (b.grow.close here none (.goto b.nextLabel) span) b.nextLabel b₁ c.block [c.slot])

include h hc

theorem enterLoop (span' : Span) :
    Region b here
      (b₁.grow.grow.close c.block none (.branch c.slot b₁.nextLabel (b₁.nextLabel + 1)) span')
      fun m => m = b₁.nextLabel ∨ m = b₁.nextLabel + 1 := by
  have hcond : Region b here b₁ (· = c.block) := (h.seq rfl hc.toRegion).congr (by simp)
  exact hcond.split hc.slot_lt

theorem enterLoop_sound (hb : b.Sound) : (b₁.enterLoop b.nextLabel c span').Sound := by
  have hlt := h.lt rfl
  have hle := hc.nextLabel_le
  refine (Step.pushLoop ?_ ?_).sound ((h.enterLoop hc span').sound hb)
  · simp
  · simp at hle ⊢
    lia

theorem whileLoop
    (hbody : Region (b₁.enterLoop b.nextLabel c span') b₁.nextLabel b₂ fun m => bodyEnd = some m) :
    Region b here (b₂.gotoFrom bodyEnd b.nextLabel span').dropLoop
      fun m => some (b₁.nextLabel + 1) = some m := by
  have hle := hc.nextLabel_le
  have hle' := hbody.nextLabel_le
  have hplace := hbody.place (b₁.nextLabel + 1)
  simp [Builder.enterLoop] at hle hle' hplace
  have hback : Region _ b₁.nextLabel (b₂.gotoFrom bodyEnd b.nextLabel span') _ :=
    hbody.gotoFrom (fun m hm => hm) (by simp; lia)
  have hloop := hback.inLoop (by simp) (by simp; lia)
  exact ((h.enterLoop hc span').seq (.inl rfl) hloop).congr (by grind)

end Loop

end Region

mutual

theorem StmtRun.region {env : Env} {s : Stmt} {here : Label} {b b' : Builder} {out : Option Label}
    (h : StmtRun env s here b out b') (hb : b.Sound) (ho : b.IsOpen here) :
    Region b here b' fun l => out = some l := by
  have hr : Region b here b (· = here) := .refl ho
  cases h with
  | expr hv => exact (hv.evaluation hb ho).congr (by grind)
  | block hbody => exact hbody.region hb ho
  | ifThen hc hbody =>
    have h₁ := hc.evaluation hb ho
    have h₂ := hbody.region (h₁.toRegion.grow.sound hb) (h₁.toRegion.grow.isOpen (.inr rfl))
    exact h₁.ifThen h₂
  | @ifElse span _ _ _ _ _ _ _ _ _ _ _ hc hbody helse =>
    have h₁ := hc.evaluation hb ho
    have h₂ := hbody.region (h₁.toRegion.grow.sound hb) (h₁.toRegion.grow.isOpen (.inr rfl))
    have h₃ := h₁.thenDone span h₂
    exact h₁.ifElse h₂ (helse.region (h₃.sound hb) (h₃.isOpen (.inr rfl)))
  | @whileLoop span _ _ _ _ c b₁ bodyEnd b₂ hc hbody =>
    have h₀ := hr.advance (.goto b.nextLabel) span rfl rfl
    have h₁ := hc.evaluation (h₀.sound hb) (h₀.isOpen rfl)
    have h₂ := h₀.enterLoop h₁ span
    have h₃ := hbody.region (h₀.enterLoop_sound h₁ hb) (h₂.isOpen (.inl rfl))
    exact h₀.whileLoop h₁ h₃
  | ret => exact hr.leave (by simp [Transfer.sources]) (by simp [Transfer.successors])
  | retValue hv => exact (hv.evaluation hb ho).result hb
  | breakLoop hf =>
    have hlt := (hb.loops _ (List.mem_of_head? hf)).1
    exact hr.leave (by simp [Transfer.sources]) (by simpa [Transfer.successors] using hlt)
  | continueLoop hf =>
    have hlt := (hb.loops _ (List.mem_of_head? hf)).2
    exact hr.leave (by simp [Transfer.sources]) (by simpa [Transfer.successors] using hlt)
  | declare hi => exact (hr.addBound (.inr rfl)).congr (by grind)
  | define hi hv =>
    have h₁ := hv.evaluation hb ho
    have hslot := h₁.slot_lt
    refine ((h₁.toRegion.addBound (.inr rfl)).move rfl ?_ ?_ ?_).congr (by grind)
    · simp
    · simp
      lia
    · exact h₁.not_isTemporary (Nat.le_refl _)
  | assign hv hstore =>
    have h₁ := hv.evaluation hb ho
    have h₂ := hstore.evaluation (h₁.sound hb) h₁.open_last h₁.slot_lt
    exact (h₁.seq h₂).congr (by grind)
  | update hv hstore =>
    have h₁ := hv.evaluation hb ho
    have h₂ := hstore.evaluation (h₁.sound hb) h₁.open_last h₁.slot_lt
    exact (h₁.seq h₂).congr (by grind)
  | panic hv =>
    have h₁ := hv.evaluation hb ho
    exact h₁.leave (by simpa [Transfer.sources] using h₁.slots_lt) (by simp [Transfer.successors])
  | @lockLeft span _ _ _ _ hbody =>
    have h₀ := hr.advance (.lock b.nextLabel) span rfl rfl
    exact (h₀.seq rfl (hbody.region (h₀.sound hb) (h₀.isOpen rfl))).congr (by grind)
  | @lock span _ _ _ last b₁ hbody =>
    have h₀ := hr.advance (.lock b.nextLabel) span rfl rfl
    have h₁ := h₀.seq rfl (hbody.region (h₀.sound hb) (h₀.isOpen rfl))
    have hlast : Region b here b₁ (· = last) := h₁.congr (by grind)
    exact (hlast.advance (.unlock b₁.nextLabel) span rfl rfl).congr (by grind)

theorem BlockRun.region {env : Env} {body : Block} {here : Label} {b b' : Builder}
    {out : Option Label} (h : BlockRun env body here b out b') (hb : b.Sound) (ho : b.IsOpen here) :
    Region b here b' fun l => out = some l := by
  match h with
  | .mk hstmts => exact (hstmts.region ((Step.enterScope b).sound hb) ho).inScope

theorem StmtsRun.region {env : Env} {stmts : List Stmt} {here : Label} {b b' : Builder}
    {out : Option Label} (h : StmtsRun env stmts here b out b') (hb : b.Sound) (ho : b.IsOpen here) :
    Region b here b' fun l => out = some l := by
  match h with
  | .nil => exact (Region.refl ho).congr (by grind)
  | .next hs hstmts =>
    have h₁ := hs.region hb ho
    exact (h₁.seq rfl (hstmts.region (h₁.sound hb) (h₁.isOpen rfl))).congr (by grind)
  | .leave hs => exact hs.region hb ho

end

end FlowGraph

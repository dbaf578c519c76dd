import FlowGraph.Proofs.Function

/-!
A certificate that slots are written before they are read: it says for each block which slots are
known when control comes to it. Code that is added to a builder extends the certificate to the new
blocks and leaves it as it is for the old ones.
-/

namespace FlowGraph

open Builder

namespace Action

def reads : Action → List Slot
  | .instruction i => if i.op.isStore then i.dst :: i.sources else i.sources
  | .terminator t => t.sources

inductive Writes : Action → Slot → Prop
  | instruction {i} : i.op.isStore = false → Writes (.instruction i) i.dst
  | call {s args callee isVirtual next scope span} :
    Writes (.terminator ⟨some s, .call args callee isVirtual next, scope, span⟩) s

end Action

/-- For each block the slots that are known when control comes to it. -/
abbrev Knowledge := Label → Slot → Prop

def Knows (K : Knowledge) (b : Builder) (l : Label) (s : Slot) : Prop :=
  K l s ∨ ∃ a ∈ actionsAt b.blocks l, a.Writes s

/-- Every block reads only what it knows and passes on only what it knows, as far as the slots in
`temp` go. -/
structure Justified (temp : Slot → Prop) (K : Knowledge) (b : Builder) : Prop where
  reads : ∀ l i a, (actionsAt b.blocks l)[i]? = some a → ∀ s ∈ a.reads, temp s →
    K l s ∨ ∃ w ∈ (actionsAt b.blocks l).take i, w.Writes s
  onward : ∀ l t, .terminator t ∈ actionsAt b.blocks l → ∀ m ∈ t.successors, ∀ s, K m s →
    Knows K b l s

theorem Builder.Grows.actionsAt_subset {b b' : Builder} (h : b.Grows b') (l : Label) :
    actionsAt b.blocks l ⊆ actionsAt b'.blocks l := by
  cases hl : b.blocks[l]? with
  | none => simp [actionsAt, hl]
  | some block =>
    obtain ⟨block', hl', hgrows⟩ := h.blocks l block hl
    rw [actionsAt_eq hl, actionsAt_eq hl']
    cases ht : block.terminator with
    | none =>
      intro a ha
      simp only [BasicBlock.actions, ht, Option.toList_none, List.map_nil, List.append_nil] at ha
      exact List.mem_append_left _ (List.map_subset _ hgrows.instructions.subset ha)
    | some t =>
      rw [hgrows.closed (by simp [ht])]
      exact List.Subset.refl _

theorem terminator_mem_actionsAt {blocks : List BasicBlock} {l : Label} {t : Terminator} :
    .terminator t ∈ actionsAt blocks l ↔ ∃ block, blocks[l]? = some block ∧ block.terminator = some t := by
  cases hl : blocks[l]? <;> simp [actionsAt, hl, BasicBlock.actions]

theorem Knows.mono {K K' : Knowledge} {b b' : Builder} {l : Label} {s : Slot} (h : Knows K b l s)
    (hg : b.Grows b') (hK : K' l = K l) : Knows K' b' l s := by
  rcases h with h | ⟨a, ha, hw⟩
  · exact .inl (hK ▸ h)
  · exact .inr ⟨a, hg.actionsAt_subset l ha, hw⟩

theorem knows_append {K : Knowledge} {b : Builder} {l : Label} {dst : Slot} {op : Operation} {span : Span}
    (ho : b.IsOpen l) (hop : op.isStore = false) : Knows K (b.append l dst op span) l dst := by
  refine .inr ⟨.instruction ⟨dst, op, b.scopes.current, span⟩, ?_, .instruction hop⟩
  simp [actionsAt_append ho]

namespace Justified

variable {temp : Slot → Prop} {K : Knowledge} {b b' : Builder} {l : Label} {span : Span}

theorem snoc {a : Action} (h : Justified temp K b)
    (hb' : ∀ m, actionsAt b'.blocks m = actionsAt b.blocks m ++ if m = l then [a] else [])
    (hreads : ∀ s ∈ a.reads, temp s → Knows K b l s)
    (honward : ∀ t, a = .terminator t → ∀ m ∈ t.successors, ∀ s, K m s → Knows K b l s ∨ a.Writes s) :
    Justified temp K b' := by
  have hmono : ∀ m s, Knows K b m s → Knows K b' m s := by
    intro m s hk
    rcases hk with hk | ⟨w, hw, hs⟩
    · exact .inl hk
    · exact .inr ⟨w, hb' m ▸ List.mem_append_left _ hw, hs⟩
  constructor
  · intro m i c hc s hs htemp
    rw [hb'] at hc ⊢
    rcases Nat.lt_or_ge i (actionsAt b.blocks m).length with hi | hi
    · rw [List.getElem?_append_left hi] at hc
      rw [List.take_append_of_le_length (Nat.le_of_lt hi)]
      exact h.reads m i c hc s hs htemp
    · rw [List.getElem?_append_right hi] at hc
      obtain ⟨rfl, hi', rfl⟩ : m = l ∧ i = (actionsAt b.blocks m).length ∧ a = c := by grind
      rw [List.take_append_of_le_length (Nat.le_of_eq hi'), List.take_of_length_le hi]
      exact hreads s hs htemp
  · intro m t ht n hn s hs
    rw [hb', List.mem_append] at ht
    rcases ht with ht | ht
    · exact hmono m s (h.onward m t ht n hn s hs)
    · obtain ⟨rfl, rfl⟩ : m = l ∧ .terminator t = a := by grind
      rcases honward t rfl n hn s hs with hk | hw
      · exact hmono m s hk
      · exact .inr ⟨_, by simp [hb'], hw⟩

theorem append (h : Justified temp K b) {dst : Slot} {op : Operation} (ho : b.IsOpen l)
    (hs : ∀ s ∈ op.sources, temp s → Knows K b l s)
    (hd : op.isStore = true → temp dst → Knows K b l dst) :
    Justified temp K (b.append l dst op span) := by
  refine h.snoc (fun m => actionsAt_append ho) (fun s hm ht => ?_) nofun
  simp only [Action.reads] at hm
  split at hm
  next hstore =>
    rcases List.mem_cons.mp hm with rfl | hm
    · exact hd hstore ht
    · exact hs s hm ht
  next => exact hs s hm ht

theorem close (h : Justified temp K b) {dst : Option Slot} {t : Transfer} (ho : b.IsOpen l)
    (hs : ∀ s ∈ t.sources, temp s → Knows K b l s)
    (hm : ∀ m ∈ t.successors, ∀ s, K m s →
      Knows K b l s ∨ (Action.terminator ⟨dst, t, b.scopes.current, span⟩).Writes s) :
    Justified temp K (b.close l dst t span) := by
  refine h.snoc (fun m => actionsAt_close ho) hs fun t' ht => ?_
  cases ht
  exact hm

theorem goto (h : Justified temp K b) {target : Label} (ho : b.IsOpen l)
    (hk : ∀ s, K target s → Knows K b l s) : Justified temp K (b.close l none (.goto target) span) := by
  refine h.close ho (by simp [Transfer.sources]) fun m hm s hs => .inl (hk s ?_)
  obtain rfl : m = target := by simpa [Transfer.successors] using hm
  exact hs

theorem gotoFrom (h : Justified temp K b) {fin : Option Label} {target : Label}
    (ho : ∀ l, fin = some l → b.IsOpen l)
    (hk : ∀ l, fin = some l → ∀ s, K target s → Knows K b l s) :
    Justified temp K (b.gotoFrom fin target span) := by
  cases fin with
  | none => exact h
  | some l => exact h.goto (ho l rfl) (hk l rfl)

theorem of_actionsAt (h : Justified temp K b) (hb : ∀ m, actionsAt b'.blocks m = actionsAt b.blocks m) :
    Justified temp K b' where
  reads l := by simpa [hb] using h.reads l
  onward l := by simpa [hb, Knows] using h.onward l

theorem grow (h : Justified temp K b) : Justified temp K b.grow := h.of_actionsAt fun _ => actionsAt_grow

theorem congr {K' : Knowledge} (h : Justified temp K b) (hb : b.Sound)
    (hK : ∀ l, l < b.nextLabel → K' l = K l) : Justified temp K' b := by
  have hlt : ∀ l a, a ∈ actionsAt b.blocks l → l < b.nextLabel := by
    intro l a ha
    by_contra hge
    simp [actionsAt, List.getElem?_eq_none (Nat.le_of_not_lt hge)] at ha
  constructor
  · intro l i a ha s hs ht
    rw [hK l (hlt l a (List.mem_of_getElem? ha))]
    exact h.reads l i a ha s hs ht
  · intro l t ht m hm s hs
    obtain ⟨block, hl, hterm⟩ := terminator_mem_actionsAt.mp ht
    have hm' : m < b.nextLabel := ((hb.blocks l block hl).terminator t hterm).successors m hm
    rw [hK m hm'] at hs
    exact (h.onward l t ht m hm s hs).mono (.refl b) (hK l (hlt l _ ht))

end Justified

def Knowledge.extend (K : Knowledge) (n : Label) (P : Slot → Prop) : Knowledge := fun l =>
  if l < n then K l else P

namespace Knowledge

variable {K : Knowledge} {n l : Label} {P : Slot → Prop}

theorem extend_of_lt (h : l < n) : K.extend n P l = K l := by
  simp [extend, h]

theorem extend_of_le (h : n ≤ l) : K.extend n P l = P := by
  simp [extend, Nat.not_lt_of_le h]

@[simp] theorem extend_self : K.extend n P n = P := extend_of_le (Nat.le_refl n)

end Knowledge

/-- From the end of block `here` in `b`, code was added that ends in block `last` of `b'`. Nothing
known is lost on the way, and `slots` are known there. -/
structure Learns (temp : Slot → Prop) (K : Knowledge) (b : Builder) (here : Label) (K' : Knowledge)
    (b' : Builder) (last : Label) (slots : List Slot) : Prop where
  keeps : ∀ l, l < b.nextLabel → K' l = K l
  justified : Justified temp K' b'
  known : ∀ s, Knows K b here s → Knows K' b' last s
  results : ∀ s ∈ slots, temp s → Knows K' b' last s

namespace Learns

variable {temp : Slot → Prop} {K K₁ K₂ : Knowledge} {b b₁ b₂ : Builder} {here l m : Label}
  {slots slots' : List Slot} {span : Span}

theorem refl (h : Justified temp K b) (hs : ∀ s ∈ slots, temp s → Knows K b here s) :
    Learns temp K b here K b here slots :=
  ⟨fun _ _ => rfl, h, fun _ h => h, hs⟩

theorem subset (h : Learns temp K b here K₁ b₁ l slots) (hs : slots' ⊆ slots) :
    Learns temp K b here K₁ b₁ l slots' :=
  { h with results := fun s hm => h.results s (hs hm) }

theorem trans (h : Learns temp K b here K₁ b₁ l slots) (h' : Learns temp K₁ b₁ l K₂ b₂ m slots')
    (hle : b.nextLabel ≤ b₁.nextLabel) : Learns temp K b here K₂ b₂ m (slots ++ slots') where
  keeps k hk := (h'.keeps k (Nat.lt_of_lt_of_le hk hle)).trans (h.keeps k hk)
  justified := h'.justified
  known s hs := h'.known s (h.known s hs)
  results s hs ht := by
    rcases List.mem_append.mp hs with hs | hs
    · exact h'.known s (h.results s hs ht)
    · exact h'.results s hs ht

theorem write (h : Learns temp K b here K₁ b₁ l slots) {dst : Slot} {op : Operation}
    (ho : b₁.IsOpen l) (hop : op.isStore = false) (hs : op.sources ⊆ slots) :
    Learns temp K b here K₁ (b₁.append l dst op span) l (dst :: slots) := by
  have hg : b₁.Grows (b₁.append l dst op span) := (Grows.refl b₁).append ho
  refine ⟨h.keeps, h.justified.append ho (fun s hm => h.results s (hs hm)) (by simp [hop]),
    fun s hk => (h.known s hk).mono hg rfl, fun s hm ht => ?_⟩
  rcases List.mem_cons.mp hm with rfl | hm
  · exact knows_append ho hop
  · exact (h.results s hm ht).mono hg rfl

theorem store (h : Learns temp K b here K₁ b₁ l slots) {dst : Slot} {op : Operation}
    (ho : b₁.IsOpen l) (hd : dst ∈ slots) (hs : op.sources ⊆ slots) :
    Learns temp K b here K₁ (b₁.append l dst op span) l [] := by
  have hg : b₁.Grows (b₁.append l dst op span) := (Grows.refl b₁).append ho
  exact ⟨h.keeps, h.justified.append ho (fun s hm => h.results s (hs hm)) fun _ => h.results dst hd,
    fun s hk => (h.known s hk).mono hg rfl, by simp⟩

theorem of_actionsAt (h : Learns temp K b here K₁ b₁ l slots)
    (hb : ∀ m, actionsAt b₂.blocks m = actionsAt b₁.blocks m) : Learns temp K b here K₁ b₂ l slots := by
  refine ⟨h.keeps, h.justified.of_actionsAt hb, ?_, ?_⟩
  · simpa [Knows, hb] using h.known
  · simpa [Knows, hb] using h.results

theorem addTemporary (h : Learns temp K b here K₁ b₁ l slots) (ty : Option Ty) :
    Learns temp K b here K₁ (b₁.addTemporary ty) l slots := h.of_actionsAt fun _ => rfl

theorem compute (h : Learns temp K b here K₁ b₁ l slots) {ty : Option Ty} {op : Operation} {i : Slot}
    (ho : b₁.IsOpen l) (hi : b₁.nextSlot = i) (hop : op.isStore = false) (hs : op.sources ⊆ slots) :
    Learns temp K b here K₁ (b₁.compute l ty op span) l [i] :=
  hi ▸ ((h.addTemporary ty).write ho hop hs).subset (by simp)

theorem load (h : Learns temp K b here K₁ b₁ l slots) {value : Literal} {ty : Option Ty}
    (ho : b₁.IsOpen l) :
    Learns temp K b here K₁ (b₁.load l value ty span) l (b₁.nextSlot :: slots) :=
  (h.addTemporary ty).write ho rfl (by simp [Operation.sources])

theorem loadName (h : Learns temp K b here K₁ b₁ l slots) (name : Ident) (ho : b₁.IsOpen l) :
    Learns temp K b here K₁ (b₁.loadName l name) l (b₁.nextSlot :: slots) := h.load ho

theorem advance (h : Learns temp K b here K₁ b₁ l slots) (hb₁ : b₁.Sound) {dst : Option Slot}
    {t : Transfer} {P : Slot → Prop} (hle : b.nextLabel ≤ b₁.nextLabel)
    (hB : ∀ m, actionsAt b₂.blocks m = actionsAt b₁.blocks m) (ho : b₂.IsOpen l) (hl : l < b₁.nextLabel)
    (hs : t.sources ⊆ slots) (ht : ∀ m ∈ t.successors, b₁.nextLabel ≤ m)
    (hP : ∀ s, P s → Knows K₁ b₁ l s ∨ (Action.terminator ⟨dst, t, b₂.scopes.current, span⟩).Writes s)
    (hknown : ∀ s, Knows K₁ b₁ l s → P s) (hm : b₁.nextLabel ≤ m) (hslots : ∀ s ∈ slots', P s) :
    Learns temp K b here (K₁.extend b₁.nextLabel P) (b₂.close l dst t span) m slots' := by
  have hK : ∀ k, k < b₁.nextLabel → K₁.extend b₁.nextLabel P k = K₁ k :=
    fun k hk => Knowledge.extend_of_lt hk
  have hmono : ∀ s, Knows K₁ b₁ l s → Knows (K₁.extend b₁.nextLabel P) b₂ l s := by
    simp [Knows, hB, hK l hl]
  have hnew : ∀ k s, b₁.nextLabel ≤ k → (K₁.extend b₁.nextLabel P k s ↔ P s) := by
    intro k s hk
    rw [Knowledge.extend_of_le hk]
  refine ⟨fun k hk => (hK k (Nat.lt_of_lt_of_le hk hle)).trans (h.keeps k hk), ?_, ?_, ?_⟩
  · refine ((h.justified.congr hb₁ hK).of_actionsAt hB).close ho ?_ ?_
    · exact fun s hm ht => hmono s (h.results s (hs hm) ht)
    · intro k hk s hks
      exact (hP s ((hnew k s (ht k hk)).mp hks)).imp_left (hmono s)
  · exact fun s hk => .inl ((hnew m s hm).mpr (hknown s (h.known s hk)))
  · exact fun s hs _ => .inl ((hnew m s hm).mpr (hslots s hs))

theorem call (h : Learns temp K b here K₁ b₁ l slots) (hb₁ : b₁.Sound) {note : Note} {callee : Callee}
    (hle : b.nextLabel ≤ b₁.nextLabel) (ho : b₁.IsOpen l) :
    ∃ K₂, Learns temp K b here K₂ (b₁.call l note slots callee) b₁.nextLabel [b₁.nextSlot] := by
  refine ⟨_, h.advance (P := fun s => Knows K₁ b₁ l s ∨ s = b₁.nextSlot) hb₁ hle ?_ ?_ ho.lt ?_ ?_ ?_ ?_
    (Nat.le_refl _) ?_⟩
  · exact fun m => actionsAt_grow
  · exact isOpen_grow.mpr (.inl ho)
  · exact List.Subset.refl _
  · simp [Transfer.successors]
  · rintro s (hs | rfl)
    · exact .inl hs
    · exact .inr .call
  · exact fun s hs => .inl hs
  · simp

theorem split (h : Learns temp K b here K₁ b₁ l slots) (hb₁ : b₁.Sound) {cond : Slot}
    (hle : b.nextLabel ≤ b₁.nextLabel) (ho : b₁.IsOpen l) (hc : cond ∈ slots) (hm : b₁.nextLabel ≤ m) :
    Learns temp K b here (K₁.extend b₁.nextLabel (Knows K₁ b₁ l))
      (b₁.grow.grow.close l none (.branch cond b₁.nextLabel (b₁.nextLabel + 1)) span) m [] := by
  refine h.advance hb₁ hle ?_ ?_ ho.lt ?_ ?_ ?_ ?_ hm (by simp)
  · exact fun m => actionsAt_grow.trans actionsAt_grow
  · simp [ho]
  · simpa [Transfer.sources] using hc
  · simp [Transfer.successors]
  · exact fun s hs => .inl hs
  · exact fun s hs => hs

theorem pass (h : Learns temp K b here K₁ b₁ l slots) (hb₁ : b₁.Sound) (t : Transfer) (span : Span)
    (hle : b.nextLabel ≤ b₁.nextLabel) (ho : b₁.IsOpen l) (hs : t.sources = [])
    (ht : t.successors = [b₁.nextLabel]) :
    Learns temp K b here (K₁.extend b₁.nextLabel (Knows K₁ b₁ l)) (b₁.grow.close l none t span)
      b₁.nextLabel [] := by
  refine h.advance hb₁ hle ?_ ?_ ho.lt ?_ ?_ ?_ ?_ (Nat.le_refl _) (by simp)
  · exact fun m => actionsAt_grow
  · exact isOpen_grow.mpr (.inl ho)
  · simp [hs]
  · simp [ht]
  · exact fun s hs => .inl hs
  · exact fun s hs => hs

section Ternary

variable {K₃ : Knowledge} {b₃ : Builder} {c x y : Placed} {note : Note} {span' : Span}

theorem fork (note : Note) (h : Learns temp K b here K₁ b₁ c.block [c.slot]) (hb₁ : b₁.Sound)
    (hle : b.nextLabel ≤ b₁.nextLabel) (ho : b₁.IsOpen c.block) (hm : b₁.nextLabel ≤ m) :
    Learns temp K b here (K₁.extend b₁.nextLabel (Knows K₁ b₁ c.block)) (b₁.fork c note) m [] :=
  (h.addTemporary note.ty).split ((Step.addTemporary b₁ _).sound hb₁) hle ho (by simp) hm

theorem ternary (hb : b.Sound) (hc : Learns temp K b here K₁ b₁ c.block [c.slot])
    (e₁ : Evaluation b here b₁ c.block [c.slot])
    (hx : Learns temp (K₁.extend b₁.nextLabel (Knows K₁ b₁ c.block)) (b₁.fork c note) b₁.nextLabel K₂ b₂
      x.block [x.slot])
    (e₂ : Evaluation (b₁.fork c note) b₁.nextLabel b₂ x.block [x.slot])
    (hy : Learns temp K₂ (b₂.append x.block b₁.nextSlot (.move x.slot) span) (b₁.nextLabel + 1) K₃ b₃
      y.block [y.slot])
    (e₃ : Evaluation (b₂.append x.block b₁.nextSlot (.move x.slot) span) (b₁.nextLabel + 1) b₃ y.block
      [y.slot]) :
    ∃ K₄, Learns temp K b here K₄
      ((b₃.append y.block b₁.nextSlot (.move y.slot) span').join x.block y.block note.span)
      b₃.nextLabel [b₁.nextSlot] := by
  have hne := e₂.arms_ne e₃
  obtain ⟨hleft, hright⟩ := e₂.arms_open span' e₃
  have hle₁ := e₁.nextLabel_le
  have hle₂ : b₁.nextLabel + 2 ≤ b₂.nextLabel := by
    have hle := e₂.nextLabel_le
    simp [Builder.fork] at hle ⊢
    lia
  have hle₃ : b₂.nextLabel ≤ b₃.nextLabel := by simpa using e₃.nextLabel_le
  have hxlt := e₂.lt rfl
  have hylt := e₃.lt rfl
  have hb₃ : (b₃.append y.block b₁.nextSlot (.move y.slot) span').Sound :=
    (e₁.secondArm e₂ e₃).sound hb
  have hyw : Learns temp K₂ _ _ K₃ (b₃.append y.block b₁.nextSlot (.move y.slot) span') y.block
      [b₁.nextSlot, y.slot] := hy.write e₃.open_last rfl (by simp [Operation.sources])
  have hK : ∀ k, k < b₃.nextLabel →
      K₃.extend b₃.nextLabel (fun s => Knows K₁ b₁ c.block s ∨ s = b₁.nextSlot) k = K₃ k :=
    fun k hk => Knowledge.extend_of_lt hk
  have hother : K₂ (b₁.nextLabel + 1) = Knows K₁ b₁ c.block := by
    rw [hx.keeps _ (by simp [Builder.fork]), Knowledge.extend_of_le (Nat.le_succ _)]
  have hxend : ∀ s, Knows K₁ b₁ c.block s ∨ s = b₁.nextSlot →
      Knows K₂ (b₂.append x.block b₁.nextSlot (.move x.slot) span) x.block s := by
    rintro s (hs | rfl)
    · have hstart : K₁.extend b₁.nextLabel (Knows K₁ b₁ c.block) b₁.nextLabel s := by
        rwa [Knowledge.extend_self]
      exact (hx.known s (.inl hstart)).mono ((Grows.refl b₂).append e₂.open_last) rfl
    · exact knows_append e₂.open_last rfl
  have hyend : ∀ s, Knows K₁ b₁ c.block s ∨ s = b₁.nextSlot →
      Knows K₃ (b₃.append y.block b₁.nextSlot (.move y.slot) span') y.block s := by
    rintro s (hs | rfl)
    · exact hyw.known s (.inl (hother ▸ hs))
    · exact knows_append e₃.open_last rfl
  have hnew : ∀ s, K₃.extend b₃.nextLabel (fun s => Knows K₁ b₁ c.block s ∨ s = b₁.nextSlot)
      b₃.nextLabel s ↔ Knows K₁ b₁ c.block s ∨ s = b₁.nextSlot := by
    intro s
    rw [Knowledge.extend_self]
  have hgrow : (b₃.append y.block b₁.nextSlot (.move y.slot) span').Grows
      (b₃.append y.block b₁.nextSlot (.move y.slot) span').grow := (Step.grow _).grows
  have hleft' := isOpen_grow.mpr (.inl hleft)
  refine ⟨K₃.extend b₃.nextLabel fun s => Knows K₁ b₁ c.block s ∨ s = b₁.nextSlot, ?_, ?_, ?_, ?_⟩
  · intro k hk
    rw [hK k (by lia), hy.keeps k (by simp; lia), hx.keeps k (by simp [Builder.fork]; lia),
      Knowledge.extend_of_lt (by lia), hc.keeps k hk]
  · have hJ := (hyw.justified.congr hb₃ (by simpa using hK)).grow
    refine (hJ.goto hleft' fun s hs => ?_).goto (by simp [hright, hne.1]) fun s hs => ?_
    · rw [nextLabel_append] at hs
      have hg := e₃.steps.grows.trans (((Grows.refl b₃).append e₃.open_last).trans hgrow)
      refine (hxend s ((hnew s).mp hs)).mono hg ?_
      rw [hK x.block (by lia), hy.keeps x.block (by simpa using hxlt)]
    · rw [nextLabel_append] at hs
      exact (hyend s ((hnew s).mp hs)).mono (hgrow.close hleft') (hK y.block hylt)
  · exact fun s hs => .inl ((hnew s).mpr (.inl (hc.known s hs)))
  · intro s hs ht
    exact .inl ((hnew s).mpr (.inr (by simpa using hs)))

end Ternary

end Learns

def LoopKnown (K : Knowledge) (b : Builder) (here : Label) : Prop :=
  ∀ frame, b.loop? = some frame → ∀ s, K frame.onBreak s ∨ K frame.onContinue s → Knows K b here s

/-- From the end of block `here` in `b`, code was added from which control goes on in block `out`, if
anywhere, and nothing known is lost on the way. -/
structure Passes (temp : Slot → Prop) (K : Knowledge) (b : Builder) (here : Label) (K' : Knowledge)
    (b' : Builder) (out : Option Label) : Prop where
  keeps : ∀ l, l < b.nextLabel → K' l = K l
  justified : Justified temp K' b'
  known : ∀ l, out = some l → ∀ s, Knows K b here s → Knows K' b' l s

theorem Learns.passes {temp : Slot → Prop} {K K' : Knowledge} {b b' : Builder} {here l : Label}
    {slots : List Slot} (h : Learns temp K b here K' b' l slots) :
    Passes temp K b here K' b' (some l) :=
  ⟨h.keeps, h.justified, by simpa using h.known⟩

theorem LoopKnown.mono {K K' : Knowledge} {b b' : Builder} {here l : Label} (h : LoopKnown K b here)
    (hb : b.Sound) (hloops : b'.loops = b.loops) (hkeeps : ∀ m, m < b.nextLabel → K' m = K m)
    (hknown : ∀ s, Knows K b here s → Knows K' b' l s) : LoopKnown K' b' l := by
  intro frame hf s hs
  have hf' : b.loop? = some frame := by rwa [Builder.loop?, hloops] at hf
  have hlt := hb.loops frame (List.mem_of_head? hf')
  rw [hkeeps _ hlt.1, hkeeps _ hlt.2] at hs
  exact hknown s (h frame hf' s hs)

namespace Passes

variable {temp : Slot → Prop} {K K₁ K₂ K₃ : Knowledge} {b b₁ b₂ b₃ : Builder} {here l : Label}
  {out thenEnd elseEnd bodyEnd : Option Label} {c : Placed} {span : Span}

theorem trans (h : Passes temp K b here K₁ b₁ (some l)) (h' : Passes temp K₁ b₁ l K₂ b₂ out)
    (hle : b.nextLabel ≤ b₁.nextLabel) : Passes temp K b here K₂ b₂ out where
  keeps k hk := (h'.keeps k (Nat.lt_of_lt_of_le hk hle)).trans (h.keeps k hk)
  justified := h'.justified
  known m hm s hs := h'.known m hm s (h.known l rfl s hs)

theorem leave {slots : List Slot} (h : Learns temp K b here K₁ b₁ l slots) {t : Transfer}
    (ho : b₁.IsOpen l) (hs : t.sources ⊆ slots)
    (hm : ∀ m ∈ t.successors, ∀ s, K₁ m s → Knows K₁ b₁ l s) :
    Passes temp K b here K₁ (b₁.close l none t span) none where
  keeps := h.keeps
  justified := h.justified.close ho (fun s hs' => h.results s (hs hs')) fun m hm' s hk =>
    .inl (hm m hm' s hk)
  known := by simp

theorem of_actionsAt (h : Passes temp K b here K₁ b₁ out)
    (hb : ∀ m, actionsAt b₂.blocks m = actionsAt b₁.blocks m) : Passes temp K b here K₁ b₂ out :=
  ⟨h.keeps, h.justified.of_actionsAt hb, by simpa [Knows, hb] using h.known⟩

theorem grow (h : Passes temp K b here K₁ b₁ out) (hb₁ : b₁.Sound) {P : Slot → Prop}
    (hle : b.nextLabel ≤ b₁.nextLabel) (hP : ∀ s, Knows K b here s → P s) :
    Passes temp K b here (K₁.extend b₁.nextLabel P) b₁.grow (some b₁.nextLabel) := by
  have hK : ∀ k, k < b₁.nextLabel → K₁.extend b₁.nextLabel P k = K₁ k :=
    fun k hk => Knowledge.extend_of_lt hk
  refine ⟨fun k hk => (hK k (Nat.lt_of_lt_of_le hk hle)).trans (h.keeps k hk),
    (h.justified.congr hb₁ hK).grow, fun l hl s hs => .inl ?_⟩
  obtain rfl := Option.some.inj hl
  rw [Knowledge.extend_self]
  exact hP s hs

theorem close (h : Passes temp K b here K₁ b₁ out) {t : Transfer} (ho : b₁.IsOpen l)
    (hs : ∀ s ∈ t.sources, temp s → Knows K₁ b₁ l s)
    (hm : ∀ m ∈ t.successors, ∀ s, K₁ m s → Knows K₁ b₁ l s) :
    Passes temp K b here K₁ (b₁.close l none t span) out where
  keeps := h.keeps
  justified := h.justified.close ho hs fun m hm' s hk => .inl (hm m hm' s hk)
  known m hm s hs := (h.known m hm s hs).mono ((Grows.refl b₁).close ho) rfl

theorem gotoFrom (h : Passes temp K b here K₁ b₁ out) {fin : Option Label} {target : Label}
    (ho : ∀ l, fin = some l → b₁.IsOpen l)
    (hk : ∀ l, fin = some l → ∀ s, K₁ target s → Knows K₁ b₁ l s) :
    Passes temp K b here K₁ (b₁.gotoFrom fin target span) out where
  keeps := h.keeps
  justified := h.justified.gotoFrom ho hk
  known m hm s hs := (h.known m hm s hs).mono ((Frame.refl b₁).gotoFrom ho).grows rfl

section Conditional

variable (hb : b.Sound) (e₁ : Evaluation b here b₁ c.block [c.slot])
  (hc : Learns temp K b here K₁ b₁ c.block [c.slot])

include hb e₁ hc

theorem thenStart :
    Passes temp K b here (K₁.extend b₁.nextLabel (Knows K₁ b₁ c.block)) b₁.grow (some b₁.nextLabel) :=
  hc.passes.grow (e₁.sound hb) e₁.nextLabel_le hc.known

variable (r₂ : Region b₁.grow b₁.nextLabel b₂ fun m => thenEnd = some m)
  (hthen : Passes temp (K₁.extend b₁.nextLabel (Knows K₁ b₁ c.block)) b₁.grow b₁.nextLabel K₂ b₂ thenEnd)

include r₂ hthen

theorem thenDone (span : Span) :
    Passes temp K b here (K₂.extend b₂.nextLabel (Knows K₁ b₁ c.block))
        (b₂.grow.close c.block none (.branch c.slot b₁.nextLabel b₂.nextLabel) span)
        (some b₂.nextLabel) ∧
      ∀ l, thenEnd = some l → ∀ s, Knows K₁ b₁ c.block s →
        Knows (K₂.extend b₂.nextLabel (Knows K₁ b₁ c.block))
          (b₂.grow.close c.block none (.branch c.slot b₁.nextLabel b₂.nextLabel) span) l s := by
  have hclt := e₁.lt rfl
  have hle : b₁.nextLabel + 1 ≤ b₂.nextLabel := by simpa using r₂.nextLabel_le
  have hb₂ : b₂.Sound := r₂.sound ((Step.grow b₁).sound (e₁.sound hb))
  have hco : b₂.grow.IsOpen c.block := isOpen_grow.mpr (.inl (e₁.cond_open r₂))
  have hg₂ : b₂.Grows b₂.grow := (Step.grow b₂).grows
  have hK : ∀ k, k < b₂.nextLabel → K₂.extend b₂.nextLabel (Knows K₁ b₁ c.block) k = K₂ k :=
    fun k hk => Knowledge.extend_of_lt hk
  have hcond : ∀ s, Knows K₁ b₁ c.block s →
      Knows (K₂.extend b₂.nextLabel (Knows K₁ b₁ c.block)) b₂.grow c.block s := by
    intro s hs
    refine hs.mono (((Step.grow b₁).grows.trans r₂.steps.grows).trans hg₂) ?_
    rw [hK _ (by lia), hthen.keeps _ (by simp; lia), Knowledge.extend_of_lt hclt]
  have hbody : K₂ b₁.nextLabel = Knows K₁ b₁ c.block := by
    rw [hthen.keeps _ (by simp), Knowledge.extend_self]
  have hstart := thenStart hb e₁ hc
  have hle₁ := e₁.nextLabel_le
  constructor
  · refine ((hstart.trans hthen (by simp; lia)).grow hb₂ (by lia) hc.known).close hco ?_ ?_
    · intro s hs ht
      exact hcond s (hc.results s (by simpa [Transfer.sources] using hs) ht)
    · intro m hm s hs
      apply hcond
      simp only [Transfer.successors, List.mem_cons, List.not_mem_nil, or_false] at hm
      rcases hm with rfl | rfl
      · rwa [hK _ hle, hbody] at hs
      · rwa [Knowledge.extend_self] at hs
  · intro l hl s hs
    have hs' : K₁.extend b₁.nextLabel (Knows K₁ b₁ c.block) b₁.nextLabel s := by
      rwa [Knowledge.extend_self]
    exact (hthen.known l hl s (.inl hs')).mono (hg₂.close hco) (hK l (r₂.lt hl))

theorem ifThen :
    ∃ K', Passes temp K b here K'
      ((b₂.grow.close c.block none (.branch c.slot b₁.nextLabel b₂.nextLabel) span).gotoFrom thenEnd
        b₂.nextLabel span) (some b₂.nextLabel) := by
  obtain ⟨h, hend⟩ := thenDone hb e₁ hc r₂ hthen span
  refine ⟨_, h.gotoFrom (fun l hl => (e₁.thenDone span r₂).isOpen (.inl hl)) fun l hl s hs => ?_⟩
  apply hend l hl
  rwa [Knowledge.extend_self] at hs

theorem ifElse
    (r₃ : Region (b₂.grow.close c.block none (.branch c.slot b₁.nextLabel b₂.nextLabel) span)
      b₂.nextLabel b₃ fun m => elseEnd = some m)
    (helse : Passes temp (K₂.extend b₂.nextLabel (Knows K₁ b₁ c.block))
      (b₂.grow.close c.block none (.branch c.slot b₁.nextLabel b₂.nextLabel) span) b₂.nextLabel K₃ b₃
      elseEnd) :
    ∃ K', Passes temp K b here K'
      ((b₃.grow.gotoFrom elseEnd b₃.nextLabel span).gotoFrom thenEnd b₃.nextLabel span)
      (some b₃.nextLabel) := by
  obtain ⟨h, hend⟩ := thenDone hb e₁ hc r₂ hthen span
  have hdone := e₁.thenDone span r₂
  have hb₃ := r₃.sound (hdone.sound hb)
  have hle : b₂.nextLabel + 1 ≤ b₃.nextLabel := by simpa using r₃.nextLabel_le
  have hle₃ := Nat.le_trans hdone.nextLabel_le r₃.nextLabel_le
  have hg₃ : b₃.Grows b₃.grow := (Step.grow b₃).grows
  have hopen : ∀ l, elseEnd = some l → b₃.grow.IsOpen l := fun l hl =>
    isOpen_grow.mpr (.inl (r₃.isOpen hl))
  have hg : b₃.grow.Grows (b₃.grow.gotoFrom elseEnd b₃.nextLabel span) :=
    ((Frame.refl b₃.grow).gotoFrom hopen).grows
  have hK : ∀ k, k < b₃.nextLabel → K₃.extend b₃.nextLabel (Knows K₁ b₁ c.block) k = K₃ k :=
    fun k hk => Knowledge.extend_of_lt hk
  refine ⟨_, (((h.trans helse hdone.nextLabel_le).grow hb₃ hle₃ hc.known).gotoFrom hopen ?_).gotoFrom
    (fun l hl => (e₁.elseDone r₂ r₃).isOpen (.inl hl)) ?_⟩
  · intro l hl s hs
    rw [Knowledge.extend_self] at hs
    have hstart : K₂.extend b₂.nextLabel (Knows K₁ b₁ c.block) b₂.nextLabel s := by
      rwa [Knowledge.extend_self]
    exact (helse.known l hl s (.inl hstart)).mono hg₃ (hK l (r₃.lt hl))
  · intro l hl s hs
    rw [Knowledge.extend_self] at hs
    have hlt := r₂.lt hl
    refine (hend l hl s hs).mono ((r₃.steps.grows.trans hg₃).trans hg) ?_
    rw [hK l (by lia), helse.keeps l (by simp; lia)]

end Conditional

section Loop

variable (hb : b.Sound) (ho : b.IsOpen here) (hK : Justified temp K b)

include hb ho hK

theorem loopHead (span : Span) :
    Learns temp K b here (K.extend b.nextLabel (Knows K b here))
      (b.grow.close here none (.goto b.nextLabel) span) b.nextLabel [] :=
  (Learns.refl hK (by simp) : Learns temp K b here K b here []).pass hb _ span (Nat.le_refl _) ho rfl rfl

variable
  (e₁ : Evaluation (b.grow.close here none (.goto b.nextLabel) span) b.nextLabel b₁ c.block [c.slot])
  (hc : Learns temp (K.extend b.nextLabel (Knows K b here))
    (b.grow.close here none (.goto b.nextLabel) span) b.nextLabel K₁ b₁ c.block [c.slot])

include e₁ hc

theorem loopBody :
    Passes temp K b here (K₁.extend b₁.nextLabel (Knows K₁ b₁ c.block))
        (b₁.enterLoop b.nextLabel c span) (some b₁.nextLabel) ∧
      LoopKnown (K₁.extend b₁.nextLabel (Knows K₁ b₁ c.block)) (b₁.enterLoop b.nextLabel c span)
        b₁.nextLabel := by
  have h₀ := (Region.refl ho).advance (.goto b.nextLabel) span rfl rfl
  have hhead := loopHead hb ho hK span
  have hle : b.nextLabel + 1 ≤ b₁.nextLabel := by simpa using e₁.nextLabel_le
  have hsplit : Learns temp K b here _ (b₁.grow.grow.close c.block none
      (.branch c.slot b₁.nextLabel (b₁.nextLabel + 1)) span) b₁.nextLabel [] :=
    (hhead.trans hc h₀.nextLabel_le).split (e₁.sound (h₀.sound hb)) (Nat.le_of_succ_le hle)
      e₁.open_last (by simp) (Nat.le_refl _)
  refine ⟨hsplit.passes.of_actionsAt fun m => rfl, fun frame hf s hs => .inl ?_⟩
  obtain rfl : ⟨b₁.nextLabel + 1, b.nextLabel⟩ = frame := Option.some.inj hf
  rw [Knowledge.extend_self]
  rcases hs with hs | hs
  · rwa [Knowledge.extend_of_le (Nat.le_succ _)] at hs
  · rw [Knowledge.extend_of_lt hle] at hs
    have hhd : K₁ b.nextLabel = Knows K b here := by
      rw [hc.keeps _ (by simp), Knowledge.extend_self]
    rw [hhd] at hs
    exact hc.known s (hhead.known s hs)

theorem whileLoop
    (r₂ : Region (b₁.enterLoop b.nextLabel c span) b₁.nextLabel b₂ fun m => bodyEnd = some m)
    (hbody : Passes temp (K₁.extend b₁.nextLabel (Knows K₁ b₁ c.block))
      (b₁.enterLoop b.nextLabel c span) b₁.nextLabel K₂ b₂ bodyEnd) :
    Passes temp K b here K₂ (b₂.gotoFrom bodyEnd b.nextLabel span).dropLoop
      (some (b₁.nextLabel + 1)) := by
  obtain ⟨h, hloop⟩ := loopBody hb ho hK e₁ hc
  have hle : b.nextLabel + 1 ≤ b₁.nextLabel := by simpa using e₁.nextLabel_le
  have hle₂ : b₁.nextLabel + 2 ≤ b₂.nextLabel := by
    have hle := r₂.nextLabel_le
    simp [Builder.enterLoop] at hle ⊢
    lia
  have hkeep : ∀ k, k < b₁.nextLabel + 2 →
      K₂ k = K₁.extend b₁.nextLabel (Knows K₁ b₁ c.block) k := fun k hk =>
    hbody.keeps k (by simp [Builder.enterLoop] at hk ⊢; lia)
  have hexit : Passes temp K b here K₂ b₂ (some (b₁.nextLabel + 1)) := by
    refine ⟨fun k hk => (hkeep k (by lia)).trans (h.keeps k hk), hbody.justified, ?_⟩
    intro l hl s hs
    obtain rfl := Option.some.inj hl
    refine .inl ?_
    rw [hkeep _ (by lia), Knowledge.extend_of_le (Nat.le_succ _)]
    exact hc.known s ((loopHead hb ho hK span).known s hs)
  refine (hexit.gotoFrom (fun l hl => r₂.isOpen hl) fun l hl s hs => ?_).of_actionsAt fun m => rfl
  -- what the head counts on is known in the body from its start
  apply hbody.known l hl
  rw [hkeep _ (by lia)] at hs
  exact hloop ⟨b₁.nextLabel + 1, b.nextLabel⟩ rfl s (.inr hs)

end Loop

end Passes

end FlowGraph

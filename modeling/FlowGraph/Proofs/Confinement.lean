import FlowGraph.Proofs.Inversion
import FlowGraph.Proofs.Jumps

/-!
What lowering touches, from whatever state of the builder it starts in: the block it is put into, and
the blocks that it adds. Control enters these at that block only, and leaves them where the code goes
on, or by a jump to the loop around.
-/

namespace FlowGraph

open Builder

theorem Builder.Grows.id_eq {b b' : Builder} (h : b.Grows b') {l : Label} {block : BasicBlock}
    (hl : l < b.nextLabel) (hb : b'.blocks[l]? = some block) :
    ∃ old, b.blocks[l]? = some old ∧ block.id = old.id := by
  refine ⟨_, List.getElem?_eq_getElem hl, ?_⟩
  obtain ⟨new, hnew, hgrows⟩ := h.blocks l _ (List.getElem?_eq_getElem hl)
  obtain rfl := Option.some.inj (hnew.symm.trans hb)
  exact hgrows.id

/-- From `b` to `b'` code was added to block `here` and to new blocks only. Of these just the ones in
`owned` are open, and the others lead to new blocks or to `exits`. -/
structure Confined (b : Builder) (here : Label) (b' : Builder) (owned exits : Label → Prop) : Prop where
  grows : b.Grows b'
  keeps : ∀ l, l < b.nextLabel → l ≠ here → b'.blocks[l]? = b.blocks[l]?
  opens : ∀ l, b'.IsOpen l ↔ (b.IsOpen l ∧ l ≠ here) ∨ owned l
  place : ∀ l, owned l → l = here ∨ b.nextLabel ≤ l
  numbered : ∀ (l : Label) (block : BasicBlock), b.nextLabel ≤ l → b'.blocks[l]? = some block → block.id = l
  edges : ∀ l t m, l = here ∨ b.nextLabel ≤ l → transferAt b'.blocks l = some t → m ∈ t.successors →
    (b.nextLabel ≤ m ∧ m < b'.nextLabel) ∨ exits m
  scope : b'.scopes.current = b.scopes.current
  loops : b'.loops = b.loops

namespace Confined

variable {b b₁ b₂ : Builder} {here l : Label} {owned owned' exits exits' : Label → Prop} {span : Span}

theorem refl (ho : b.IsOpen here) : Confined b here b (· = here) exits where
  grows := .refl b
  keeps _ _ _ := rfl
  opens l := by grind
  place _ h := .inl h
  numbered l block hl hb := by
    have := (List.getElem?_eq_some_iff.mp hb).1
    lia
  edges l t m hl ht hm := by
    obtain ⟨block, -, hb, -⟩ := transferAt_eq_some_iff.mp ht
    have hlt := (List.getElem?_eq_some_iff.mp hb).1
    obtain rfl : l = here := by lia
    simp [transferAt_of_openAt ho] at ht
  scope := rfl
  loops := rfl

theorem congr (h : Confined b here b₁ owned exits) (he : ∀ l, owned l ↔ owned' l) :
    Confined b here b₁ owned' exits := by
  obtain rfl : owned = owned' := by
    funext l
    exact propext (he l)
  exact h

theorem isOpen (h : Confined b here b₁ owned exits) (hl : owned l) : b₁.IsOpen l :=
  (h.opens l).mpr (.inr hl)

theorem lt (h : Confined b here b₁ owned exits) (hl : owned l) : l < b₁.nextLabel := (h.isOpen hl).lt

theorem nextLabel_le (h : Confined b here b₁ owned exits) : b.nextLabel ≤ b₁.nextLabel :=
  h.grows.nextLabel_le

theorem ne_of_owned (h : Confined b here b₁ owned exits) (hl : owned l) {m : Label}
    (hm : m < b.nextLabel) (hne : m ≠ here) : m ≠ l := by
  have := h.place l hl
  lia

theorem seq (h : Confined b here b₁ owned exits) (hl : owned l) (h' : Confined b₁ l b₂ owned' exits')
    (hexits : ∀ m, exits' m → (b.nextLabel ≤ m ∧ m < b₁.nextLabel) ∨ exits m) :
    Confined b here b₂ (fun m => (owned m ∧ m ≠ l) ∨ owned' m) exits where
  grows := h.grows.trans h'.grows
  keeps m hm hne := by
    have hlt := Nat.lt_of_lt_of_le hm h.nextLabel_le
    rw [h'.keeps m hlt (h.ne_of_owned hl hm hne), h.keeps m hm hne]
  opens m := by
    have hne : b.IsOpen m → m ≠ here → m ≠ l := fun ho => h.ne_of_owned hl ho.lt
    grind [h.opens m, h'.opens m]
  place m hm := by
    have := h.nextLabel_le
    rcases hm with ⟨hm, -⟩ | hm
    · exact h.place m hm
    · have := h.place l hl
      have := h'.place m hm
      lia
  numbered m block hm hb := by
    rcases Nat.lt_or_ge m b₁.nextLabel with hlt | hge
    · obtain ⟨old, hold, hid⟩ := h'.grows.id_eq hlt hb
      exact hid.trans (h.numbered m old hm hold)
    · exact h'.numbered m block hge hb
  edges m t n hm ht hn := by
    have := h.nextLabel_le
    have := h'.nextLabel_le
    by_cases hinner : m = l ∨ b₁.nextLabel ≤ m
    · rcases h'.edges m t n hinner ht hn with hnew | hexit
      · lia
      · rcases hexits n hexit with hnew | hexit
        · lia
        · exact .inr hexit
    · rw [transferAt_congr (h'.keeps m (by lia) (by lia))] at ht
      rcases h.edges m t n hm ht hn with hnew | hexit
      · lia
      · exact .inr hexit
  scope := h'.scope.trans h.scope
  loops := h'.loops.trans h.loops

theorem andThen (h : Confined b here b₁ (· = l) exits) (h' : Confined b₁ l b₂ owned exits) :
    Confined b here b₂ owned exits :=
  (h.seq rfl h' fun _ => .inr).congr (by simp)

theorem grow (h : Confined b here b₁ owned exits) :
    Confined b here b₁.grow (fun l => owned l ∨ l = b₁.nextLabel) exits where
  grows := h.grows.trans (Step.grow b₁).grows
  keeps m hm hne := by
    rw [getElem?_grow (Nat.ne_of_lt (Nat.lt_of_lt_of_le hm h.nextLabel_le)), h.keeps m hm hne]
  opens m := by grind [isOpen_grow, h.opens m]
  place m hm := by
    rcases hm with hm | rfl
    · exact h.place m hm
    · exact .inr h.nextLabel_le
  numbered m block hm hb := by
    by_cases hlast : m = b₁.nextLabel
    · subst hlast
      obtain rfl : BasicBlock.empty b₁.stem b₁.nextLabel = block := by simpa [Builder.grow] using hb
      rfl
    · exact h.numbered m block hm ((getElem?_grow hlast).symm.trans hb)
  edges m t n hm ht hn := by
    rcases h.edges m t n hm (by simpa using ht) hn with hnew | hexit
    · simp
      lia
    · exact .inr hexit
  scope := h.scope
  loops := h.loops

theorem addTemporary (h : Confined b here b₁ owned exits) (ty : Option Ty) :
    Confined b here (b₁.addTemporary ty) owned exits :=
  { h with grows := h.grows.trans (Step.addTemporary b₁ ty).grows }

theorem addBound (h : Confined b here b₁ owned exits) {name : String} {ty : Option Ty} {key : Symbol} :
    Confined b here (b₁.addBound name ty .declared key) owned exits :=
  { h with grows := h.grows.trans (Step.addBound (.inr rfl)).grows }

theorem append (h : Confined b here b₁ owned exits) (hl : owned l) {dst : Slot} {op : Operation} :
    Confined b here (b₁.append l dst op span) owned exits where
  grows := h.grows.append (h.isOpen hl)
  keeps m hm hne := by rw [getElem?_append (h.ne_of_owned hl hm hne), h.keeps m hm hne]
  opens m := isOpen_append.trans (h.opens m)
  place := h.place
  numbered m block hm hb := by
    have hlt : m < b₁.nextLabel := by simpa using (List.getElem?_eq_some_iff.mp hb).1
    obtain ⟨old, hold, hid⟩ := ((Grows.refl b₁).append (h.isOpen hl)).id_eq hlt hb
    exact hid.trans (h.numbered m old hm hold)
  edges m t n hm ht hn := by simpa using h.edges m t n hm (by simpa using ht) hn
  scope := h.scope
  loops := h.loops

theorem compute (h : Confined b here b₁ owned exits) (hl : owned l) {ty : Option Ty} {op : Operation} :
    Confined b here (b₁.compute l ty op span) owned exits := (h.addTemporary ty).append hl

theorem close (h : Confined b here b₁ owned exits) (hl : owned l) {dst : Option Slot} {t : Transfer}
    (ht : ∀ m ∈ t.successors, (b.nextLabel ≤ m ∧ m < b₁.nextLabel) ∨ exits m) :
    Confined b here (b₁.close l dst t span) (fun m => owned m ∧ m ≠ l) exits where
  grows := h.grows.close (h.isOpen hl)
  keeps m hm hne := by rw [getElem?_close (h.ne_of_owned hl hm hne), h.keeps m hm hne]
  opens m := by
    have hne : b.IsOpen m → m ≠ here → m ≠ l := fun ho => h.ne_of_owned hl ho.lt
    grind [isOpen_close, h.opens m]
  place m hm := h.place m hm.1
  numbered m block hm hb := by
    have hlt : m < b₁.nextLabel := by simpa using (List.getElem?_eq_some_iff.mp hb).1
    obtain ⟨old, hold, hid⟩ := ((Grows.refl b₁).close (h.isOpen hl)).id_eq hlt hb
    exact hid.trans (h.numbered m old hm hold)
  edges m u n hm hu hn := by
    rw [nextLabel_close]
    rcases transferAt_of_close hu with hold | ⟨-, rfl⟩
    · exact h.edges m u n hm hold hn
    · exact ht n hn
  scope := h.scope
  loops := h.loops

theorem goto (h : Confined b here b₁ owned exits) (hl : owned l) {target : Label}
    (ht : (b.nextLabel ≤ target ∧ target < b₁.nextLabel) ∨ exits target) :
    Confined b here (b₁.close l none (.goto target) span) (fun m => owned m ∧ m ≠ l) exits :=
  h.close hl (by simpa [Transfer.successors] using ht)

theorem gotoFrom (h : Confined b here b₁ owned exits) {fin : Option Label} {target : Label}
    (hf : ∀ l, fin = some l → owned l)
    (ht : (b.nextLabel ≤ target ∧ target < b₁.nextLabel) ∨ exits target) :
    Confined b here (b₁.gotoFrom fin target span) (fun m => owned m ∧ fin ≠ some m) exits := by
  cases fin with
  | none => exact h.congr (by simp)
  | some l => exact (h.goto (hf l rfl) ht).congr (by grind)

theorem leave (h : Confined b here b₁ (· = l) exits) {t : Transfer} (ht : ∀ m ∈ t.successors, exits m) :
    Confined b here (b₁.close l none t span) (fun m => none = some m) exits :=
  (h.close rfl fun m hm => .inr (ht m hm)).congr (by simp)

theorem advance (h : Confined b here b₁ (· = l) exits) (dst : Option Slot) (t : Transfer) (span : Span)
    (ht : t.successors = [b₁.nextLabel]) :
    Confined b here (b₁.grow.close l dst t span) (· = b₁.nextLabel) exits := by
  have hlt := h.lt rfl
  have hle := h.nextLabel_le
  refine (h.grow.close (.inl rfl) fun m hm => .inl ?_).congr (by lia)
  simp [ht] at hm
  simp
  lia

theorem split (h : Confined b here b₁ (· = l) exits) {cond : Slot} :
    Confined b here
      (b₁.grow.grow.close l none (.branch cond b₁.nextLabel (b₁.nextLabel + 1)) span)
      (fun m => m = b₁.nextLabel ∨ m = b₁.nextLabel + 1) exits := by
  have hlt := h.lt rfl
  have hle := h.nextLabel_le
  refine (h.grow.grow.close (.inl (.inl rfl)) fun m hm => ?_).congr fun m => ?_
  · simp [Transfer.successors] at hm ⊢
    lia
  · simp
    lia

theorem call (h : Confined b here b₁ (· = l) exits) {note : Note} {slots : List Slot} {callee : Callee} :
    Confined b here (b₁.call l note slots callee) (· = b₁.nextLabel) exits :=
  (h.advance (some b₁.nextSlot) (.call slots callee false b₁.nextLabel) note.span rfl).addTemporary note.ty

theorem inScope (h : Confined b.enterScope here b₁ owned exits) :
    Confined b here b₁.exitScope owned exits where
  grows := (Step.enterScope b).grows.trans (h.grows.trans (Step.exitScope b₁).grows)
  keeps := h.keeps
  opens := h.opens
  place := h.place
  numbered := h.numbered
  edges := h.edges
  scope := by
    obtain ⟨rest, hr⟩ := h.grows.scopes
    have hcur : b₁.scopes.current = b.scopes.scopes.length := h.scope
    have hentry : b₁.scopes.scopes[b.scopes.scopes.length]? =
        some ⟨b.scopes.scopes.length, some b.scopes.current⟩ := by
      simp [← hr, ScopeTree.enter]
    simp [ScopeTree.exit, hcur, hentry]
  loops := h.loops

theorem inLoop {frame : LoopFrame} (h : Confined (b.pushLoop frame) here b₁ owned exits) :
    Confined b here b₁.dropLoop owned exits :=
  { h with
    grows := { h.grows with }
    loops := by simp [h.loops] }

section Ternary

variable {b₃ : Builder} {c x y : Placed} {note : Note} {s : Slot}

theorem fork (hc : Confined b here b₁ (· = c.block) exits) (note : Note) :
    Confined b here (b₁.fork c note) (fun m => m = b₁.nextLabel ∨ m = b₁.nextLabel + 1) exits :=
  (hc.addTemporary note.ty).split

theorem firstArm (hc : Confined b here b₁ (· = c.block) exits)
    (hx : Confined (b₁.fork c note) b₁.nextLabel b₂ (· = x.block) exits) :
    Confined b here (b₂.append x.block s (.move x.slot) span)
      (fun m => m = x.block ∨ m = b₁.nextLabel + 1) exits := by
  have hx' := hx.place x.block rfl
  simp [Builder.fork] at hx'
  exact (((hc.fork note).seq (.inl rfl) hx fun _ => .inr).append (.inr rfl)).congr (by lia)

theorem ternary {span' : Span} (hc : Confined b here b₁ (· = c.block) exits)
    (hx : Confined (b₁.fork c note) b₁.nextLabel b₂ (· = x.block) exits)
    (hy : Confined (b₂.append x.block s (.move x.slot) span) (b₁.nextLabel + 1) b₃ (· = y.block) exits) :
    Confined b here ((b₃.append y.block s (.move y.slot) span').join x.block y.block note.span)
      (· = b₃.nextLabel) exits := by
  have hle := hc.nextLabel_le
  have hx' := hx.place x.block rfl
  have hxlt := hx.lt rfl
  have hyle := hy.nextLabel_le
  have hy' := hy.place y.block rfl
  have hylt := hy.lt rfl
  simp [Builder.fork] at hx' hy' hyle
  -- both ends are open, and differ: the first is there before the second arm is begun
  have harms : Confined b here (b₃.append y.block s (.move y.slot) span') _ exits :=
    ((hc.firstArm hx).seq (.inr rfl) hy fun _ => .inr).append (.inr rfl)
  refine ((harms.grow.goto (.inl (.inl ⟨.inl rfl, ?_⟩)) ?_).goto ⟨.inl (.inr rfl), ?_⟩ ?_).congr ?_
  · lia
  · simp
    lia
  · lia
  · simp
    lia
  · simp
    lia

end Ternary

section Conditional

variable {b₃ : Builder} {c : Placed} {thenEnd elseEnd : Option Label}

theorem thenDone (span : Span) (hc : Confined b here b₁ (· = c.block) exits)
    (hbody : Confined b₁.grow b₁.nextLabel b₂ (fun m => thenEnd = some m) exits) :
    Confined b here (b₂.grow.close c.block none (.branch c.slot b₁.nextLabel b₂.nextLabel) span)
      (fun m => thenEnd = some m ∨ m = b₂.nextLabel) exits := by
  have hle := hc.nextLabel_le
  have hclt := hc.lt rfl
  have hlt := hbody.nextLabel_le
  have hplace := hbody.place c.block
  simp at hlt hplace
  refine (((hc.grow.seq (.inr rfl) hbody fun _ => .inr).grow).close (.inl (.inl ⟨.inl rfl, ?_⟩))
    fun m hm => ?_).congr ?_
  · lia
  · simp [Transfer.successors] at hm ⊢
    lia
  · grind

theorem ifThen (hc : Confined b here b₁ (· = c.block) exits)
    (hbody : Confined b₁.grow b₁.nextLabel b₂ (fun m => thenEnd = some m) exits) :
    Confined b here
      ((b₂.grow.close c.block none (.branch c.slot b₁.nextLabel b₂.nextLabel) span).gotoFrom thenEnd
        b₂.nextLabel span) (· = b₂.nextLabel) exits := by
  have hle := hc.nextLabel_le
  have hle' := hbody.nextLabel_le
  have hlt := fun m (hm : thenEnd = some m) => hbody.lt hm
  simp at hle'
  refine ((hc.thenDone span hbody).gotoFrom (fun m => .inl) (.inl ?_)).congr (by grind)
  simp
  lia

theorem ifElse (hc : Confined b here b₁ (· = c.block) exits)
    (hbody : Confined b₁.grow b₁.nextLabel b₂ (fun m => thenEnd = some m) exits)
    (helse : Confined (b₂.grow.close c.block none (.branch c.slot b₁.nextLabel b₂.nextLabel) span)
      b₂.nextLabel b₃ (fun m => elseEnd = some m) exits) :
    Confined b here ((b₃.grow.gotoFrom elseEnd b₃.nextLabel span).gotoFrom thenEnd b₃.nextLabel span)
      (· = b₃.nextLabel) exits := by
  have h₃ := ((hc.thenDone span hbody).seq (.inr rfl) helse fun _ => .inr).grow
  have hle := (hc.thenDone span hbody).nextLabel_le
  have hle' := helse.nextLabel_le
  have hlt := fun m (hm : thenEnd = some m) => hbody.lt hm
  have hlt' := fun m (hm : elseEnd = some m) => helse.lt hm
  have hplace := fun m (hm : elseEnd = some m) => helse.place m hm
  simp at hle hle' hplace
  refine ((h₃.gotoFrom (fun m hm => .inl (.inr hm)) (.inl ?_)).gotoFrom (fun m hm => ?_)
    (.inl ?_)).congr ?_
  · simp
    lia
  · grind
  · cases elseEnd <;> simp [Builder.gotoFrom] <;> lia
  · grind

end Conditional

section Loop

variable {c : Placed} {bodyEnd : Option Label} {head : Label}

theorem loopBody (h : Confined b here b₁ (· = c.block) exits) (hhead : b.nextLabel ≤ head)
    (hlt : head < b₁.nextLabel)
    (hbody : Confined (b₁.enterLoop head c span) b₁.nextLabel b₂ (fun m => bodyEnd = some m)
      fun m => m = b₁.nextLabel + 1 ∨ m = head) :
    Confined b here (b₂.gotoFrom bodyEnd head span).dropLoop (· = b₁.nextLabel + 1) exits := by
  have hle := h.nextLabel_le
  have hplace := hbody.place (b₁.nextLabel + 1)
  simp [Builder.enterLoop] at hplace
  have hback : Confined (b₁.enterLoop head c span) b₁.nextLabel (b₂.gotoFrom bodyEnd head span) _ _ :=
    hbody.gotoFrom (fun _ => id) (.inr (.inr rfl))
  refine ((h.split.seq (.inl rfl) hback.inLoop fun m hm => .inl ?_).congr ?_)
  · simp
    lia
  · grind

end Loop

end Confined

def Site.JumpsTo (p : Site) (exits : Label → Prop) : Prop :=
  p.isStmt = true → ∀ frame ∈ p.first.loops.head?, exits frame.onBreak ∧ exits frame.onContinue

def Site.Confines (p : Site) : Prop :=
  ∀ exits, p.first.IsOpen p.here → p.JumpsTo exits →
    Confined p.first p.here p.last (fun l => p.out = some l) exits

section Parts

variable {env : Env} {p : Site} {ps : List Site} {exits : Label → Prop} {l : Label}

theorem Confined.out {b b' : Builder} {here : Label} (h : Confined b here b' (· = l) exits) :
    Confined b here b' (fun m => some l = some m) exits := h.congr (by simp [eq_comm])

theorem Site.Confines.onward (h : p.Confines) (hl : p.out = some l) (ho : p.first.IsOpen p.here)
    (hj : p.JumpsTo exits) : Confined p.first p.here p.last (· = l) exits :=
  (h exits ho hj).congr (by simp [hl, eq_comm])

theorem Site.Confines.plain (h : p.Confines) (exits : Label → Prop) (hp : p.isStmt = false)
    (hl : p.out = some l) (ho : p.first.IsOpen p.here) : Confined p.first p.here p.last (· = l) exits :=
  h.onward hl ho (by simp [Site.JumpsTo, hp])

theorem Site.JumpsTo.of_loops {q : Site} (h : p.JumpsTo exits) (hp : p.isStmt = true)
    (hq : q.first.loops = p.first.loops) : q.JumpsTo exits := by
  intro _ frame hf
  apply h hp
  rwa [← hq]

theorem Splits.confines (h : Splits env p ps) (hps : ps.Forall Site.Confines) : p.Confines := by
  intro exits ho hjumps
  have hr : Confined p.first p.here p.first (· = p.here) exits := .refl ho
  cases h with
  | literal | constant | storeWildcard => exact (hr.compute rfl).out
  | «variable» | argsNil | fieldsNil | nil => exact hr.out
  | wildcard => exact (hr.addTemporary none).out
  | declare => exact hr.addBound.out
  | storeVariable => exact (hr.append rfl).out
  | unary | cast | test | mapping => exact ((hps.plain _ rfl rfl ho).compute rfl).out
  | list | field => exact (((hps.plain _ rfl rfl ho).compute rfl).compute rfl).out
  | storeField => exact (((hps.plain _ rfl rfl ho).compute rfl).append rfl).out
  | define => exact ((hps.plain _ rfl rfl ho).addBound.append rfl).out
  | group | expr => exact (hps.plain _ rfl rfl ho).out
  | binary | index =>
    have h₁ := hps.1.plain exits rfl rfl ho
    exact ((h₁.andThen (hps.2.plain _ rfl rfl (h₁.isOpen rfl))).compute rfl).out
  | storeIndex =>
    have h₁ := hps.1.plain exits rfl rfl ho
    exact ((h₁.andThen (hps.2.plain _ rfl rfl (h₁.isOpen rfl))).append rfl).out
  | argsCons | assign | update =>
    have h₁ := hps.1.plain exits rfl rfl ho
    exact (h₁.andThen (hps.2.plain _ rfl rfl (h₁.isOpen rfl))).out
  | fieldsCons =>
    have h₁ := (hr.compute rfl).andThen (hps.1.plain _ rfl rfl ((hr.compute rfl).isOpen rfl))
    exact (h₁.andThen (hps.2.plain _ rfl rfl (h₁.isOpen rfl))).out
  | call => exact (hps.plain _ rfl rfl ho).call.out
  | ternary =>
    obtain ⟨hc, hx, hy⟩ := hps
    have h₁ := hc.plain exits rfl rfl ho
    have h₂ := hx.plain exits rfl rfl ((h₁.fork _).isOpen (.inl rfl))
    exact (h₁.ternary h₂ (hy.plain _ rfl rfl ((h₁.firstArm h₂).isOpen (.inr rfl)))).out
  | block => exact hps exits ho hjumps
  | ifThen =>
    have h₁ := hps.1.plain exits rfl rfl ho
    have h₂ := hps.2 exits (h₁.grow.isOpen (.inr rfl)) (hjumps.of_loops rfl h₁.loops)
    exact (h₁.ifThen h₂).out
  | @ifElse span =>
    obtain ⟨hc, hbody, helse⟩ := hps
    have h₁ := hc.plain exits rfl rfl ho
    have h₂ := hbody exits (h₁.grow.isOpen (.inr rfl)) (hjumps.of_loops rfl h₁.loops)
    have h₃ := h₁.thenDone span h₂
    exact (h₁.ifElse h₂ (helse exits (h₃.isOpen (.inr rfl)) (hjumps.of_loops rfl h₃.loops))).out
  | @whileLoop span _ _ _ b =>
    obtain ⟨hc, hbody⟩ := hps
    have h₀ := hr.advance none (.goto b.nextLabel) span rfl
    have h₁ := hc.plain exits rfl rfl (h₀.isOpen rfl)
    refine ((h₀.andThen h₁).loopBody (Nat.le_refl _) (Nat.lt_of_lt_of_le (h₀.lt rfl) h₁.nextLabel_le)
      (hbody _ (h₁.split.isOpen (.inl rfl)) ?_)).out
    rintro - frame hf
    obtain rfl := Option.some.inj hf
    exact ⟨.inl rfl, .inr rfl⟩
  | ret => exact hr.leave (by simp [Transfer.successors])
  | retValue => exact ((hps.plain _ rfl rfl ho).append rfl).leave (by simp [Transfer.successors])
  | panic => exact (hps.plain _ rfl rfl ho).leave (by simp [Transfer.successors])
  | breakLoop hf => exact hr.leave (by simpa [Transfer.successors] using (hjumps rfl _ hf).1)
  | continueLoop hf => exact hr.leave (by simpa [Transfer.successors] using (hjumps rfl _ hf).2)
  | @lockLeft span _ _ b =>
    have h₀ := hr.advance none (.lock b.nextLabel) span rfl
    exact h₀.andThen (hps exits (h₀.isOpen rfl) (hjumps.of_loops rfl rfl))
  | @lock span _ _ b _ b₁ =>
    have h₀ := hr.advance none (.lock b.nextLabel) span rfl
    have h₁ := h₀.andThen (hps.onward rfl (h₀.isOpen rfl) (hjumps.of_loops rfl rfl))
    exact (h₁.advance none (.unlock b₁.nextLabel) span rfl).out
  | scope => exact (hps exits ho (hjumps.of_loops rfl rfl)).inScope
  | next =>
    have h₁ := hps.1.onward rfl ho (hjumps.of_loops rfl rfl)
    exact h₁.andThen (hps.2 exits (h₁.isOpen rfl) (hjumps.of_loops rfl h₁.loops))
  | leave => exact hps exits ho (hjumps.of_loops rfl rfl)

theorem Site.Run.confines (h : p.Run env) : p.Confines :=
  Site.Run.induct (fun _ _ hsplits hparts => hsplits.confines (hparts.imp fun _ => And.right)) h

end Parts

/-- From `b` to `b'` a region was built that control enters at block `here` and leaves at `out` or to
`exits`, and nothing else was touched. -/
structure SingleEntry (b : Builder) (here : Label) (b' : Builder) (out : Option Label)
    (exits : Label → Prop) : Prop where
  nextLabel_le : b.nextLabel ≤ b'.nextLabel
  numbered : ∀ (l : Label) (block : BasicBlock), b.nextLabel ≤ l → b'.blocks[l]? = some block → block.id = l
  others : ∀ l, l < b.nextLabel → l ≠ here → b'.blocks[l]? = b.blocks[l]?
  entry : ∃ old new, b.blocks[here]? = some old ∧ b'.blocks[here]? = some new ∧
    new.id = old.id ∧ new.name = old.name ∧ old.instructions <+: new.instructions
  successors : ∀ (l : Label) (block : BasicBlock), l = here ∨ b.nextLabel ≤ l →
    b'.blocks[l]? = some block → ∀ m ∈ block.successors, (b.nextLabel ≤ m ∧ m < b'.nextLabel) ∨ exits m
  goesOn : ∀ l, out = some l → (l = here ∨ b.nextLabel ≤ l) ∧ b'.IsOpen l
  closed : ∀ l, l = here ∨ (b.nextLabel ≤ l ∧ l < b'.nextLabel) → out ≠ some l → ¬ b'.IsOpen l
  vars : b.locals.vars <+: b'.locals.vars
  scopes : b.scopes.scopes <+: b'.scopes.scopes
  current : b'.scopes.current = b.scopes.current
  loops : b'.loops = b.loops

theorem Confined.singleEntry {b b' : Builder} {here : Label} {out : Option Label} {exits : Label → Prop}
    (h : Confined b here b' (fun l => out = some l) exits) (ho : b.IsOpen here) :
    SingleEntry b here b' out exits where
  nextLabel_le := h.nextLabel_le
  numbered := h.numbered
  others := h.keeps
  entry := by
    obtain ⟨old, hold, -⟩ := ho
    obtain ⟨new, hnew, hgrows⟩ := h.grows.blocks here old hold
    exact ⟨old, new, hold, hnew, hgrows.id, hgrows.name, hgrows.instructions⟩
  successors l block hl hb m hm := by
    cases ht : block.terminator with
    | none => simp [BasicBlock.successors, ht] at hm
    | some t =>
      refine h.edges l t.transfer m hl (transferAt_eq_some_iff.mpr ⟨block, t, hb, ht, rfl⟩) ?_
      simpa [BasicBlock.successors, Terminator.successors, ht] using hm
  goesOn l hl := ⟨h.place l hl, h.isOpen hl⟩
  closed l hl hne hopen := by
    rcases (h.opens l).mp hopen with ⟨hold, hhere⟩ | hout
    · have := hold.lt
      lia
    · exact hne hout
  vars := h.grows.vars
  scopes := h.grows.scopes
  current := h.scope
  loops := h.loops

/-- Lowering a statement or an expression into an open block builds a region with a single entry, and
touches nothing else, whatever else the builder holds. Only a statement can leave the region, to where
the jumps of the loop around go; an expression always goes on. -/
theorem lower_singleEntry {env : Env} {here : Label} {b : Builder} (ho : b.IsOpen here) :
    (∀ s out b', lowerStmt env s here b = .ok out b' →
      SingleEntry b here b' out fun m =>
        ∃ frame, b.loop? = some frame ∧ (m = frame.onBreak ∨ m = frame.onContinue)) ∧
    ∀ e r b', lowerExpr env e here b = .ok r b' →
      SingleEntry b here b' (some r.block) fun _ => False := by
  constructor
  · intro s out b' h
    have hrun : Site.Run env (.stmt s here b out b') := lowerStmt_inv h
    apply (hrun.confines _ ho ?_).singleEntry ho
    rintro - frame hframe
    exact ⟨⟨frame, hframe, .inl rfl⟩, frame, hframe, .inr rfl⟩
  · intro e r b' h
    have hrun : Site.Run env (.expr e here b r b') := lowerExpr_inv h
    exact (hrun.confines _ ho nofun).singleEntry ho

def strayBuilder : Builder where
  stem := "bb"
  blocks := [⟨0, "bb0", [], some ⟨none, .goto 40, 0, {}⟩⟩, .empty "bb" 1, .empty "bb" 2]
  locals := { vars := [.ofName "x" none .declared], bindings := [(⟨0, 0⟩, 0)] }
  loops := [⟨20, 30⟩]

def exitingStmt : Stmt :=
  .ifElse {} (.call {} none ⟨"f", {}⟩ []) (.mk [.breakLoop {}] {})
    (.whileLoop {} (.var {} ⟨"x", {}⟩ ⟨0, 0⟩) (.mk [.continueLoop {}] {}))

theorem exitingStmt_singleEntry : strayBuilder.IsOpen 1 ∧ ∃ b',
    lowerStmt ⟨.anonymous, id, [], []⟩ exitingStmt 1 strayBuilder = .ok (some 9) b' ∧
    b'.blocks.map (·.successors) = [[40], [3], [], [4, 5], [20], [6], [7, 8], [6], [9], []] ∧
    SingleEntry strayBuilder 1 b' (some 9) fun m =>
      ∃ frame, strayBuilder.loop? = some frame ∧ (m = frame.onBreak ∨ m = frame.onContinue) := by
  have ho : strayBuilder.IsOpen 1 := ⟨_, rfl, rfl⟩
  have htest : (match lowerStmt ⟨.anonymous, id, [], []⟩ exitingStmt 1 strayBuilder with
      | .ok out b' => decide (out = some 9 ∧ b'.blocks.map (·.successors) =
          [[40], [3], [], [4, 5], [20], [6], [7, 8], [6], [9], []])
      | .error _ _ => false) = true := by
    decide +kernel
  split at htest
  next out b' h =>
    obtain ⟨rfl, hsucc⟩ := of_decide_eq_true htest
    exact ⟨ho, b', h, hsucc, (lower_singleEntry ho).1 _ _ _ h⟩
  next => cases htest

end FlowGraph

import FlowGraph.Proofs.Calls
import FlowGraph.Proofs.Confinement
import FlowGraph.Proofs.Execution

/-!
What lowering an expression puts down, from whatever state of the builder it starts in. Every
instruction and every call gives its value to a temporary that is allocated on the way, nothing is
stored, and the value of the expression is in such a temporary or where a key was bound before.
-/

namespace FlowGraph

open Builder

def Action.Fills (P : Slot → Prop) : Action → Prop
  | .instruction i => i.op.isStore = false ∧ P i.dst
  | .terminator t => if t.transfer.isCall then ∃ s, t.dst = some s ∧ P s else t.dst = none

namespace Action.Fills

variable {P Q : Slot → Prop} {a : Action} {s : Slot}

theorem mono (h : a.Fills P) (hPQ : ∀ s, P s → Q s) : a.Fills Q := by
  cases a with
  | instruction i => exact ⟨h.1, hPQ _ h.2⟩
  | terminator t =>
    simp only [Action.Fills] at h ⊢
    split at h
    · next hcall =>
      obtain ⟨s, hs, hP⟩ := h
      simpa [hcall] using ⟨s, hs, hPQ s hP⟩
    · next hcall => simpa [hcall] using h

theorem of_target (h : a.Fills P) (ht : a.target? = some s) : P s := by
  cases a with
  | instruction i =>
    obtain ⟨hstore, hP⟩ := h
    obtain rfl : i.dst = s := by simpa [Action.target?, hstore] using ht
    exact hP
  | terminator t =>
    have hdst : t.dst = some s := ht
    simp only [Action.Fills, hdst] at h
    split at h
    · obtain ⟨_, hs, hP⟩ := h
      obtain rfl := Option.some.inj hs
      exact hP
    · cases h

end Action.Fills

namespace Builder

theorem Grows.isOpen_of_lt {b b' : Builder} {l : Label} (h : b.Grows b') (hl : l < b.nextLabel)
    (ho : b'.IsOpen l) : b.IsOpen l := by
  obtain ⟨block, hb, hopen⟩ := ho
  have hold := List.getElem?_eq_getElem hl
  obtain ⟨block', hb', hgrows⟩ := h.blocks l _ hold
  obtain rfl := Option.some.inj (hb'.symm.trans hb)
  refine ⟨_, hold, ?_⟩
  by_contra hclosed
  rw [hgrows.closed hclosed] at hopen
  exact hclosed hopen

def Allots (b b' : Builder) (s : Slot) : Prop := b.nextSlot ≤ s ∧ b'.locals.IsTemporary s

theorem Allots.later {b b₁ b₂ : Builder} {s : Slot} (h : b.Allots b₁ s) (hg : b₁.Grows b₂) :
    b.Allots b₂ s := ⟨h.1, hg.isTemporary h.2⟩

theorem allots_addTemporary (b : Builder) (ty : Option Ty) : b.Allots (b.addTemporary ty) b.nextSlot :=
  ⟨Nat.le_refl _, .ofName s!"%{b.locals.size}" ty .temporary, by simp, rfl⟩

/-- From `b` to `b'` nothing is bound, and all code that is put down gives its values to temporaries that
are allocated there. -/
structure Emission (b b' : Builder) : Prop where
  grows : b.Grows b'
  bindings : b'.locals.bindings = b.locals.bindings
  emits : ∀ l, ∃ new, actionsAt b'.blocks l = actionsAt b.blocks l ++ new ∧
    ∀ a ∈ new, a.Fills (b.Allots b')

namespace Emission

variable {b b₁ b₂ : Builder} {l : Label} {dst : Slot} {span : Span}

theorem refl (b : Builder) : b.Emission b where
  grows := .refl b
  bindings := rfl
  emits _ := ⟨[], by simp, by simp⟩

theorem trans (h : b.Emission b₁) (h' : b₁.Emission b₂) : b.Emission b₂ where
  grows := h.grows.trans h'.grows
  bindings := h'.bindings.trans h.bindings
  emits l := by
    obtain ⟨new, hnew, hfills⟩ := h.emits l
    obtain ⟨new', hnew', hfills'⟩ := h'.emits l
    refine ⟨new ++ new', by rw [hnew', hnew, List.append_assoc], fun a ha => ?_⟩
    rcases List.mem_append.mp ha with ha | ha
    · exact (hfills a ha).mono fun s hs => hs.later h'.grows
    · exact (hfills' a ha).mono fun s hs => ⟨Nat.le_trans h.grows.nextSlot_le hs.1, hs.2⟩

theorem allots (h : b.Emission b₁) {s : Slot} (hs : b₁.Allots b₂ s) : b.Allots b₂ s :=
  ⟨Nat.le_trans h.grows.nextSlot_le hs.1, hs.2⟩

theorem addTemporary (h : b.Emission b₁) (ty : Option Ty) : b.Emission (b₁.addTemporary ty) :=
  h.trans ⟨(Step.addTemporary b₁ ty).grows, rfl, fun _ => ⟨[], by simp, by simp⟩⟩

theorem grow (h : b.Emission b₁) : b.Emission b₁.grow :=
  h.trans ⟨(Step.grow b₁).grows, rfl, fun _ => ⟨[], by simp, by simp⟩⟩

theorem append (h : b.Emission b₁) {op : Operation} (ho : b₁.IsOpen l) (hop : op.isStore = false)
    (hd : b.Allots b₁ dst) : b.Emission (b₁.append l dst op span) where
  grows := h.grows.append ho
  bindings := h.bindings
  emits m := by
    obtain ⟨new, hnew, hfills⟩ := h.emits m
    rw [actionsAt_append ho, hnew, List.append_assoc]
    refine ⟨_, rfl, fun a ha => ?_⟩
    rcases List.mem_append.mp ha with ha | ha
    · exact hfills a ha
    · obtain ⟨-, rfl⟩ : m = l ∧ a = .instruction ⟨dst, op, b₁.scopes.current, span⟩ := by
        simpa using ha
      exact ⟨hop, hd⟩

theorem compute (h : b.Emission b₁) {ty : Option Ty} {op : Operation} (ho : b₁.IsOpen l)
    (hop : op.isStore = false) : b.Emission (b₁.compute l ty op span) :=
  (h.addTemporary ty).append ho hop (h.allots (allots_addTemporary b₁ ty))

theorem close (h : b.Emission b₁) {dst : Option Slot} {t : Transfer} (ho : b₁.IsOpen l)
    (hd : if t.isCall then ∃ s, dst = some s ∧ b.Allots b₁ s else dst = none) :
    b.Emission (b₁.close l dst t span) where
  grows := h.grows.close ho
  bindings := h.bindings
  emits m := by
    obtain ⟨new, hnew, hfills⟩ := h.emits m
    rw [actionsAt_close ho, hnew, List.append_assoc]
    refine ⟨_, rfl, fun a ha => ?_⟩
    rcases List.mem_append.mp ha with ha | ha
    · exact hfills a ha
    · obtain ⟨-, rfl⟩ : m = l ∧ a = .terminator ⟨dst, t, b₁.scopes.current, span⟩ := by simpa using ha
      exact hd

theorem goto (h : b.Emission b₁) {target : Label} (ho : b₁.IsOpen l) :
    b.Emission (b₁.close l none (.goto target) span) := h.close ho rfl

theorem fills (h : b.Emission b₁) {n : Nat} {a : Action} (ha : (actionsAt b₁.blocks l)[n]? = some a)
    (hn : (actionsAt b.blocks l).length ≤ n) : a.Fills (b.Allots b₁) := by
  obtain ⟨new, hnew, hfills⟩ := h.emits l
  rw [hnew, List.getElem?_append_right hn] at ha
  exact hfills a (List.mem_of_getElem? ha)

end Emission

/-- An emission that begins in block `here` and after which control is in block `last`: the newest one,
if any were added. If `here` is not open there is nothing to run, so control has not moved. -/
structure Course (b : Builder) (here : Label) (b' : Builder) (last : Label) : Prop
    extends Emission b b' where
  opened : b'.IsOpen last → b.IsOpen here
  stays : ¬ b.IsOpen here → last = here ∧ b'.offset here = b.offset here
  newest : (last = here ∧ b'.nextLabel = b.nextLabel) ∨ (b.nextLabel ≤ last ∧ b'.nextLabel = last + 1)

theorem Emission.course {b b' : Builder} {here last : Label} (h : b.Emission b') (ho : b.IsOpen here)
    (hlast : (last = here ∧ b'.nextLabel = b.nextLabel) ∨ (b.nextLabel ≤ last ∧ b'.nextLabel = last + 1)) :
    Course b here b' last :=
  ⟨h, fun _ => ho, fun hn => absurd ho hn, hlast⟩

namespace Course

variable {b b₁ b₂ : Builder} {here l m : Label} {span : Span}

theorem refl (b : Builder) (here : Label) : Course b here b here :=
  ⟨.refl b, id, fun _ => ⟨rfl, rfl⟩, .inl ⟨rfl, rfl⟩⟩

theorem trans (h : Course b here b₁ l) (h' : Course b₁ l b₂ m) : Course b here b₂ m where
  toEmission := h.toEmission.trans h'.toEmission
  opened ho := h.opened (h'.opened ho)
  stays hn := by
    obtain ⟨rfl, hoffset⟩ := h.stays hn
    obtain ⟨hm, hoffset'⟩ := h'.stays fun ho => hn (h.opened ho)
    exact ⟨hm, hoffset'.trans hoffset⟩
  newest := by
    have := h.newest
    have := h'.newest
    lia

theorem addTemporary (h : Course b here b₁ l) (ty : Option Ty) : Course b here (b₁.addTemporary ty) l :=
  ⟨h.toEmission.addTemporary ty, h.opened, h.stays, h.newest⟩

theorem compute (h : Course b here b₁ l) {ty : Option Ty} {op : Operation} (ho : b₁.IsOpen l)
    (hop : op.isStore = false) : Course b here (b₁.compute l ty op span) l :=
  (h.toEmission.compute ho hop).course (h.opened ho) (by simpa [Builder.compute] using h.newest)

theorem call (h : Course b here b₁ l) {note : Note} {args : List Slot} {callee : Callee}
    (ho : (b₁.grow.addTemporary note.ty).IsOpen l) :
    Course b here (b₁.call l note args callee) b₁.nextLabel where
  toEmission := by
    have hnew : b.Allots (b₁.grow.addTemporary note.ty) b₁.nextSlot :=
      h.grow.allots (allots_addTemporary b₁.grow note.ty)
    exact (h.grow.addTemporary note.ty).close ho ⟨_, rfl, hnew⟩
  opened hlast := by
    -- from a block that is not there yet, the call would close the very block that it goes on in
    have hne : b₁.nextLabel ≠ l := (isOpen_close.mp hlast).2
    exact h.opened ((isOpen_grow.mp ho).resolve_right hne.symm)
  stays hn := by
    obtain ⟨rfl, hoffset⟩ := h.stays hn
    obtain rfl := (isOpen_grow.mp ho).resolve_left fun ho => hn (h.opened ho)
    exact ⟨rfl, by simpa [Builder.call] using hoffset⟩
  newest := .inr ⟨h.grows.nextLabel_le, by simp [Builder.call]⟩

end Course

/-- An expression is evaluated to the slot of `r`: a temporary of its own, or where a key was bound. -/
structure Evaluated (b : Builder) (here : Label) (b' : Builder) (r : Placed) : Prop
    extends Course b here b' r.block where
  value : b.Allots b' r.slot ∨ ∃ key, b.locals.lookup? key = some r.slot

theorem Course.evaluated {b b₁ : Builder} {here l : Label} {ty : Option Ty} {op : Operation}
    {span : Span} (h : Course b here b₁ l) (ho : b₁.IsOpen l) (hop : op.isStore = false) :
    Evaluated b here (b₁.compute l ty op span) ⟨b₁.nextSlot, l⟩ where
  toCourse := h.compute ho hop
  value := .inl (h.allots (allots_addTemporary b₁ ty))

section Ternary

variable {b b₁ b₂ b₃ : Builder} {here : Label} {c x y : Placed} {note : Note} {sx sy : Span}

theorem Course.isOpen_of_arms (hc : Course b here b₁ c.block)
    (hfork : (b₁.addTemporary note.ty).grow.grow.IsOpen c.block)
    (hx : Course (b₁.fork c note) b₁.nextLabel b₂ x.block) (hleft : b₂.IsOpen x.block)
    (hright : b₂.IsOpen (b₁.nextLabel + 1)) : b.IsOpen here := by
  -- Something is put down in both arms, so the branch to them closed neither of the two.
  have hne : b₁.nextLabel ≠ c.block := (isOpen_close.mp (hx.opened hleft)).2
  have hne' : b₁.nextLabel + 1 ≠ c.block := by
    have hlt : b₁.nextLabel + 1 < (b₁.fork c note).nextLabel := by simp [fork]
    exact (isOpen_close.mp (hx.grows.isOpen_of_lt hlt hright)).2
  have hcond : (b₁.IsOpen c.block ∨ c.block = b₁.nextLabel) ∨ c.block = b₁.nextLabel + 1 := by
    simpa using hfork
  exact hc.opened ((hcond.resolve_right hne'.symm).resolve_right hne.symm)

theorem Course.ternary (hc : Course b here b₁ c.block)
    (hfork : (b₁.addTemporary note.ty).grow.grow.IsOpen c.block)
    (hx : Course (b₁.fork c note) b₁.nextLabel b₂ x.block) (hleft : b₂.IsOpen x.block)
    (hy : Course (b₂.append x.block b₁.nextSlot (.move x.slot) sx) (b₁.nextLabel + 1) b₃ y.block)
    (hright : b₃.IsOpen y.block)
    (hjoin : (b₃.append y.block b₁.nextSlot (.move y.slot) sy).grow.IsOpen x.block)
    (hjoin' : ((b₃.append y.block b₁.nextSlot (.move y.slot) sy).grow.close x.block none
      (.goto (b₃.append y.block b₁.nextSlot (.move y.slot) sy).nextLabel) note.span).IsOpen y.block) :
    Evaluated b here ((b₃.append y.block b₁.nextSlot (.move y.slot) sy).join x.block y.block note.span)
      ⟨b₁.nextSlot, b₃.nextLabel⟩ := by
  have hstart : b.IsOpen here := hc.isOpen_of_arms hfork hx hleft (isOpen_append.mp (hy.opened hright))
  -- the slot of the choice is allocated before the arms, and written behind each of them
  have hslot : b.Allots (b₁.fork c note) b₁.nextSlot := hc.allots (allots_addTemporary b₁ note.ty)
  have hslot₂ := hslot.later hx.grows
  have hslot₃ : b.Allots b₃ b₁.nextSlot := ⟨hslot.1, hy.grows.isTemporary hslot₂.2⟩
  have hbranch : b.Emission (b₁.fork c note) := (hc.addTemporary note.ty).grow.grow.close hfork rfl
  have hfirst : b.Emission (b₂.append x.block b₁.nextSlot (.move x.slot) sx) :=
    (hbranch.trans hx.toEmission).append hleft rfl hslot₂
  have hsecond : b.Emission (b₃.append y.block b₁.nextSlot (.move y.slot) sy) :=
    (hfirst.trans hy.toEmission).append hright rfl hslot₃
  have hjoined : b.Emission
      ((b₃.append y.block b₁.nextSlot (.move y.slot) sy).join x.block y.block note.span) :=
    (hsecond.grow.goto hjoin).goto hjoin'
  have hle : b.nextLabel ≤ b₃.nextLabel := by simpa using hsecond.grows.nextLabel_le
  exact ⟨hjoined.course hstart (.inr ⟨hle, by simp [join]⟩), .inl hslot₃⟩

end Ternary

end Builder

namespace Build

theorem isOpen_of_compute {b b' : Builder} {l : Label} {ty : Option Ty} {op : Operation} {span : Span}
    {s : Slot} (h : compute l ty op span b = .ok s b') : b.IsOpen l := by
  simp only [compute, bind_eq_ok_iff, temporary_eq_ok_iff, emit_eq_ok_iff] at h
  obtain ⟨_, _, ⟨-, rfl⟩, _, _, ⟨ho, -⟩, -⟩ := h
  exact ho

end Build

open Build

theorem lowerVar_evaluated {env : Env} {name : Ident} {symbol : Symbol} {here : Label}
    {b b' : Builder} {r : Placed} (h : lowerVar env name symbol here b = .ok r b') :
    Evaluated b here b' r := by
  rw [lowerVar, bind_eq_ok_iff] at h
  obtain ⟨slot?, _, hslot, h⟩ := h
  obtain ⟨rfl, rfl⟩ : b.locals.lookup? (env.refKey symbol) = slot? ∧ b = _ := pure_eq_ok_iff.mp hslot
  cases hslot : b.locals.lookup? (env.refKey symbol) with
  | some slot =>
    simp only [hslot, pure_eq_ok_iff] at h
    obtain ⟨rfl, rfl⟩ := h
    exact ⟨.refl b here, .inr ⟨_, hslot⟩⟩
  | none =>
    cases hc : env.constant? (env.refKey symbol) with
    | none =>
      simp only [hslot, hc] at h
      exact absurd h fail_ne_ok
    | some c =>
      simp only [hslot, hc, bind_eq_ok_iff, pure_eq_ok_iff] at h
      obtain ⟨_, _, hload, rfl, rfl⟩ := h
      obtain ⟨rfl, rfl⟩ := compute_of_ok hload
      exact (Course.refl b here).evaluated (isOpen_of_compute hload) rfl

mutual

theorem lowerExpr_evaluated {env : Env} {e : Expr} {here : Label} {b b' : Builder} {r : Placed}
    (h : lowerExpr env e here b = .ok r b') : Evaluated b here b' r := by
  match e with
  | .literal note value =>
    simp only [lowerExpr, bind_eq_ok_iff, pure_eq_ok_iff] at h
    obtain ⟨_, _, hload, rfl, rfl⟩ := h
    obtain ⟨rfl, rfl⟩ := compute_of_ok hload
    exact (Course.refl b here).evaluated (isOpen_of_compute hload) rfl
  | .var note name symbol => exact lowerVar_evaluated (by simpa only [lowerExpr] using h)
  | .binary note op lhs rhs =>
    simp only [lowerExpr, bind_eq_ok_iff, pure_eq_ok_iff] at h
    obtain ⟨code, _, hcode, left, b₁, hl, right, b₂, hr, _, _, hcompute, rfl, rfl⟩ := h
    obtain ⟨-, rfl⟩ := requireOpcode_of_ok hcode
    obtain ⟨rfl, rfl⟩ := compute_of_ok hcompute
    have hargs := (lowerExpr_evaluated hl).toCourse.trans (lowerExpr_evaluated hr).toCourse
    exact hargs.evaluated (isOpen_of_compute hcompute) rfl
  | .unary note op operand =>
    simp only [lowerExpr, bind_eq_ok_iff, pure_eq_ok_iff] at h
    obtain ⟨code, _, hcode, value, b₁, hv, _, _, hcompute, rfl, rfl⟩ := h
    obtain ⟨-, rfl⟩ := requireOpcode_of_ok hcode
    obtain ⟨rfl, rfl⟩ := compute_of_ok hcompute
    exact (lowerExpr_evaluated hv).toCourse.evaluated (isOpen_of_compute hcompute) rfl
  | .call note qualifier name args =>
    simp only [lowerExpr, bind_eq_ok_iff, pure_eq_ok_iff, addBlock_eq_ok_iff, temporary_eq_ok_iff,
      terminate_eq_ok_iff] at h
    obtain ⟨callee, _, hcallee, ⟨slots, last⟩, b₁, hargs, _, _, ⟨rfl, rfl⟩, _, _, ⟨rfl, rfl⟩, _, _,
      ⟨ho, rfl⟩, rfl, rfl⟩ := h
    obtain ⟨-, rfl⟩ := orFail_of_ok hcallee
    have h₁ := lowerArgs_course hargs
    exact ⟨h₁.call ho, .inl (h₁.allots (allots_addTemporary b₁ note.ty))⟩
  | .index note container key =>
    simp only [lowerExpr, bind_eq_ok_iff, pure_eq_ok_iff] at h
    obtain ⟨k, b₁, hkey, base, b₂, hbase, _, _, hcompute, rfl, rfl⟩ := h
    obtain ⟨rfl, rfl⟩ := compute_of_ok hcompute
    have hargs := (lowerExpr_evaluated hkey).toCourse.trans (lowerExpr_evaluated hbase).toCourse
    exact hargs.evaluated (isOpen_of_compute hcompute) (Access.loadFrom_isStore container)
  | .list note elements elementTy =>
    simp only [lowerExpr, bind_eq_ok_iff, pure_eq_ok_iff] at h
    obtain ⟨⟨values, last⟩, b₁, hargs, _, _, hload, _, _, hcompute, rfl, rfl⟩ := h
    obtain ⟨rfl, rfl⟩ := compute_of_ok hload
    obtain ⟨rfl, rfl⟩ := compute_of_ok hcompute
    have hsize : Course b here (b₁.load last (.int (.ofNat values.length)) (some .int) note.span) last :=
      (lowerArgs_course hargs).compute (isOpen_of_compute hload) rfl
    exact hsize.evaluated (isOpen_of_compute hcompute) rfl
  | .cast note operand target =>
    simp only [lowerExpr, bind_eq_ok_iff, pure_eq_ok_iff] at h
    obtain ⟨value, b₁, hv, _, _, hcompute, rfl, rfl⟩ := h
    obtain ⟨rfl, rfl⟩ := compute_of_ok hcompute
    exact (lowerExpr_evaluated hv).toCourse.evaluated (isOpen_of_compute hcompute) rfl
  | .test note operand target negated =>
    simp only [lowerExpr, bind_eq_ok_iff, pure_eq_ok_iff] at h
    obtain ⟨value, b₁, hv, _, _, hcompute, rfl, rfl⟩ := h
    obtain ⟨rfl, rfl⟩ := compute_of_ok hcompute
    exact (lowerExpr_evaluated hv).toCourse.evaluated (isOpen_of_compute hcompute) rfl
  | .group note inner => exact lowerExpr_evaluated (by simpa only [lowerExpr] using h)
  | .wildcard note =>
    simp only [lowerExpr, bind_eq_ok_iff, pure_eq_ok_iff, temporary_eq_ok_iff] at h
    obtain ⟨_, _, ⟨rfl, rfl⟩, rfl, rfl⟩ := h
    exact ⟨(Course.refl b here).addTemporary none, .inl (allots_addTemporary b none)⟩
  | .field note base name =>
    simp only [lowerExpr, bind_eq_ok_iff, pure_eq_ok_iff] at h
    obtain ⟨value, b₁, hv, _, _, hload, _, _, hcompute, rfl, rfl⟩ := h
    obtain ⟨rfl, rfl⟩ := compute_of_ok hload
    obtain ⟨rfl, rfl⟩ := compute_of_ok hcompute
    have hname : Course b here (b₁.loadName value.block name) value.block :=
      (lowerExpr_evaluated hv).toCourse.compute (isOpen_of_compute hload) rfl
    exact hname.evaluated (isOpen_of_compute hcompute) rfl
  | .mapping note fields =>
    simp only [lowerExpr, bind_eq_ok_iff, pure_eq_ok_iff] at h
    obtain ⟨⟨entries, last⟩, b₁, hf, _, _, hcompute, rfl, rfl⟩ := h
    obtain ⟨rfl, rfl⟩ := compute_of_ok hcompute
    exact (lowerFields_course hf).evaluated (isOpen_of_compute hcompute) rfl
  | .ternary note cond whenTrue whenFalse =>
    simp only [lowerExpr, bind_eq_ok_iff, pure_eq_ok_iff, addBlock_eq_ok_iff, temporary_eq_ok_iff,
      terminate_eq_ok_iff, emit_eq_ok_iff, Build.goto, and_assoc, exists_and_left, exists_eq_left',
      nextLabel_grow, exists_const] at h
    obtain ⟨c, b₁, hc, hfork, x, b₂, hx, hleft, y, b₃, hy, hright, hjoin, hjoin', rfl, rfl⟩ := h
    simpa only [join, nextLabel_append] using
      (lowerExpr_evaluated hc).ternary hfork (lowerExpr_evaluated hx).toCourse hleft
        (lowerExpr_evaluated hy).toCourse hright hjoin hjoin'

theorem lowerArgs_course {env : Env} {es : List Expr} {here last : Label} {b b' : Builder}
    {slots : List Slot} (h : lowerArgs env es here b = .ok (slots, last) b') :
    Course b here b' last := by
  match es with
  | [] =>
    simp only [lowerArgs, pure_eq_ok_iff, Prod.mk.injEq] at h
    obtain ⟨⟨rfl, rfl⟩, rfl⟩ := h
    exact .refl b here
  | e :: es =>
    simp only [lowerArgs, bind_eq_ok_iff, pure_eq_ok_iff, Prod.mk.injEq] at h
    obtain ⟨value, b₁, he, ⟨slots, last⟩, b₂, hes, ⟨rfl, rfl⟩, rfl⟩ := h
    exact (lowerExpr_evaluated he).toCourse.trans (lowerArgs_course hes)

theorem lowerFields_course {env : Env} {fields : List (Ident × Expr)} {here last : Label}
    {b b' : Builder} {entries : List MapEntry}
    (h : lowerFields env fields here b = .ok (entries, last) b') : Course b here b' last := by
  match fields with
  | [] =>
    simp only [lowerFields, pure_eq_ok_iff, Prod.mk.injEq] at h
    obtain ⟨⟨rfl, rfl⟩, rfl⟩ := h
    exact .refl b here
  | (name, e) :: fields =>
    simp only [lowerFields, bind_eq_ok_iff, pure_eq_ok_iff, Prod.mk.injEq] at h
    obtain ⟨_, _, hload, value, b₁, he, ⟨entries, last⟩, b₂, hfields, ⟨rfl, rfl⟩, rfl⟩ := h
    obtain ⟨rfl, rfl⟩ := compute_of_ok hload
    have hname : Course b here (b.loadName here name) here :=
      (Course.refl b here).compute (isOpen_of_compute hload) rfl
    exact (hname.trans (lowerExpr_evaluated he).toCourse).trans (lowerFields_course hfields)

end

def Site.Lowers (env : Env) : Site → Prop
  | .expr e here b r b' => lowerExpr env e here b = .ok r b'
  | .args es here b slots last b' => lowerArgs env es here b = .ok (slots, last) b'
  | .fields fs here b entries last b' => lowerFields env fs here b = .ok (entries, last) b'
  | _ => True

section Lowers

variable {env : Env} {p : Site} {ps : List Site} {l : Label}

theorem Site.Run.isOpen_out (h : p.Run env) (hp : p.isStmt = false) (hl : p.out = some l)
    (ho : p.first.IsOpen p.here) : p.last.IsOpen l :=
  (h.confines.plain (fun _ => False) hp hl ho).isOpen rfl

theorem Confined.arms_open {b b₁ b₂ b₃ : Builder} {here : Label} {c x y : Placed} {note : Note}
    {s : Slot} {span : Span} {exits : Label → Prop} (hc : Confined b here b₁ (· = c.block) exits)
    (hx : Confined (b₁.fork c note) b₁.nextLabel b₂ (· = x.block) exits)
    (hy : Confined (b₂.append x.block s (.move x.slot) span) (b₁.nextLabel + 1) b₃ (· = y.block) exits) :
    b₃.IsOpen x.block ∧ y.block ≠ x.block := by
  have hx' := hx.place x.block rfl
  have hxlt := hx.lt rfl
  have hy' := hy.place y.block rfl
  simp [Builder.fork] at hx' hy'
  have harms := (hc.firstArm hx).seq (.inr rfl) hy fun _ => .inr
  exact ⟨harms.isOpen (.inl ⟨.inl rfl, by lia⟩), by lia⟩

theorem Splits.lowers (h : Splits env p ps)
    (hps : ps.Forall fun q => q.Run env ∧ (q.first.IsOpen q.here → q.Lowers env))
    (ho : p.first.IsOpen p.here) : p.Lowers env := by
  cases h with
  | literal =>
    simp only [Site.Lowers, lowerExpr, bind_eq_ok_iff, pure_eq_ok_iff]
    exact ⟨_, _, load_run ho, rfl, rfl⟩
  | «variable» hslot =>
    simp only [Site.Lowers, lowerExpr, lowerVar, bind_eq_ok_iff]
    refine ⟨_, _, rfl, ?_⟩
    simp only [hslot, pure_eq_ok_iff, and_self]
  | constant hslot hc =>
    simp only [Site.Lowers, lowerExpr, lowerVar, bind_eq_ok_iff]
    refine ⟨_, _, rfl, ?_⟩
    simp only [hslot, hc, bind_eq_ok_iff, pure_eq_ok_iff]
    exact ⟨_, _, load_run ho, rfl, rfl⟩
  | binary hop =>
    obtain ⟨⟨hrun, hl⟩, hrun', hr⟩ := hps
    have ho₁ := hrun.isOpen_out rfl rfl ho
    have ho₂ := hrun'.isOpen_out rfl rfl ho₁
    simp only [Site.Lowers, lowerExpr, bind_eq_ok_iff, pure_eq_ok_iff, hop]
    exact ⟨_, _, rfl, _, _, hl ho, _, _, hr ho₁, _, _, compute_run ho₂, rfl, rfl⟩
  | unary hop =>
    obtain ⟨hrun, hv⟩ := hps
    simp only [Site.Lowers, lowerExpr, bind_eq_ok_iff, pure_eq_ok_iff, hop]
    exact ⟨_, _, rfl, _, _, hv ho, _, _, compute_run (hrun.isOpen_out rfl rfl ho), rfl, rfl⟩
  | call hcallee =>
    obtain ⟨hrun, hargs⟩ := hps
    have ho₁ := hrun.isOpen_out rfl rfl ho
    simp only [Site.Lowers, lowerExpr, bind_eq_ok_iff, pure_eq_ok_iff, addBlock_eq_ok_iff,
      temporary_eq_ok_iff, terminate_eq_ok_iff, hcallee]
    exact ⟨_, _, rfl, _, _, hargs ho, _, _, ⟨rfl, rfl⟩, _, _, ⟨rfl, rfl⟩, (), _,
      ⟨isOpen_grow.mpr (.inl ho₁), rfl⟩, rfl, rfl⟩
  | index =>
    obtain ⟨⟨hrun, hk⟩, hrun', hbase⟩ := hps
    have ho₁ := hrun.isOpen_out rfl rfl ho
    have ho₂ := hrun'.isOpen_out rfl rfl ho₁
    simp only [Site.Lowers, lowerExpr, bind_eq_ok_iff, pure_eq_ok_iff]
    exact ⟨_, _, hk ho, _, _, hbase ho₁, _, _, compute_run ho₂, rfl, rfl⟩
  | list =>
    obtain ⟨hrun, hargs⟩ := hps
    have ho₁ := hrun.isOpen_out rfl rfl ho
    simp only [Site.Lowers, lowerExpr, bind_eq_ok_iff, pure_eq_ok_iff]
    exact ⟨_, _, hargs ho, _, _, load_run ho₁, _, _, compute_run (isOpen_append.mpr ho₁), by simp, rfl⟩
  | cast | test =>
    obtain ⟨hrun, hv⟩ := hps
    simp only [Site.Lowers, lowerExpr, bind_eq_ok_iff, pure_eq_ok_iff]
    exact ⟨_, _, hv ho, _, _, compute_run (hrun.isOpen_out rfl rfl ho), rfl, rfl⟩
  | group => simpa only [Site.Lowers, lowerExpr] using hps.2 ho
  | wildcard =>
    simp only [Site.Lowers, lowerExpr, bind_eq_ok_iff, pure_eq_ok_iff, temporary_eq_ok_iff]
    exact ⟨_, _, ⟨rfl, rfl⟩, rfl, rfl⟩
  | field =>
    obtain ⟨hrun, hv⟩ := hps
    have ho₁ := hrun.isOpen_out rfl rfl ho
    simp only [Site.Lowers, lowerExpr, bind_eq_ok_iff, pure_eq_ok_iff]
    exact ⟨_, _, hv ho, _, _, load_run ho₁, _, _, compute_run (isOpen_append.mpr ho₁), by simp, rfl⟩
  | mapping =>
    obtain ⟨hrun, hf⟩ := hps
    simp only [Site.Lowers, lowerExpr, bind_eq_ok_iff, pure_eq_ok_iff]
    exact ⟨_, _, hf ho, _, _, compute_run (hrun.isOpen_out rfl rfl ho), rfl, rfl⟩
  | @ternary note _ whenTrue _ _ _ c b₁ x b₂ =>
    obtain ⟨⟨hrun, hc⟩, ⟨hrun', hx⟩, hrun'', hy⟩ := hps
    have h₁ := hrun.confines.plain (fun _ => False) rfl rfl ho
    have hleft : (b₁.fork c note).IsOpen b₁.nextLabel := (h₁.fork note).isOpen (.inl rfl)
    have h₂ := hrun'.confines.plain (fun _ => False) rfl rfl hleft
    have hright : (b₂.append x.block b₁.nextSlot (.move x.slot) whenTrue.span).IsOpen (b₁.nextLabel + 1) :=
      (h₁.firstArm h₂).isOpen (.inr rfl)
    have h₃ := hrun''.confines.plain (fun _ => False) rfl rfl hright
    obtain ⟨hopen, hne⟩ := h₁.arms_open h₂ h₃
    simp only [Site.Lowers, lowerExpr, bind_eq_ok_iff, pure_eq_ok_iff, addBlock_eq_ok_iff,
      temporary_eq_ok_iff, terminate_eq_ok_iff, emit_eq_ok_iff, Build.goto, and_assoc, exists_and_left,
      exists_eq_left', nextLabel_grow, exists_const]
    refine ⟨_, _, hc ho, ?_, _, _, hx hleft, h₂.isOpen rfl, _, _, hy hright, h₃.isOpen rfl, ?_, ?_, ?_, ?_⟩
    · exact isOpen_grow.mpr (.inl (isOpen_grow.mpr (.inl (h₁.isOpen rfl))))
    · exact isOpen_grow.mpr (.inl (isOpen_append.mpr hopen))
    · exact isOpen_close.mpr ⟨isOpen_grow.mpr (.inl (isOpen_append.mpr (h₃.isOpen rfl))), hne⟩
    · rw [nextLabel_append]
    · rw [nextLabel_append, join, nextLabel_append]
  | argsNil => simp only [Site.Lowers, lowerArgs, pure_eq_ok_iff, and_self]
  | argsCons =>
    obtain ⟨⟨hrun, he⟩, -, hes⟩ := hps
    simp only [Site.Lowers, lowerArgs, bind_eq_ok_iff, pure_eq_ok_iff]
    exact ⟨_, _, he ho, _, _, hes (hrun.isOpen_out rfl rfl ho), rfl, rfl⟩
  | fieldsNil => simp only [Site.Lowers, lowerFields, pure_eq_ok_iff, and_self]
  | @fieldsCons name _ _ here b =>
    obtain ⟨⟨hrun, he⟩, -, hfs⟩ := hps
    have ho₁ : (b.loadName here name).IsOpen here := isOpen_append.mpr ho
    simp only [Site.Lowers, lowerFields, bind_eq_ok_iff, pure_eq_ok_iff]
    exact ⟨_, _, load_run ho, _, _, he ho₁, _, _, hfs (hrun.isOpen_out rfl rfl ho₁), rfl, rfl⟩
  | _ => trivial

theorem Site.Run.lowers (h : p.Run env) : p.first.IsOpen p.here → p.Lowers env :=
  Site.Run.induct (fun _ _ hsplits hps => hsplits.lowers hps) h

end Lowers

end FlowGraph

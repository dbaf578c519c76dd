import FlowGraph.Proofs.Execution

/-!
The graph of an expression computes its value. While it runs, it changes only temporaries of its
own, so that the slots of variables, and those of operands computed before, keep what they hold.
-/

namespace FlowGraph

universe u v

open Builder

theorem BinOp.ofName?_opcode {op : BinOp} {code : Opcode} (h : op.opcode? = some code) :
    BinOp.ofName? code.name = some op := by
  cases op <;> cases h <;> rfl

theorem UnOp.ofName?_opcode {op : UnOp} {code : Opcode} (h : op.opcode? = some code) :
    UnOp.ofName? code.name = some op := by
  cases op <;> cases h <;> rfl

namespace Builder

/-- A slot that no expression changes, in the function that `b` ends up as. -/
def Fixed (b : Builder) (s : Slot) : Prop :=
  b.locals.IsTemporary s → ∀ l, writersAt b.blocks l s = []

theorem ne_of_fixed {b : Builder} {l : Label} {n s t : Slot} (hs : s < n ∨ b.Fixed s) (hn : n ≤ t)
    (ht : b.locals.IsTemporary t) (hw : writersAt b.blocks l t ≠ []) : s ≠ t := by
  rintro rfl
  rcases hs with hlt | hfixed
  · exact Nat.not_le_of_lt hlt hn
  · exact hw (hfixed ht l)

end Builder

section Ternary

variable {b b₁ b₂ b₃ bf : Builder} {c x y : Placed} {note : Note} {span span' : Span}
  (hx : Evaluation (b₁.fork c note) b₁.nextLabel b₂ x.block [x.slot])
  (hy : Evaluation (b₂.append x.block b₁.nextSlot (.move x.slot) span) (b₁.nextLabel + 1) b₃ y.block
    [y.slot])

include hx hy

theorem Evaluation.arms_offset (span' : Span) :
    (b₂.append x.block b₁.nextSlot (.move x.slot) span).offset (b₁.nextLabel + 1) = 0 ∧
      (b₃.append y.block b₁.nextSlot (.move y.slot) span').offset x.block =
        (b₂.append x.block b₁.nextSlot (.move x.slot) span).offset x.block := by
  have hne := hx.arms_ne hy
  have hlt := hx.lt rfl
  constructor
  · rw [offset_append_ne hne.2.symm,
      offset_congr (hx.keeps _ (by simp [Builder.fork]) (Nat.succ_ne_self _))]
    simpa [Builder.fork] using offset_of_le (Nat.le_succ b₁.nextLabel)
  · rw [offset_append_ne hne.1.symm, offset_congr (hy.keeps _ (by simpa using hlt) hne.2)]

end Ternary

structure Builder.Unambiguous (b : Builder) : Prop extends b.Sound where
  nodup : b.keys.Nodup

theorem Builder.Unambiguous.lookup? {b bf : Builder} {key : Symbol} {s : Slot} (hbf : bf.Unambiguous)
    (h : b.Grows bf) (hs : b.locals.lookup? key = some s) : bf.locals.lookup? key = some s := by
  obtain ⟨later, hl⟩ := h.bindings
  have hmem : key ∈ b.locals.bindings.map (·.1) :=
    Locals.lookup?_isSome_iff.mp (by simp [hs])
  have hnone : later.lookup key = none := by
    have hnd := hbf.nodup
    rw [Builder.keys, ← hl, List.map_append, List.nodup_append] at hnd
    rw [List.lookup_eq_none_iff]
    intro p hp
    have := hnd.2.2 p.1 (List.mem_map_of_mem hp) key hmem
    simpa using Ne.symm this
  rw [Locals.lookup?, ← hl, List.lookup_append, hnone]
  exact hs

namespace Interp

variable {V : Type u} {S : Type v} {I : Interp V S} {env : Env} {f : FunctionDef} {bf : Builder}

theorem instruction_compute {i : Instruction} {ρ : Slot → V} {s : S} {x : V × S}
    (hi : i.op.isStore = false) (hx : I.compute ρ s i.op = some x) :
    I.instruction i ρ s = some (Function.update ρ i.dst x.1, x.2) := by
  unfold instruction
  split
  next hstore => simp [hi] at hstore
  next => simp [hx]

structure Point (V : Type u) (S : Type v) where
  b : Builder
  l : Label
  ρ : Slot → V
  s : S

def Point.config (p : Point V S) : Config V S := ⟨p.l, p.b.offset p.l, p.ρ, p.s⟩

/-- Control comes from `p` to `q` in the graph of `bf`, and only temporaries that are not there in
`p` change. -/
structure Evaluates (I : Interp V S) (env : Env) (f : FunctionDef) (bf : Builder)
    (p q : Point V S) : Prop where
  reaches : I.Reaches (bf.graph env f) p.config q.config
  keeps : ∀ i, i < p.b.nextSlot ∨ bf.Fixed i → q.ρ i = p.ρ i

namespace Evaluates

variable {p q r : Point V S}

theorem refl (p : Point V S) : Evaluates I env f bf p p := ⟨.refl _, fun _ _ => rfl⟩

theorem trans (h : Evaluates I env f bf p q) (h' : Evaluates I env f bf q r)
    (hle : p.b.nextSlot ≤ q.b.nextSlot) : Evaluates I env f bf p r where
  reaches := h.reaches.trans h'.reaches
  keeps i hi := by
    rw [h'.keeps i (hi.imp_left fun hlt => Nat.lt_of_lt_of_le hlt hle), h.keeps i hi]

theorem append {b : Builder} {l : Label} {ρ : Slot → V} {s : S} {dst : Slot} {op : Operation}
    {span : Span} {x : V × S} (h : Evaluates I env f bf p ⟨b, l, ρ, s⟩) (ho : b.IsOpen l)
    (hg : (b.append l dst op span).Grows bf) (hle : p.b.nextSlot ≤ dst)
    (ht : bf.locals.IsTemporary dst) (hstore : op.isStore = false)
    (hx : I.compute ρ s op = some x) :
    Evaluates I env f bf p ⟨b.append l dst op span, l, Function.update ρ dst x.1, x.2⟩ := by
  obtain ⟨block, hb, hi⟩ := Grows.instruction hg ho
  have hmem : .instruction ⟨dst, op, b.scopes.current, span⟩ ∈ block.actions :=
    List.mem_append_left _ (List.mem_map_of_mem (List.mem_of_getElem? hi))
  have hw := writersAt_ne_nil (s := dst) hb hmem (by simp [Action.target?, hstore])
  refine ⟨h.reaches.trans ?_, fun i hi' => ?_⟩
  · have hreach := Reaches.instruction (g := bf.graph env f) hb hi (instruction_compute hstore hx)
    simpa [Point.config, offset_append ho] using hreach
  · simpa [ne_of_fixed hi' hle ht hw] using h.keeps i hi'

theorem reached {b b' : Builder} {l l' : Label} {ρ ρ' : Slot → V} {s s' : S}
    (h : Evaluates I env f bf ⟨b, l, ρ, s⟩ ⟨b', l', ρ', s'⟩) :
    I.Reaches (bf.graph env f) ⟨l, b.offset l, ρ, s⟩ ⟨l', b'.offset l', ρ', s'⟩ := h.reaches

theorem kept {b b' : Builder} {l l' : Label} {ρ ρ' : Slot → V} {s s' : S} {i : Slot}
    (h : Evaluates I env f bf ⟨b, l, ρ, s⟩ ⟨b', l', ρ', s'⟩) (hi : i < b.nextSlot) : ρ' i = ρ i :=
  h.keeps i (.inl hi)

theorem computed {b : Builder} {l : Label} {ρ : Slot → V} {s : S} {ty : Option Ty} {op : Operation}
    {span : Span} {x : V × S} {i : Slot} (h : Evaluates I env f bf p ⟨b, l, ρ, s⟩)
    (hle : p.b.nextSlot ≤ b.nextSlot) (ho : b.IsOpen l) (hg : (b.compute l ty op span).Grows bf)
    (hi : b.nextSlot = i) (hstore : op.isStore = false) (hx : I.compute ρ s op = some x) :
    ∃ ρ', Evaluates I env f bf p ⟨b.compute l ty op span, l, ρ', x.2⟩ ∧ ρ' i = x.1 := by
  have h' : Evaluates I env f bf p ⟨b.addTemporary ty, l, ρ, s⟩ := ⟨h.reaches, h.keeps⟩
  have htemp : bf.locals.IsTemporary b.nextSlot :=
    hg.isTemporary ⟨_, List.getElem?_concat_length, rfl⟩
  exact ⟨_, h'.append ho hg hle htemp hstore hx, hi ▸ Function.update_self ..⟩

theorem load (I : Interp V S) (env : Env) (f : FunctionDef) {b : Builder} {l : Label} (ρ : Slot → V)
    (s : S) {value : Literal} {ty : Option Ty} {span : Span} (ho : b.IsOpen l)
    (hg : (b.load l value ty span).Grows bf) :
    ∃ ρ', Evaluates I env f bf ⟨b, l, ρ, s⟩ ⟨b.load l value ty span, l, ρ', s⟩ ∧
      ρ' b.nextSlot = I.const value ty :=
  (refl ⟨b, l, ρ, s⟩).computed (Nat.le_refl _) ho hg rfl rfl rfl

theorem call {b : Builder} {l : Label} {ρ : Slot → V} {s : S} {note : Note} {slots : List Slot}
    {callee : Callee} {xs : List V} (h : Evaluates I env f bf p ⟨b, l, ρ, s⟩)
    (hle : p.b.nextSlot ≤ b.nextSlot) (ho : b.IsOpen l) (hg : (b.call l note slots callee).Grows bf)
    (hxs : slots.map ρ = xs) :
    ∃ ρ', Evaluates I env f bf p
      ⟨b.call l note slots callee, b.nextLabel, ρ', (I.call callee.key s xs).2⟩ ∧
      ρ' b.nextSlot = (I.call callee.key s xs).1 := by
  subst hxs
  have ho' : (b.grow.addTemporary note.ty).IsOpen l := isOpen_grow.mpr (.inl ho)
  obtain ⟨block, hb, hlen, ht⟩ := Grows.terminator hg ho'
  have htemp : bf.locals.IsTemporary b.nextSlot :=
    hg.isTemporary ⟨_, List.getElem?_concat_length, rfl⟩
  have hmem : .terminator _ ∈ block.actions :=
    List.mem_append_right _ (List.mem_map_of_mem (Option.mem_toList.mpr ht))
  have hw := writersAt_ne_nil hb hmem rfl
  refine ⟨Function.update ρ b.nextSlot (I.call callee.key s (slots.map ρ)).1,
    ⟨h.reaches.trans ?_, fun i hi' => ?_⟩, Function.update_self ..⟩
  · have hleap := Leaps.terminator (I := I) (ρ := ρ) (s := s) (g := bf.graph env f) hb hlen ht rfl
    simpa [Point.config, Builder.call, offset_nextLabel] using hleap.reaches
  · simpa [ne_of_fixed hi' hle htemp hw] using h.keeps i hi'

theorem jump {b b' : Builder} {l l' : Label} {ρ : Slot → V} {s : S}
    (h : Evaluates I env f bf p ⟨b, l, ρ, s⟩)
    (hl : I.Leaps (bf.graph env f) ⟨l, b.offset l, ρ, s⟩ ⟨l', 0, ρ, s⟩) (h₀ : b'.offset l' = 0) :
    Evaluates I env f bf p ⟨b', l', ρ, s⟩ := by
  refine ⟨h.reaches.trans ?_, h.keeps⟩
  simpa [Point.config, h₀] using hl.reaches

end Evaluates

section Close

variable {b : Builder} {l m : Label} {dst : Option Slot} {t : Transfer} {span : Span}
  {ρ ρ' : Slot → V} {s s' : S} {o : Outcome V S}

theorem leaps_close (ho : b.IsOpen l) (hg : (b.close l dst t span).Grows bf)
    (hx : I.terminator 0 ⟨dst, t, b.scopes.current, span⟩ ρ s = .jump m ρ' s') :
    I.Leaps (bf.graph env f) ⟨l, b.offset l, ρ, s⟩ ⟨m, 0, ρ', s'⟩ := by
  obtain ⟨block, hb, hlen, ht⟩ := Grows.terminator hg ho
  exact Leaps.terminator hb hlen ht hx

theorem halts_close (ho : b.IsOpen l) (hg : (b.close l dst t span).Grows bf)
    (hx : I.terminator 0 ⟨dst, t, b.scopes.current, span⟩ ρ s = .halt o) :
    I.Halts (bf.graph env f) ⟨l, b.offset l, ρ, s⟩ o := by
  obtain ⟨block, hb, hlen, ht⟩ := Grows.terminator hg ho
  exact Halts.terminator hb hlen ht hx

theorem leaps_goto (ho : b.IsOpen l) (hg : (b.close l none (.goto m) span).Grows bf) :
    I.Leaps (bf.graph env f) ⟨l, b.offset l, ρ, s⟩ ⟨m, 0, ρ, s⟩ :=
  leaps_close ho hg rfl

theorem leaps_fork {c : Placed} {note : Note} (ho : b.IsOpen c.block) (hg : (b.fork c note).Grows bf) :
    I.Leaps (bf.graph env f) ⟨c.block, b.offset c.block, ρ, s⟩
      ⟨if I.truth (ρ c.slot) then b.nextLabel else b.nextLabel + 1, 0, ρ, s⟩ := by
  have ho' : (b.addTemporary note.ty).grow.grow.IsOpen c.block := by simp [isOpen_grow, ho]
  simpa using leaps_close (I := I) (ρ := ρ) (s := s) ho' hg rfl

end Close

theorem Evaluates.join {p : Point V S} {b b' : Builder} {l m k n : Label} {span : Span} {ρ : Slot → V}
    {s : S} (h : Evaluates I env f bf p ⟨b', k, ρ, s⟩) (hl : b.IsOpen l) (hm : b.IsOpen m)
    (hne : m ≠ l) (hg : (b.join l m span).Grows bf) (hk : k = l ∨ k = m)
    (hoff : b.offset k = b'.offset k) (hn : b.nextLabel = n) :
    Evaluates I env f bf p ⟨b.join l m span, n, ρ, s⟩ := by
  subst hn
  have hl' : b.grow.IsOpen l := isOpen_grow.mpr (.inl hl)
  have hm' : (b.grow.close l none (.goto b.nextLabel) span).IsOpen m := by
    simp [hm, hne]
  refine h.jump ?_ (by simpa [Builder.join] using offset_nextLabel (b := b))
  rw [← hoff]
  rcases hk with rfl | rfl
  · simpa using leaps_goto (I := I) (ρ := ρ) (s := s) hl' (((Grows.refl _).close hm').trans hg)
  · simpa using leaps_goto (I := I) (ρ := ρ) (s := s) hm' hg

/-- The variables of the source hold what the slots they are bound to hold, and nothing else has
been set that counts. -/
structure Matches (I : Interp V S) (bf : Builder) (σ : Symbol → V) (ρ : Slot → V) : Prop where
  vars : ∀ key s, bf.locals.lookup? key = some s → ρ s = σ key
  unset : ∀ s, bf.locals.IsTemporary s → (∀ l, writersAt bf.blocks l s = []) → ρ s = I.unset
  result : ρ 0 = I.unset

namespace Matches

variable {σ : Symbol → V} {ρ ρ' : Slot → V}

theorem of_fixed (h : Matches I bf σ ρ) (hbf : bf.Sound) (hρ : ∀ s, bf.Fixed s → ρ' s = ρ s) :
    Matches I bf σ ρ' where
  vars key s hs := by
    have hnamed := hbf.bound key s (Locals.lookup?_mem hs)
    rw [hρ s fun ht => absurd ht hnamed.not_isTemporary, h.vars key s hs]
  unset s hs hw := by rw [hρ s fun _ => hw, h.unset s hs hw]
  result := by rw [hρ 0 fun ht => absurd ht hbf.result_not_isTemporary, h.result]

theorem of_evaluates {b b' : Builder} {l l' : Label} {s s' : S} (h : Matches I bf σ ρ)
    (hbf : bf.Sound) (he : Evaluates I env f bf ⟨b, l, ρ, s⟩ ⟨b', l', ρ', s'⟩) : Matches I bf σ ρ' :=
  h.of_fixed hbf fun s hs => he.keeps s (.inr hs)

theorem update (h : Matches I bf σ ρ) (hbf : bf.Sound) {key : Symbol} {slot : Slot} (v : V)
    (hslot : bf.locals.lookup? key = some slot) :
    Matches I bf (Function.update σ key v) (Function.update ρ slot v) := by
  have hnamed := hbf.bound key slot (Locals.lookup?_mem hslot)
  refine ⟨fun key' s hs => ?_, fun s hs hw => ?_, ?_⟩
  · by_cases hkey : key' = key
    · subst hkey
      obtain rfl := Option.some.inj (hs.symm.trans hslot)
      simp
    · have hne : s ≠ slot := by
        rintro rfl
        exact hkey (hbf.key_eq hs hslot)
      simpa [hkey, hne] using h.vars key' s hs
  · have hne : s ≠ slot := by
      rintro rfl
      exact hnamed.not_isTemporary hs
    simpa [hne] using h.unset s hs hw
  · have hne : 0 ≠ slot := by
      rintro rfl
      obtain ⟨v, hv, hk⟩ := hnamed
      obtain ⟨v', hv', hk'⟩ := hbf.result
      grind
    simpa [hne] using h.result

end Matches

end Interp

open Interp

section

variable {V : Type u} {S : Type v} {I : Interp V S} {env : Env} {f : FunctionDef} {bf : Builder}
  {σ : Symbol → V} {keys : List Symbol}

theorem ArgsRun.length {es : List Expr} {here last : Label} {b b' : Builder} {slots : List Slot}
    (h : ArgsRun env es here b slots last b') : slots.length = es.length := by
  induction es generalizing here b slots with
  | nil =>
    cases h
    rfl
  | cons e es ih =>
    cases h with
    | cons he hes => simp [ih hes]

variable (hbf : bf.Unambiguous)

include hbf

mutual

theorem ExprRun.simulates {e : Expr} {here : Label} {b b' : Builder} {r : Placed} {ρ : Slot → V}
    (h : ExprRun env e here b r b') (hb : b.Sound) (ho : b.IsOpen here) (hs : Sealed b b' bf)
    (hk : b.keys = keys) (hσ : Matches I bf σ ρ) (s : S) :
    ∃ ρ', Evaluates I env f bf ⟨b, here, ρ, s⟩ ⟨b', r.block, ρ', (I.expr env keys σ e s).2⟩ ∧
      ρ' r.slot = (I.expr env keys σ e s).1 := by
  have hg := hs.grows
  cases h with
  | literal =>
    exact Evaluates.load I env f ρ s ho hg
  | @«variable» _ _ symbol _ _ slot hslot =>
    have hmem : env.refKey symbol ∈ keys := hk ▸ mem_keys_iff.mpr (by simp [hslot])
    refine ⟨ρ, .refl _, ?_⟩
    simp [expr, Interp.lookup, hmem, hσ.vars _ _ (hbf.lookup? hg hslot)]
  | @constant _ _ symbol _ _ c hslot hc =>
    have hmem : env.refKey symbol ∉ keys := by
      rw [← hk, mem_keys_iff, hslot]
      simp
    simpa [expr, Interp.lookup, hmem, hc] using Evaluates.load I env f ρ s ho hg
  | @binary _ op lhs rhs _ _ code left b₁ right b₂ hop hl hr =>
    have e₁ := hl.evaluation hb ho
    have e₂ := hr.evaluation (e₁.sound hb) e₁.open_last
    have hs₂ := hs.compute e₂.open_last
    obtain ⟨ρ₁, ev₁, hx⟩ := hl.simulates hb ho (hs₂.before e₂.frame) hk hσ s
    obtain ⟨ρ₂, ev₂, hy⟩ := hr.simulates (e₁.sound hb) e₁.open_last (hs₂.after e₁.nextSlot_le)
      (e₁.keys.trans hk) (hσ.of_evaluates hbf.toSound ev₁) (I.expr env keys σ lhs s).2
    have hx₂ := (ev₂.kept e₁.slot_lt).trans hx
    refine (ev₁.trans ev₂ e₁.nextSlot_le).computed (e₁.seq e₂).nextSlot_le e₂.open_last hg rfl rfl ?_
    simp [Interp.compute, BinOp.ofName?_opcode hop, hx₂, hy, expr]
  | unary hop hv =>
    have e₁ := hv.evaluation hb ho
    obtain ⟨ρ₁, ev₁, hx⟩ := hv.simulates hb ho (hs.compute e₁.open_last) hk hσ s
    refine ev₁.computed e₁.nextSlot_le e₁.open_last hg rfl rfl ?_
    simp [Interp.compute, UnOp.ofName?_opcode hop, hx, expr]
  | call hcallee hargs =>
    have e₁ := hargs.evaluation hb ho
    have hs₁ := hs.before (Evaluation.refl e₁.open_last e₁.slots_lt).call.frame
    obtain ⟨ρ₁, ev₁, hxs⟩ := hargs.simulates hb ho hs₁ hk hσ s
    simp only [expr, hcallee]
    exact ev₁.call e₁.nextSlot_le e₁.open_last hg hxs
  | @index _ container key _ _ k b₁ base b₂ hkey hbase =>
    have e₁ := hkey.evaluation hb ho
    have e₂ := hbase.evaluation (e₁.sound hb) e₁.open_last
    have hs₂ := hs.compute e₂.open_last
    obtain ⟨ρ₁, ev₁, hx⟩ := hkey.simulates hb ho (hs₂.before e₂.frame) hk hσ s
    obtain ⟨ρ₂, ev₂, hy⟩ := hbase.simulates (e₁.sound hb) e₁.open_last (hs₂.after e₁.nextSlot_le)
      (e₁.keys.trans hk) (hσ.of_evaluates hbf.toSound ev₁) (I.expr env keys σ key s).2
    have hx₂ := (ev₂.kept e₁.slot_lt).trans hx
    refine (ev₁.trans ev₂ e₁.nextSlot_le).computed (e₁.seq e₂).nextSlot_le e₂.open_last hg
      rfl (Access.loadFrom_isStore _) ?_
    simp [Interp.compute, hx₂, hy, expr]
  | @list _ elements _ _ _ _ _ _ hargs =>
    have e₁ := hargs.evaluation hb ho
    have hs₂ := hs.compute e₁.load.open_last
    obtain ⟨ρ₁, ev₁, hxs⟩ := hargs.simulates hb ho (hs₂.compute e₁.open_last) hk hσ s
    obtain ⟨ρ₂, ev₂, hn⟩ := Evaluates.load I env f ρ₁ (I.exprs env keys σ elements s).2
      e₁.open_last hs₂.grows
    have hxs₂ := (List.map_congr_left fun i hi => ev₂.kept (e₁.slots_lt i hi)).trans hxs
    refine (ev₁.trans ev₂ e₁.nextSlot_le).computed e₁.load.nextSlot_le e₁.load.open_last hg
      (nextSlot_load ..) rfl ?_
    simp [Interp.compute, hxs₂, hn, hargs.length, expr]
  | cast hv =>
    have e₁ := hv.evaluation hb ho
    obtain ⟨ρ₁, ev₁, hx⟩ := hv.simulates hb ho (hs.compute e₁.open_last) hk hσ s
    refine ev₁.computed e₁.nextSlot_le e₁.open_last hg rfl rfl ?_
    simp [Interp.compute, hx, expr]
  | test hv =>
    have e₁ := hv.evaluation hb ho
    obtain ⟨ρ₁, ev₁, hx⟩ := hv.simulates hb ho (hs.compute e₁.open_last) hk hσ s
    refine ev₁.computed e₁.nextSlot_le e₁.open_last hg rfl rfl ?_
    simp [Interp.compute, hx, expr]
  | group hi =>
    simp only [expr]
    exact hi.simulates hb ho hs hk hσ s
  | wildcard =>
    have htemp : (b.addTemporary none).locals.IsTemporary b.nextSlot :=
      ⟨_, List.getElem?_concat_length, rfl⟩
    refine ⟨ρ, ⟨.refl _, fun _ _ => rfl⟩, hσ.unset _ (hg.isTemporary htemp) fun l => ?_⟩
    rw [hs.writes l _ (Nat.le_refl _) htemp]
    exact hb.writersAt_eq_nil (Nat.le_refl _)
  | @field _ base _ _ _ _ _ hv =>
    have e₁ := hv.evaluation hb ho
    have hs₂ := hs.compute e₁.load.open_last
    obtain ⟨ρ₁, ev₁, hx⟩ := hv.simulates hb ho (hs₂.compute e₁.open_last) hk hσ s
    obtain ⟨ρ₂, ev₂, hn⟩ := Evaluates.load I env f ρ₁ (I.expr env keys σ base s).2
      e₁.open_last hs₂.grows
    have hx₂ := (ev₂.kept e₁.slot_lt).trans hx
    refine (ev₁.trans ev₂ e₁.nextSlot_le).computed e₁.load.nextSlot_le e₁.load.open_last hg
      (nextSlot_load ..) rfl ?_
    simp [Interp.compute, hx₂, hn, fieldName, expr]
  | mapping hf =>
    have e₁ := hf.evaluation hb ho
    obtain ⟨ρ₁, ev₁, hx⟩ := hf.simulates hb ho (hs.compute e₁.open_last) hk hσ s
    refine ev₁.computed e₁.nextSlot_le e₁.open_last hg rfl rfl ?_
    simp [Interp.compute, hx, expr]
  | @ternary note cond whenTrue whenFalse _ _ c b₁ x b₂ y b₃ hc hx hy =>
    have e₁ := hc.evaluation hb ho
    have e₂ := hx.evaluation (e₁.fork.sound hb) (e₁.fork.isOpen (.inl rfl))
    have harm := e₁.firstArm whenTrue.span e₂
    have e₃ := hy.evaluation (harm.sound hb) (harm.isOpen (.inr rfl))
    have hne := e₂.arms_ne e₃
    obtain ⟨hleft, hright⟩ := e₂.arms_open whenFalse.span e₃
    have hs₄ := hs.before ((Frame.refl _).join hleft hright hne.1)
    obtain ⟨hs₂, hs₃⟩ := e₂.arms_sealed e₃ hs₄ e₁.nextSlot_le
    have hs₁ := hs.before ((Evaluation.refl e₁.open_last e₁.slots_lt).ternary e₂ e₃).frame
    have htemp : bf.locals.IsTemporary b₁.nextSlot := hs₂.grows.isTemporary
      (e₂.steps.grows.isTemporary ⟨_, List.getElem?_concat_length, rfl⟩)
    obtain ⟨hoff₃, hoff⟩ := e₂.arms_offset e₃ whenFalse.span
    have hnext := nextLabel_append b₃ y.block b₁.nextSlot (.move y.slot) whenFalse.span
    have hle₂ : b.nextSlot ≤ (b₁.fork c note).nextSlot :=
      Nat.le_trans e₁.nextSlot_le (by simp [Builder.fork])
    have hle₃ := Nat.le_trans hle₂ e₂.nextSlot_le
    obtain ⟨ρ₁, ev₁, hcond⟩ := hc.simulates hb ho hs₁ hk hσ s
    have hσ₁ := hσ.of_evaluates hbf.toSound ev₁
    have hk₁ := e₁.keys.trans hk
    have hfork : I.Leaps (bf.graph env f) ⟨c.block, b₁.offset c.block, ρ₁, _⟩ _ :=
      leaps_fork (s := (I.expr env keys σ cond s).2) e₁.open_last (hs₂.before e₂.frame).grows
    rw [hcond] at hfork
    simp only [expr]
    cases htruth : I.truth (I.expr env keys σ cond s).1 with
    | true =>
      simp only [htruth, if_true] at hfork ⊢
      obtain ⟨ρ₂, ev₂, hval⟩ := hx.simulates (e₁.fork.sound hb) (e₁.fork.isOpen (.inl rfl)) hs₂ hk₁ hσ₁
        (I.expr env keys σ cond s).2
      have hstart : (b₁.fork c note).offset b₁.nextLabel = 0 := by
        simpa [Builder.fork] using offset_nextLabel (b := b₁)
      have ev := (((ev₁.jump hfork hstart).trans ev₂ hle₂).append e₂.open_last
        (hs₃.before e₃.frame).grows e₁.nextSlot_le htemp rfl rfl)
      rw [hval] at ev
      exact ⟨_, ev.join hleft hright hne.1 hg (.inl rfl) hoff hnext, Function.update_self ..⟩
    | false =>
      simp only [htruth] at hfork ⊢
      obtain ⟨ρ₂, ev₂, hval⟩ := hy.simulates (harm.sound hb) (harm.isOpen (.inr rfl)) hs₃
        (e₂.keys.trans hk₁) hσ₁ (I.expr env keys σ cond s).2
      have ev := (((ev₁.jump hfork hoff₃).trans ev₂ hle₃).append e₃.open_last
        hs₄.grows e₁.nextSlot_le htemp rfl rfl)
      rw [hval] at ev
      exact ⟨_, ev.join hleft hright hne.1 hg (.inr rfl) rfl hnext, Function.update_self ..⟩

theorem ArgsRun.simulates {es : List Expr} {here last : Label} {b b' : Builder} {slots : List Slot}
    {ρ : Slot → V} (h : ArgsRun env es here b slots last b') (hb : b.Sound) (ho : b.IsOpen here)
    (hs : Sealed b b' bf) (hk : b.keys = keys) (hσ : Matches I bf σ ρ) (s : S) :
    ∃ ρ', Evaluates I env f bf ⟨b, here, ρ, s⟩ ⟨b', last, ρ', (I.exprs env keys σ es s).2⟩ ∧
      slots.map ρ' = (I.exprs env keys σ es s).1 := by
  match h with
  | .nil => exact ⟨ρ, .refl _, rfl⟩
  | @ArgsRun.cons _ e es _ _ value b₁ slots _ _ he hes =>
    have e₁ := he.evaluation hb ho
    have e₂ := hes.evaluation (e₁.sound hb) e₁.open_last
    obtain ⟨ρ₁, ev₁, hx⟩ := he.simulates hb ho (hs.before e₂.frame) hk hσ s
    obtain ⟨ρ₂, ev₂, hxs⟩ := hes.simulates (e₁.sound hb) e₁.open_last (hs.after e₁.nextSlot_le)
      (e₁.keys.trans hk) (hσ.of_evaluates hbf.toSound ev₁) (I.expr env keys σ e s).2
    have hx₂ := (ev₂.kept e₁.slot_lt).trans hx
    refine ⟨ρ₂, ev₁.trans ev₂ e₁.nextSlot_le, ?_⟩
    simp [hx₂, hxs, exprs]

theorem FieldsRun.simulates {fields : List (Ident × Expr)} {here last : Label} {b b' : Builder}
    {es : List MapEntry} {ρ : Slot → V} (h : FieldsRun env fields here b es last b') (hb : b.Sound)
    (ho : b.IsOpen here) (hs : Sealed b b' bf) (hk : b.keys = keys) (hσ : Matches I bf σ ρ) (s : S) :
    ∃ ρ', Evaluates I env f bf ⟨b, here, ρ, s⟩ ⟨b', last, ρ', (I.members env keys σ fields s).2⟩ ∧
      entries ρ' es = some (I.members env keys σ fields s).1 := by
  match h with
  | .nil => exact ⟨ρ, .refl _, rfl⟩
  | @FieldsRun.cons _ name e fields _ _ value b₁ es _ _ he hfields =>
    have hr : Evaluation b here b here [] := .refl ho (by simp)
    have e₀ := hr.loadName name
    have e₁ := he.evaluation (e₀.sound hb) e₀.open_last
    have e₂ := hfields.evaluation (e₁.sound (e₀.sound hb)) e₁.open_last
    have hs₁ := hs.before e₂.frame
    obtain ⟨ρ₀, ev₀, hn⟩ := Evaluates.load I env f ρ s ho (hs₁.before e₁.frame).grows
    have hσ₀ := hσ.of_evaluates hbf.toSound ev₀
    obtain ⟨ρ₁, ev₁, hx⟩ := he.simulates (e₀.sound hb) e₀.open_last
      (hs₁.after e₀.nextSlot_le) (e₀.keys.trans hk) hσ₀ s
    obtain ⟨ρ₂, ev₂, hxs⟩ := hfields.simulates (e₁.sound (e₀.sound hb)) e₁.open_last
      (hs.after (e₀.seq e₁).nextSlot_le) (e₁.keys.trans (e₀.keys.trans hk)) (hσ₀.of_evaluates hbf.toSound ev₁)
      (I.expr env keys σ e s).2
    have hn₁ := (ev₁.kept (e₀.slots_lt b.nextSlot (by simp))).trans hn
    have hn₂ := (ev₂.kept ((e₀.seq e₁).slots_lt b.nextSlot (by simp))).trans hn₁
    have hx₂ := (ev₂.kept e₁.slot_lt).trans hx
    refine ⟨ρ₂, (ev₀.trans ev₁ e₀.nextSlot_le).trans ev₂ (e₀.seq e₁).nextSlot_le, ?_⟩
    simp [entries, hn₂, hx₂, hxs, members, fieldName]

end

end

end FlowGraph

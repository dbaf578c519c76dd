import FlowGraph.Proofs.Function
import FlowGraph.Proofs.Meaning

/-!
Runs of a graph that is being built. Code that a builder has put down stays where it is, so what it
does can be said before the graph is complete: a place is a block with the number of instructions
it has so far.
-/

namespace FlowGraph

universe u v

open Builder

namespace Interp

variable {V : Type u} {S : Type v} {I : Interp V S} {g : Graph} {c c₁ c₂ : Config V S}
  {o : Outcome V S} {n m : Nat}

theorem run_succ (h : I.run g n c = some o) : I.run g (n + 1) c = some o := by
  induction n generalizing c with
  | zero => simp [run] at h
  | succ n ih =>
    rw [run] at h ⊢
    split at h <;> try exact h
    split at h <;> try exact h
    split at h
    · exact ih h
    · exact h

theorem run_mono (h : I.run g n c = some o) (hle : n ≤ m) : I.run g m c = some o := by
  induction hle with
  | refl => exact h
  | step _ ih => exact run_succ ih

theorem run_none (h : I.run g m c = none) (hle : n ≤ m) : I.run g n c = none := by
  cases hn : I.run g n c with
  | none => rfl
  | some o => simp [run_mono hn hle] at h

def Reaches (I : Interp V S) (g : Graph) (c c' : Config V S) : Prop :=
  ∃ d, ∀ n, I.run g (n + d) c = I.run g n c'

def Leaps (I : Interp V S) (g : Graph) (c c' : Config V S) : Prop :=
  ∃ d, ∀ n, I.run g (n + d + 1) c = I.run g n c'

def Halts (I : Interp V S) (g : Graph) (c : Config V S) (o : Outcome V S) : Prop :=
  ∃ n, I.run g n c = some o

theorem Reaches.refl (c : Config V S) : I.Reaches g c c := ⟨0, fun _ => rfl⟩

theorem Reaches.trans (h : I.Reaches g c c₁) (h' : I.Reaches g c₁ c₂) : I.Reaches g c c₂ := by
  obtain ⟨d, hd⟩ := h
  obtain ⟨d', hd'⟩ := h'
  refine ⟨d' + d, fun n => ?_⟩
  rw [← Nat.add_assoc, hd, hd']

theorem Leaps.reaches (h : I.Leaps g c c₁) : I.Reaches g c c₁ := by
  obtain ⟨d, hd⟩ := h
  exact ⟨d + 1, hd⟩

theorem Leaps.trans (h : I.Leaps g c c₁) (h' : I.Reaches g c₁ c₂) : I.Leaps g c c₂ := by
  obtain ⟨d, hd⟩ := h
  obtain ⟨d', hd'⟩ := h'
  refine ⟨d' + d, fun n => ?_⟩
  rw [← Nat.add_assoc, hd, hd']

theorem Reaches.leaps (h : I.Reaches g c c₁) (h' : I.Leaps g c₁ c₂) : I.Leaps g c c₂ := by
  obtain ⟨d, hd⟩ := h
  obtain ⟨d', hd'⟩ := h'
  refine ⟨d' + d, fun n => ?_⟩
  rw [show n + (d' + d) + 1 = n + d' + 1 + d by omega, hd, hd']

theorem Reaches.halts (h : I.Reaches g c c₁) (h' : I.Halts g c₁ o) : I.Halts g c o := by
  obtain ⟨d, hd⟩ := h
  obtain ⟨n, hn⟩ := h'
  exact ⟨n + d, (hd n).trans hn⟩

theorem Reaches.run_none (h : I.Reaches g c c₁) (hn : I.run g n c₁ = none) :
    I.run g n c = none := by
  obtain ⟨d, hd⟩ := h
  exact Interp.run_none ((hd n).trans hn) (Nat.le_add_right n d)

theorem Leaps.run_none (h : I.Leaps g c c₁) (hn : I.run g n c₁ = none) :
    I.run g (n + 1) c = none := by
  obtain ⟨d, hd⟩ := h
  exact Interp.run_none ((hd n).trans hn) (by omega)

section Block

variable {block : BasicBlock} {l l' : Label} {i : Instruction} {t : Terminator} {ρ ρ' : Slot → V}
  {s s' : S}

theorem Reaches.instruction (hb : g.block? l = some block) (hi : block.instructions[n]? = some i)
    (hx : I.instruction i ρ s = some (ρ', s')) :
    I.Reaches g ⟨l, n, ρ, s⟩ ⟨l, n + 1, ρ', s'⟩ := by
  obtain ⟨hn, rfl⟩ := List.getElem?_eq_some_iff.mp hi
  have hcode : I.code (block.instructions.drop n) ρ s = I.code (block.instructions.drop (n + 1)) ρ' s' := by
    rw [List.drop_eq_getElem_cons hn, code, hx]
    rfl
  refine ⟨0, fun k => ?_⟩
  cases k with
  | zero => rfl
  | succ k => simp only [run, hb, hcode]

theorem Leaps.terminator (hb : g.block? l = some block) (hn : block.instructions.length = n)
    (ht : block.terminator = some t) (hx : I.terminator g.resultSlot t ρ s = .jump l' ρ' s') :
    I.Leaps g ⟨l, n, ρ, s⟩ ⟨l', 0, ρ', s'⟩ := by
  refine ⟨0, fun k => ?_⟩
  simp [run, hb, ← hn, code, ht, hx]

theorem Halts.terminator (hb : g.block? l = some block) (hn : block.instructions.length = n)
    (ht : block.terminator = some t) (hx : I.terminator g.resultSlot t ρ s = .halt o) :
    I.Halts g ⟨l, n, ρ, s⟩ o := by
  refine ⟨1, ?_⟩
  simp [run, hb, ← hn, code, ht, hx]

end Block

end Interp

namespace Builder

variable {b b' : Builder} {l m : Label} {span : Span}

def offset (b : Builder) (l : Label) : Nat :=
  match b.blocks[l]? with
  | some block => block.instructions.length
  | none => 0

theorem offset_eq {block : BasicBlock} (h : b.blocks[l]? = some block) :
    b.offset l = block.instructions.length := by
  simp [offset, h]

theorem offset_congr (h : b'.blocks[l]? = b.blocks[l]?) : b'.offset l = b.offset l := by
  simp [offset, h]

@[simp] theorem offset_addTemporary {ty : Option Ty} : (b.addTemporary ty).offset l = b.offset l := rfl

@[simp] theorem offset_addBound {name : String} {ty : Option Ty} {kind : VarKind} {key : Symbol} :
    (b.addBound name ty kind key).offset l = b.offset l := rfl

@[simp] theorem offset_grow : b.grow.offset l = b.offset l := by
  by_cases hl : l = b.nextLabel
  · subst hl
    simp [offset, grow, BasicBlock.empty]
  · exact offset_congr (getElem?_grow hl)

theorem offset_of_le (h : b.nextLabel ≤ l) : b.offset l = 0 := by
  simp [offset, List.getElem?_eq_none h]

theorem offset_nextLabel : b.offset b.nextLabel = 0 := offset_of_le (Nat.le_refl _)

@[simp] theorem offset_close {dst : Option Slot} {t : Transfer} :
    (b.close l dst t span).offset m = b.offset m := by
  by_cases hm : m = l
  · subst hm
    cases hb : b.blocks[m]? <;> simp [offset, close, BasicBlock.close, hb]
  · exact offset_congr (getElem?_close hm)

@[simp] theorem offset_gotoFrom {fin : Option Label} : (b.gotoFrom fin l span).offset m = b.offset m := by
  cases fin with
  | none => rfl
  | some k => exact offset_close

@[simp] theorem offset_dropLoop : b.dropLoop.offset l = b.offset l := rfl

theorem offset_enterLoop {head : Label} {c : Placed} :
    (b.enterLoop head c span).offset l = b.offset l :=
  offset_close.trans (offset_grow.trans offset_grow)

theorem offset_append_ne {dst : Slot} {op : Operation} (h : m ≠ l) :
    (b.append l dst op span).offset m = b.offset m := offset_congr (getElem?_append h)

theorem offset_append {dst : Slot} {op : Operation} (ho : b.IsOpen l) :
    (b.append l dst op span).offset l = b.offset l + 1 := by
  obtain ⟨block, hb, -⟩ := ho
  simp [offset, append, BasicBlock.append, hb]

theorem Grows.instruction {dst : Slot} {op : Operation} (hg : (b.append l dst op span).Grows b')
    (ho : b.IsOpen l) :
    ∃ block, b'.blocks[l]? = some block ∧
      block.instructions[b.offset l]? = some ⟨dst, op, b.scopes.current, span⟩ := by
  obtain ⟨old, hb, hopen⟩ := ho
  have hold : (b.append l dst op span).blocks[l]? =
      some (old.append ⟨dst, op, b.scopes.current, span⟩) := by
    simp [Builder.append, hb]
  obtain ⟨block, hl, hgrows⟩ := hg.blocks l _ hold
  obtain ⟨rest, hr⟩ := hgrows.instructions
  refine ⟨block, hl, ?_⟩
  rw [← hr, offset_eq hb]
  simp [BasicBlock.append]

theorem Grows.terminator {dst : Option Slot} {t : Transfer} (hg : (b.close l dst t span).Grows b')
    (ho : b.IsOpen l) :
    ∃ block, b'.blocks[l]? = some block ∧ block.instructions.length = b.offset l ∧
      block.terminator = some ⟨dst, t, b.scopes.current, span⟩ := by
  obtain ⟨old, hb, hopen⟩ := ho
  have hold : (b.close l dst t span).blocks[l]? =
      some (old.close ⟨dst, t, b.scopes.current, span⟩) := by
    simp [Builder.close, hb]
  obtain ⟨block, hl, hgrows⟩ := hg.blocks l _ hold
  obtain rfl := hgrows.closed (by simp)
  exact ⟨_, hl, (offset_eq hb).symm, rfl⟩

end Builder

end FlowGraph

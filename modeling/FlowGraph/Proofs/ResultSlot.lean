import FlowGraph.Proofs.Marks

/-!
The slot of the result is written on the way out only. Nothing reads it, and what writes it is a move at
the end of a block that returns; there is one such move for each value that the source returns.
-/

namespace FlowGraph

open Builder

namespace BasicBlock

/-- Nothing in the block reads the slot of the result, and only a last move before it returns writes it. -/
structure SparesResult (block : BasicBlock) : Prop where
  reads : ∀ i ∈ block.instructions, 0 ∉ i.sources
  terminator : ∀ t ∈ block.terminator, 0 ∉ t.sources ∧ t.dst ≠ some 0
  writes : ∀ (k : Nat) (i : Instruction), block.instructions[k]? = some i → i.dst = 0 →
    (∃ s, i.op = .move s) ∧ k + 1 = block.instructions.length ∧
      ∃ t, block.terminator = some t ∧ t.transfer = .ret

def resultWrites (block : BasicBlock) : Nat := block.instructions.countP (·.dst = 0)

namespace SparesResult

variable {block : BasicBlock} {i : Instruction} {t : Terminator}

theorem empty (stem : String) (l : Label) : (BasicBlock.empty stem l).SparesResult where
  reads := nofun
  terminator := nofun
  writes := nofun

theorem dst_ne_zero (h : block.SparesResult) (ho : block.terminator = none) :
    ∀ i ∈ block.instructions, i.dst ≠ 0 := by
  intro i hi hzero
  obtain ⟨k, hk⟩ := List.getElem?_of_mem hi
  obtain ⟨-, -, t, ht, -⟩ := h.writes k i hk hzero
  rw [ho] at ht
  cases ht

theorem append (h : block.SparesResult) (ho : block.terminator = none) (hd : i.dst ≠ 0)
    (hs : 0 ∉ i.sources) : (block.append i).SparesResult where
  reads := by simpa [BasicBlock.append, or_imp, forall_and] using ⟨h.reads, hs⟩
  terminator := h.terminator
  writes k j hk hzero := by
    have hmem : j ∈ block.instructions ++ [i] := List.mem_of_getElem? hk
    rcases List.mem_append.mp hmem with hj | hj
    · exact absurd hzero (h.dst_ne_zero ho j hj)
    · obtain rfl := List.mem_singleton.mp hj
      exact absurd hzero hd

theorem close (h : block.SparesResult) (ho : block.terminator = none) (hs : 0 ∉ t.sources)
    (hd : t.dst ≠ some 0) : (block.close t).SparesResult where
  reads := h.reads
  terminator := by simpa [BasicBlock.close] using ⟨hs, hd⟩
  writes k i hk hzero := absurd hzero (h.dst_ne_zero ho i (List.mem_of_getElem? hk))

theorem result (h : block.SparesResult) (ho : block.terminator = none) {s : Slot} (hs : s ≠ 0)
    {scope : ScopeId} {span : Span} :
    ((block.append ⟨0, .move s, scope, span⟩).close ⟨none, .ret, scope, span⟩).SparesResult where
  reads := by
    simpa [BasicBlock.append, BasicBlock.close, or_imp, forall_and, Instruction.sources, Operation.sources]
      using ⟨h.reads, hs.symm⟩
  terminator := by simp [Terminator.sources, Transfer.sources]
  writes k i hk hzero := by
    rcases getElem?_snoc hk with hk | ⟨rfl, rfl⟩
    · exact absurd hzero (h.dst_ne_zero ho i (List.mem_of_getElem? hk))
    · exact ⟨⟨s, rfl⟩, by simp [BasicBlock.append, BasicBlock.close], _, rfl, rfl⟩

end SparesResult

end BasicBlock

structure SparedResult (n : Nat) (blocks : List BasicBlock) : Prop where
  each : ∀ block ∈ blocks, block.SparesResult
  count : (blocks.flatMap (·.instructions)).countP (·.dst = 0) = n

namespace SparedResult

variable {n k : Nat} {blocks : List BasicBlock} {l : Label}

theorem snoc (h : SparedResult n blocks) (stem : String) (l : Label) :
    SparedResult n (blocks ++ [.empty stem l]) where
  each := by simpa [or_imp, forall_and] using ⟨h.each, .empty stem l⟩
  count := by simpa [BasicBlock.empty] using h.count

theorem countP_modify {block : BasicBlock} {F : BasicBlock → BasicBlock} (h : blocks[l]? = some block) :
    ((blocks.modify l F).flatMap (·.instructions)).countP (·.dst = 0) + block.resultWrites =
      (blocks.flatMap (·.instructions)).countP (·.dst = 0) + (F block).resultWrites := by
  induction blocks generalizing l with
  | nil => simp at h
  | cons x xs ih =>
    cases l with
    | zero =>
      obtain rfl : x = block := by simpa using h
      simp [BasicBlock.resultWrites]
      lia
    | succ l =>
      have := ih (by simpa using h)
      simp at this ⊢
      lia

theorem modify {F : BasicBlock → BasicBlock} (h : SparedResult n blocks) (ho : OpenAt blocks l)
    (hF : ∀ block : BasicBlock, block.terminator = none → block.SparesResult →
      (F block).SparesResult ∧ (F block).resultWrites = block.resultWrites + k) :
    SparedResult (n + k) (blocks.modify l F) := by
  obtain ⟨block, hl, hopen⟩ := ho
  obtain ⟨hspares, hcount⟩ := hF block hopen (h.each block (List.mem_of_getElem? hl))
  constructor
  · intro block' hmem
    obtain ⟨m, hm⟩ := List.getElem?_of_mem hmem
    by_cases hlm : l = m
    · subst hlm
      obtain rfl : F block = block' := by simpa [hl] using hm
      exact hspares
    · rw [List.getElem?_modify_ne _ _ hlm] at hm
      exact h.each block' (List.mem_of_getElem? hm)
  · have := countP_modify (F := F) hl
    have := h.count
    lia

end SparedResult

def Mark.isReturned : Mark → Bool
  | .returned => true
  | .declared _ => false

theorem Builder.MarkedStep.sparedResult {n : Nat} {m : Option Mark} {b b' : Builder}
    (h : MarkedStep m b b') (hs : SparedResult n b.blocks) :
    SparedResult (n + m.toList.countP Mark.isReturned) b'.blocks := by
  cases h with
  | grow => exact hs.snoc _ _
  | addTemporary | declare => exact hs
  | turn hblocks => exact hblocks ▸ hs
  | append ho hd hsources =>
    refine hs.modify ho fun block hopen hspares => ⟨hspares.append hopen hd ?_, ?_⟩
    · exact fun hzero => hsources 0 hzero rfl
    · simp [BasicBlock.resultWrites, BasicBlock.append, hd]
  | close ho hd hsources =>
    refine hs.modify ho fun block hopen hspares => ⟨hspares.close hopen ?_ ?_, rfl⟩
    · exact fun hzero => hsources 0 hzero rfl
    · exact fun hzero => hd 0 hzero rfl
  | result ho hr =>
    rw [Builder.result, Builder.close, Builder.append, List.modify_modify_eq]
    refine hs.modify ho fun block hopen hspares => ⟨hspares.result hopen hr, ?_⟩
    simp [BasicBlock.resultWrites, BasicBlock.append, BasicBlock.close, Mark.isReturned]

theorem Builder.MarkedSteps.sparedResult {n : Nat} {ms : List Mark} {b b' : Builder}
    (h : MarkedSteps ms b b') (hs : SparedResult n b.blocks) :
    SparedResult (n + ms.countP Mark.isReturned) b'.blocks := by
  induction h with
  | refl => exact hs
  | tail _ hstep ih =>
    rw [List.countP_append, ← Nat.add_assoc]
    exact hstep.sparedResult (ih hs)

def Stmt.returnsValue : Stmt → Bool
  | .ret _ (some _) => true
  | _ => false

def FunctionDef.results (f : FunctionDef) : Nat :=
  match f.body with
  | .expr _ => 1
  | _ => f.statements.countP Stmt.returnsValue

theorem Stmt.isReturned_mark? (s : Stmt) : (s.mark?.map Mark.isReturned).getD false = s.returnsValue := by
  cases s with
  | ret _ value => cases value <;> rfl
  | _ => rfl

theorem FunctionDef.countP_marks (f : FunctionDef) : f.marks.countP Mark.isReturned = f.results := by
  cases h : f.body with
  | block body =>
    simp [marks, h, Body.marks, Node.marks, results, statements, Body.node?, List.countP_filterMap,
      Stmt.isReturned_mark?]
  | expr value => simp [marks, h, Body.marks, results, Mark.isReturned]
  | external => simp [marks, h, Body.marks, results, statements, Body.node?]

theorem FunctionRun.sparedResult {env : Env} {stem : String} {f : FunctionDef} {g : Graph}
    (h : FunctionRun env stem f g) : SparedResult f.results g.blocks := by
  obtain ⟨b, hbody, rfl⟩ := h
  have hstart : SparedResult 0 (env.enter stem f).blocks := by
    rw [env.enter_blocks]
    exact ⟨nofun, rfl⟩
  have hspared := (hbody.marked (env.enter_sound stem f)).sparedResult hstart
  rwa [Nat.zero_add, ← FunctionDef.marks, f.countP_marks] at hspared

/-- The slot of the result is written only on the way out, once for each value that the live code
returns; and it is never read. -/
theorem lowerFunction_result {env : Env} {stem : String} {f : FunctionDef} {g : Graph} {b : Builder}
    (h : lowerFunction env f { stem := stem } = .ok g b) :
    (∀ block ∈ g.blocks,
      (∀ i ∈ block.instructions, 0 ∉ i.sources) ∧
      (∀ t ∈ block.terminator, 0 ∉ t.sources ∧ t.dst ≠ some 0) ∧
      ∀ k i, block.instructions[k]? = some i → i.dst = 0 →
        (∃ s, i.op = .move s) ∧ k + 1 = block.instructions.length ∧
          ∃ t, block.terminator = some t ∧ t.transfer = .ret) ∧
    (g.blocks.flatMap (·.instructions)).countP (·.dst = 0) = f.results := by
  have hspared := (lowerFunction_run h).sparedResult
  refine ⟨fun block hblock => ?_, hspared.count⟩
  obtain ⟨hreads, hterminator, hwrites⟩ := hspared.each block hblock
  exact ⟨hreads, hterminator, hwrites⟩

def answering : FunctionDef where
  name := ⟨"f", {}⟩
  params := [⟨⟨"x", {}⟩, ⟨0, 0⟩, none, {}⟩]
  body := .block (.mk [
    .whileLoop {} (.var {} ⟨"x", {}⟩ ⟨0, 0⟩) (.mk [
      .ifThen {} (.var {} ⟨"x", {}⟩ ⟨0, 0⟩) (.mk [.ret {} (some (.var {} ⟨"x", {}⟩ ⟨0, 0⟩))] {}),
      .ret {} (some (.call {} none ⟨"f", {}⟩ [.var {} ⟨"x", {}⟩ ⟨0, 0⟩])),
      .ret {} (some (.literal {} (.int 1)))] {}),
    .ret {} none] {})

theorem answering_result : ∃ g b,
    lowerFunction ⟨.anonymous, id, [], []⟩ answering { stem := "bb" } = .ok g b ∧
    (g.blocks.flatMap (·.instructions)).countP (·.dst = 0) = 2 ∧
    ∃ block ∈ g.blocks, ∃ s t, block.instructions.map (·.op) = [.move s] ∧
      block.terminator = some t ∧ t.transfer = .ret := by
  have hlowers : Env.lowersTo ⟨.anonymous, id, [], []⟩ "bb" answering (fun g =>
      g.blocks.any fun block => block.instructions.map (·.dst) = [0]) := by
    decide +kernel
  obtain ⟨g, b, hg, htest⟩ := Env.exists_of_lowersTo hlowers
  obtain ⟨block, hblock, hdst⟩ := List.any_eq_true.mp htest
  obtain ⟨i, hi, hzero⟩ : ∃ i, block.instructions = [i] ∧ i.dst = 0 := by
    simpa [List.map_eq_singleton_iff] using of_decide_eq_true hdst
  obtain ⟨hblocks, hcount⟩ := lowerFunction_result hg
  obtain ⟨⟨s, hs⟩, -, t, ht, hret⟩ := (hblocks block hblock).2.2 0 i (by simp [hi]) hzero
  exact ⟨g, b, hg, hcount, block, hblock, s, t, by simp [hi, hs], ht, hret⟩

end FlowGraph

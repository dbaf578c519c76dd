import FlowGraph.Graph.Defect
import FlowGraph.Proofs.Function

/-!
Graphs without a defect, and the graphs of lowered functions as such.
-/

namespace FlowGraph

namespace Graph

/-- Every reference of the graph is in range, every entry of a table has its own position as its
number, and every block is closed. -/
structure WellFormed (g : Graph) : Prop where
  result : ∃ v, g.locals[0]? = some v ∧ v.kind = .result
  resultSlot : g.resultSlot = 0
  params : ∀ p ∈ g.params, ∃ v, g.locals[p]? = some v ∧ v.kind = .argument
  scopes : ∀ (i : ScopeId) (s : Scope), g.scopes[i]? = some s → s.id = i ∧ ∀ p ∈ s.parent, p < i
  entry : g.blocks ≠ []
  blocks : ∀ (l : Label) (block : BasicBlock), g.blocks[l]? = some block →
    block.Fits l g.locals.length g.scopes.length g.blocks.length ∧ block.terminator ≠ none

variable {g : Graph}

@[simp] theorem ensure_eq_none_iff {ok : Bool} {d : Defect} : ensure ok d = none ↔ ok = true := by
  cases ok <;> simp [ensure]

theorem resultDefect?_eq_none_iff : g.resultDefect? = none ↔
    (∃ v, g.locals[0]? = some v ∧ v.kind = .result) ∧ g.resultSlot = 0 := by
  unfold resultDefect?
  cases g.locals with
  | nil => simp
  | cons first rest => simp

theorem paramDefect?_eq_none_iff {position : Nat} {p : Slot} : g.paramDefect? position p = none ↔
    ∃ v, g.locals[p]? = some v ∧ v.kind = .argument := by
  simp only [paramDefect?, slotDefect?, local?, Option.orElse_eq_orElse, Option.orElse_eq_or,
    Option.or_eq_none_iff, ensure_eq_none_iff, decide_eq_true_eq]
  cases hv : g.locals[p]? with
  | none => simp
  | some v => simpa using fun _ => (List.getElem?_eq_some_iff.mp hv).1

theorem scopeDefect?_eq_none_iff {position : Nat} {s : Scope} : scopeDefect? position s = none ↔
    s.id = position ∧ ∀ p ∈ s.parent, p < position := by
  simp [scopeDefect?]

theorem operandDefect?_eq_none_iff {block : BasicBlock} {opcode : Opcode} {dst : Option Slot}
    {sources : List Slot} {scope : ScopeId} : g.operandDefect? block opcode dst sources scope = none ↔
    (∀ s ∈ dst, s < g.locals.length) ∧ (∀ s ∈ sources, s < g.locals.length) ∧
      scope < g.scopes.length := by
  simp [operandDefect?, slotDefect?]

theorem instructionDefect?_eq_none_iff {block : BasicBlock} {i : Instruction} :
    g.instructionDefect? block i = none ↔ i.Fits g.locals.length g.scopes.length := by
  rw [instructionDefect?, operandDefect?_eq_none_iff]
  constructor
  · rintro ⟨hd, hs, hc⟩
    exact ⟨hd _ rfl, hs, hc⟩
  · rintro ⟨hd, hs, hc⟩
    exact ⟨by simpa using hd, hs, hc⟩

theorem terminatorDefect?_eq_none_iff {block : BasicBlock} :
    g.terminatorDefect? block = none ↔ block.terminator ≠ none ∧
      ∀ t ∈ block.terminator, t.Fits g.locals.length g.scopes.length g.blocks.length := by
  unfold terminatorDefect?
  cases block.terminator with
  | none => simp
  | some t =>
    simp only [Option.orElse_eq_orElse, Option.orElse_eq_or, Option.or_eq_none_iff,
      operandDefect?_eq_none_iff]
    constructor
    · rintro ⟨⟨hd, hs, hc⟩, hl⟩
      refine ⟨by simp, fun u hu => ?_⟩
      obtain rfl := Option.some.inj hu
      exact ⟨hd, hs, hc, by simpa using hl⟩
    · rintro ⟨-, h⟩
      obtain ⟨hd, hs, hc, hl⟩ := h t rfl
      exact ⟨⟨hd, hs, hc⟩, by simpa using hl⟩

theorem blockDefect?_eq_none_iff {position : Nat} {block : BasicBlock} :
    g.blockDefect? position block = none ↔
      block.Fits position g.locals.length g.scopes.length g.blocks.length ∧
        block.terminator ≠ none := by
  simp only [blockDefect?, Option.orElse_eq_orElse, Option.orElse_eq_or, Option.or_eq_none_iff,
    ensure_eq_none_iff, decide_eq_true_eq, List.findSome?_eq_none_iff, instructionDefect?_eq_none_iff,
    terminatorDefect?_eq_none_iff]
  constructor
  · rintro ⟨hid, hi, hclosed, ht⟩
    exact ⟨⟨hid, hi, ht⟩, hclosed⟩
  · rintro ⟨⟨hid, hi, ht⟩, hclosed⟩
    exact ⟨hid, hi, hclosed, ht⟩

theorem defect?_eq_none_iff : g.defect? = none ↔ g.WellFormed := by
  simp only [defect?, Option.orElse_eq_orElse, Option.orElse_eq_or, Option.or_eq_none_iff,
    ensure_eq_none_iff, decide_eq_true_eq, List.findSome?_eq_none_iff, resultDefect?_eq_none_iff,
    paramDefect?_eq_none_iff, scopeDefect?_eq_none_iff, blockDefect?_eq_none_iff, Prod.forall,
    List.mem_zipIdx_iff_getElem?]
  constructor
  · rintro ⟨⟨hresult, hslot⟩, hparams, hscopes, hentry, hblocks⟩
    refine ⟨hresult, hslot, fun p hp => ?_, fun i s => hscopes s i, hentry, fun l b => hblocks b l⟩
    obtain ⟨i, hi⟩ := List.getElem?_of_mem hp
    exact hparams p i hi
  · intro h
    exact ⟨⟨h.result, h.resultSlot⟩, fun p i hi => h.params p (List.mem_of_getElem? hi),
      fun s i => h.scopes i s, h.entry, fun b l => h.blocks l b⟩

theorem WellFormed.verify (h : g.WellFormed) : g.verify = .ok () := by
  rw [Graph.verify, defect?_eq_none_iff.mpr h]

end Graph

open Builder

theorem FunctionRun.wellFormed {env : Env} {stem : String} {f : FunctionDef} {g : Graph}
    (h : FunctionRun env stem f g) : g.WellFormed := by
  obtain ⟨b, hbody, rfl⟩ := h
  have hb := env.enter_sound stem f
  have hregion := hbody.region hb
  have hsteps : Steps _ b := .head (.grow _) hregion.steps
  have hsound : b.Sound := hsteps.sound hb
  refine ⟨hsound.result, rfl, fun p hp => ?_, fun i s hs => ?_, fun hnil => ?_, fun l block hl => ?_⟩
  · obtain ⟨v, hv, hk⟩ := env.enter_isArgument stem f hp
    exact ⟨v, hsteps.grows.var hv, hk⟩
  · exact ⟨hsound.scopes.numbered i s hs, hsound.scopes.parents i s hs⟩
  · have hle := hregion.nextLabel_le
    simp_all [Builder.graph]
  · refine ⟨hsound.blocks l block hl, fun hopen => ?_⟩
    exact hbody.not_isOpen hb (env.enter_blocks stem f) l ⟨block, hl, hopen⟩

end FlowGraph

import FlowGraph.Proofs.Jumps

/-!
What verification says of a graph. It accepts just the structured graphs, and of any other it names a
defect that is there. In a graph that was accepted the predecessors are the successors turned around.
-/

namespace FlowGraph

inductive Operation.Reads : Operation → Slot → Prop
  | move {s} : Reads (.move s) s
  | entryKey {ty entries key value} :
    MapEntry.pair key value ∈ entries → Reads (.newMap ty entries) key
  | entryValue {ty entries key value} :
    MapEntry.pair key value ∈ entries → Reads (.newMap ty entries) value
  | spread {ty entries s} : MapEntry.spread s ∈ entries → Reads (.newMap ty entries) s
  | size {ty size values} : Reads (.newArray ty size values) size
  | element {ty size values s} : s ∈ values → Reads (.newArray ty size values) s
  | message {ty message cause detail} : Reads (.newError ty message cause detail) message
  | cause {ty message cause detail} : Reads (.newError ty message cause detail) cause
  | detail {ty message cause detail} : Reads (.newError ty message cause detail) detail
  | accessKey {how key source} : Reads (.access how key source) key
  | accessSource {how key source} : Reads (.access how key source) source
  | cast {s ty} : Reads (.cast s ty) s
  | test {s ty negated} : Reads (.test s ty negated) s
  | isLike {s ty} : Reads (.isLike s ty) s
  | closure {key closure s} : s ∈ closure → Reads (.functionPointer key closure) s
  | lhs {op lhs rhs} : Reads (.binary op lhs rhs) lhs
  | rhs {op lhs rhs} : Reads (.binary op lhs rhs) rhs
  | unary {op s} : Reads (.unary op s) s
  | platform {name operands s} : s ∈ operands → Reads (.platform name operands) s

inductive Transfer.Reads : Transfer → Slot → Prop
  | call {args callee isVirtual next s} : s ∈ args → Reads (.call args callee isVirtual next) s
  | asyncCall {args callee next s} : s ∈ args → Reads (.asyncCall args callee next) s
  | branch {cond whenTrue whenFalse} : Reads (.branch cond whenTrue whenFalse) cond
  | panic {error} : Reads (.panic error) error
  | wait {futures next s} : s ∈ futures → Reads (.wait futures next) s
  | waitAll {keys futures next s} : s ∈ futures → Reads (.waitAll keys futures next) s
  | pointer {pointer args isAsync next} : Reads (.pointerCall pointer args isAsync next) pointer
  | pointerArg {pointer args isAsync next s} :
    s ∈ args → Reads (.pointerCall pointer args isAsync next) s
  | send {channel data sameStrand isSync next} :
    Reads (.send channel data sameStrand isSync next) data
  | fieldLock {base field next} : Reads (.fieldLock base field next) base

inductive Transfer.LeadsTo : Transfer → Label → Prop
  | goto {target} : LeadsTo (.goto target) target
  | call {args callee isVirtual next} : LeadsTo (.call args callee isVirtual next) next
  | asyncCall {args callee next} : LeadsTo (.asyncCall args callee next) next
  | whenTrue {cond whenTrue whenFalse} : LeadsTo (.branch cond whenTrue whenFalse) whenTrue
  | whenFalse {cond whenTrue whenFalse} : LeadsTo (.branch cond whenTrue whenFalse) whenFalse
  | wait {futures next} : LeadsTo (.wait futures next) next
  | waitAll {keys futures next} : LeadsTo (.waitAll keys futures next) next
  | pointerCall {pointer args isAsync next} : LeadsTo (.pointerCall pointer args isAsync next) next
  | receive {channel sameStrand next} : LeadsTo (.receive channel sameStrand next) next
  | send {channel data sameStrand isSync next} :
    LeadsTo (.send channel data sameStrand isSync next) next
  | flush {channels next} : LeadsTo (.flush channels next) next
  | lock {next} : LeadsTo (.lock next) next
  | fieldLock {base field next} : LeadsTo (.fieldLock base field next) next
  | unlock {next} : LeadsTo (.unlock next) next
  | receiveAny {channels sameStrand next} : LeadsTo (.receiveAny channels sameStrand next) next
  | receiveAll {receives ty sameStrand next} :
    LeadsTo (.receiveAll receives ty sameStrand next) next

theorem MapEntry.mem_sources_iff {e : MapEntry} {s : Slot} :
    s ∈ e.sources ↔ (∃ value, e = .pair s value) ∨ (∃ key, e = .pair key s) ∨ e = .spread s := by
  cases e with
  | pair key value => simp [sources, eq_comm]
  | spread source => simp [sources, eq_comm]

theorem Operation.mem_sources_iff {op : Operation} {s : Slot} : s ∈ op.sources ↔ op.Reads s := by
  constructor
  · intro h
    cases op with
    | newMap ty entries =>
      obtain ⟨e, he, hs⟩ := List.mem_flatMap.mp h
      rcases MapEntry.mem_sources_iff.mp hs with ⟨value, rfl⟩ | ⟨key, rfl⟩ | rfl
      · exact .entryKey he
      · exact .entryValue he
      · exact .spread he
    | load | newObject | newTypedesc => cases h
    | _ =>
      simp only [sources, List.mem_cons, List.not_mem_nil, or_false] at h
      grind [Reads]
  · intro h
    cases h with
    | entryKey he | entryValue he | spread he =>
      exact List.mem_flatMap.mpr ⟨_, he, by simp [MapEntry.sources]⟩
    | _ => simp_all [sources]

theorem Transfer.mem_sources_iff {t : Transfer} {s : Slot} : s ∈ t.sources ↔ t.Reads s := by
  constructor
  · intro h
    cases t <;> simp only [sources, List.mem_cons, List.not_mem_nil, or_false] at h <;> grind [Reads]
  · intro h
    cases h <;> simp_all [sources]

theorem Transfer.mem_successors_iff {t : Transfer} {l : Label} : l ∈ t.successors ↔ t.LeadsTo l := by
  constructor
  · intro h
    cases t <;> simp only [successors, List.mem_cons, List.not_mem_nil, or_false] at h <;>
      grind [LeadsTo]
  · intro h
    cases h <;> simp [successors]

namespace Graph

/-- The graph is what verification asks for: its first local is the slot of the result, its parameters
are arguments, the entries of its tables have their positions as their numbers, every block is closed,
and whatever an instruction or a terminator refers to exists. -/
structure Structured (g : Graph) : Prop where
  result : ∃ v, g.local? 0 = some v ∧ v.kind = .result
  resultSlot : g.resultSlot = 0
  params : ∀ p ∈ g.params, ∃ v, g.local? p = some v ∧ v.kind = .argument
  scopes : ∀ (i : ScopeId) (s : Scope), g.scopes[i]? = some s → s.id = i ∧ ∀ p ∈ s.parent, p < i
  entry : g.blocks ≠ []
  blocks : ∀ (l : Label) (block : BasicBlock), g.block? l = some block →
    block.id = l ∧ block.terminator ≠ none
  instructions : ∀ block ∈ g.blocks, ∀ i ∈ block.instructions,
    i.dst < g.locals.length ∧ (∀ s, i.op.Reads s → s < g.locals.length) ∧ i.scope < g.scopes.length
  terminators : ∀ block ∈ g.blocks, ∀ t ∈ block.terminator,
    (∀ s ∈ t.dst, s < g.locals.length) ∧ (∀ s, t.transfer.Reads s → s < g.locals.length) ∧
      t.scope < g.scopes.length
  targets : ∀ block ∈ g.blocks, ∀ t ∈ block.terminator, ∀ l, t.transfer.LeadsTo l →
    ∃ target, g.block? l = some target

variable {g : Graph}

theorem structured_iff_wellFormed : g.Structured ↔ g.WellFormed := by
  constructor
  · intro h
    refine ⟨h.result, h.resultSlot, h.params, h.scopes, h.entry, fun l block hl => ?_⟩
    obtain ⟨hid, hclosed⟩ := h.blocks l block hl
    have hmem := List.mem_of_getElem? hl
    refine ⟨⟨hid, fun i hi => ?_, fun t ht => ?_⟩, hclosed⟩
    · obtain ⟨hdst, hreads, hscope⟩ := h.instructions block hmem i hi
      exact ⟨hdst, fun s hs => hreads s (Operation.mem_sources_iff.mp hs), hscope⟩
    · obtain ⟨hdst, hreads, hscope⟩ := h.terminators block hmem t ht
      refine ⟨hdst, fun s hs => hreads s (Transfer.mem_sources_iff.mp hs), hscope, fun m hm => ?_⟩
      obtain ⟨target, htarget⟩ := h.targets block hmem t ht m (Transfer.mem_successors_iff.mp hm)
      exact (List.getElem?_eq_some_iff.mp htarget).1
  · intro h
    refine ⟨h.result, h.resultSlot, h.params, h.scopes, h.entry, fun l block hl => ?_,
      fun block hmem i hi => ?_, fun block hmem t ht => ?_, fun block hmem t ht m hm => ?_⟩
    · obtain ⟨hfits, hclosed⟩ := h.blocks l block hl
      exact ⟨hfits.id, hclosed⟩
    all_goals
      obtain ⟨l, hl⟩ := List.getElem?_of_mem hmem
      obtain ⟨hfits, -⟩ := h.blocks l block hl
    · obtain ⟨hdst, hreads, hscope⟩ := hfits.instructions i hi
      exact ⟨hdst, fun s hs => hreads s (Operation.mem_sources_iff.mpr hs), hscope⟩
    · obtain ⟨hdst, hreads, hscope, -⟩ := hfits.terminator t ht
      exact ⟨hdst, fun s hs => hreads s (Transfer.mem_sources_iff.mpr hs), hscope⟩
    · have hlt := (hfits.terminator t ht).successors m (Transfer.mem_successors_iff.mpr hm)
      exact ⟨_, List.getElem?_eq_getElem hlt⟩

inductive Mentions (g : Graph) : String → Slot → Prop
  | param {s} : s ∈ g.params → Mentions g "parameter list" s
  | instruction {block i s} : block ∈ g.blocks → i ∈ block.instructions → i.dst = s ∨ i.op.Reads s →
    Mentions g s!"{i.opcode.symbol} in {block.name}" s
  | terminator {block t s} : block ∈ g.blocks → t ∈ block.terminator →
    t.dst = some s ∨ t.transfer.Reads s → Mentions g s!"{t.opcode.symbol} in {block.name}" s

inductive LiesIn (g : Graph) : String → ScopeId → Prop
  | instruction {block i} : block ∈ g.blocks → i ∈ block.instructions →
    LiesIn g s!"{i.opcode.symbol} in {block.name}" i.scope
  | terminator {block t} : block ∈ g.blocks → t ∈ block.terminator →
    LiesIn g s!"{t.opcode.symbol} in {block.name}" t.scope

end Graph

/-- The graph is wrong in just the way that the defect says. -/
def Defect.OccursIn (g : Graph) : Defect → Prop
  | .noResultSlot => g.locals = []
  | .notResultSlot kind name => ∃ v, g.local? 0 = some v ∧ v.kind = kind ∧ v.name = name ∧ kind ≠ .result
  | .resultElsewhere slot => g.resultSlot = slot ∧ slot ≠ 0
  | .localOutOfRange place slot count => g.Mentions place slot ∧ g.locals.length = count ∧ count ≤ slot
  | .notArgument position => ∃ p v, g.params[position]? = some p ∧ g.local? p = some v ∧ v.kind ≠ .argument
  | .scopeMisnumbered position id => ∃ s, g.scopes[position]? = some s ∧ s.id = id ∧ id ≠ position
  | .parentAfterScope position parent =>
    ∃ s, g.scopes[position]? = some s ∧ s.parent = some parent ∧ position ≤ parent
  | .noBlock => g.blocks = []
  | .blockMisplaced name position =>
    ∃ block, g.block? position = some block ∧ block.name = name ∧ block.id ≠ position
  | .scopeUnknown place scope => g.LiesIn place scope ∧ g.scopes.length ≤ scope
  | .noTerminator name => ∃ block ∈ g.blocks, block.name = name ∧ block.terminator = none
  | .missingTarget name target => ∃ block ∈ g.blocks, block.name = name ∧
    ∃ t ∈ block.terminator, t.transfer.LeadsTo target ∧ g.block? target = none

namespace Graph

variable {g : Graph} {d : Defect}

@[simp] theorem ensure_eq_some_iff {ok : Bool} {d' : Defect} :
    ensure ok d' = some d ↔ ok = false ∧ d' = d := by
  cases ok <;> simp [ensure]

theorem slotDefect?_occurs {place : String} {s : Slot} (hs : g.Mentions place s)
    (h : g.slotDefect? place s = some d) : d.OccursIn g := by
  obtain ⟨hle, rfl⟩ := ensure_eq_some_iff.mp h
  exact ⟨hs, rfl, by simpa using hle⟩

theorem resultDefect?_occurs (h : g.resultDefect? = some d) : d.OccursIn g := by
  unfold resultDefect? at h
  split at h
  next hnil =>
    cases h
    exact hnil
  next first rest hlocals =>
    simp only [Option.orElse_eq_orElse, Option.orElse_eq_or, Option.or_eq_some_iff,
      ensure_eq_some_iff, decide_eq_false_iff_not] at h
    rcases h with ⟨hkind, rfl⟩ | ⟨-, hslot, rfl⟩
    · exact ⟨first, by simp [local?, hlocals], rfl, rfl, hkind⟩
    · exact ⟨rfl, hslot⟩

theorem paramDefect?_occurs {position : Nat} {p : Slot} (hp : g.params[position]? = some p)
    (h : g.paramDefect? position p = some d) : d.OccursIn g := by
  simp only [paramDefect?, Option.orElse_eq_orElse, Option.orElse_eq_or, Option.or_eq_some_iff,
    ensure_eq_some_iff] at h
  rcases h with hslot | ⟨hrange, hkind, rfl⟩
  · exact slotDefect?_occurs (.param (List.mem_of_getElem? hp)) hslot
  · have hlt : p < g.locals.length := by simpa [slotDefect?] using hrange
    have hv : g.local? p = some _ := List.getElem?_eq_getElem hlt
    exact ⟨p, _, hp, hv, by simpa [hv] using hkind⟩

theorem scopeDefect?_occurs {position : Nat} {s : Scope} (hs : g.scopes[position]? = some s)
    (h : scopeDefect? position s = some d) : d.OccursIn g := by
  simp only [scopeDefect?, Option.orElse_eq_orElse, Option.orElse_eq_or, Option.or_eq_some_iff,
    Option.bind_eq_some_iff, ensure_eq_some_iff, decide_eq_false_iff_not] at h
  rcases h with ⟨hid, rfl⟩ | ⟨-, parent, hparent, hle, rfl⟩
  · exact ⟨s, hs, rfl, hid⟩
  · exact ⟨s, hs, hparent, Nat.le_of_not_lt hle⟩

theorem operandDefect?_occurs {block : BasicBlock} {opcode : Opcode} {dst : Option Slot}
    {sources : List Slot} {scope : ScopeId}
    (hdst : ∀ s ∈ dst, g.Mentions s!"{opcode.symbol} in {block.name}" s)
    (hsources : ∀ s ∈ sources, g.Mentions s!"{opcode.symbol} in {block.name}" s)
    (hscope : g.LiesIn s!"{opcode.symbol} in {block.name}" scope)
    (h : g.operandDefect? block opcode dst sources scope = some d) : d.OccursIn g := by
  simp only [operandDefect?, Option.orElse_eq_orElse, Option.orElse_eq_or, Option.or_eq_some_iff,
    Option.bind_eq_some_iff, ensure_eq_some_iff, decide_eq_false_iff_not] at h
  rcases h with ⟨s, hs, hd⟩ | ⟨-, hd | ⟨-, hle, rfl⟩⟩
  · exact slotDefect?_occurs (hdst s hs) hd
  · obtain ⟨s, hs, hd⟩ := List.exists_of_findSome?_eq_some hd
    exact slotDefect?_occurs (hsources s hs) hd
  · exact ⟨hscope, Nat.le_of_not_lt hle⟩

theorem instructionDefect?_occurs {block : BasicBlock} {i : Instruction} (hb : block ∈ g.blocks)
    (hi : i ∈ block.instructions) (h : g.instructionDefect? block i = some d) : d.OccursIn g := by
  refine operandDefect?_occurs (fun s hs => ?_) (fun s hs => ?_) (.instruction hb hi) h
  · exact .instruction hb hi (.inl (Option.some.inj hs))
  · exact .instruction hb hi (.inr (Operation.mem_sources_iff.mp hs))

theorem terminatorDefect?_occurs {block : BasicBlock} (hb : block ∈ g.blocks)
    (h : g.terminatorDefect? block = some d) : d.OccursIn g := by
  unfold terminatorDefect? at h
  split at h
  next hopen =>
    cases h
    exact ⟨block, hb, rfl, hopen⟩
  next t ht =>
    simp only [Option.orElse_eq_orElse, Option.orElse_eq_or, Option.or_eq_some_iff] at h
    rcases h with hd | ⟨-, hd⟩
    · refine operandDefect?_occurs (fun s hs => ?_) (fun s hs => ?_) (.terminator hb ht) hd
      · exact .terminator hb ht (.inl hs)
      · exact .terminator hb ht (.inr (Transfer.mem_sources_iff.mp hs))
    · obtain ⟨l, hl, hd⟩ := List.exists_of_findSome?_eq_some hd
      obtain ⟨hle, rfl⟩ := ensure_eq_some_iff.mp hd
      refine ⟨block, hb, rfl, t, ht, Transfer.mem_successors_iff.mp hl, ?_⟩
      exact List.getElem?_eq_none (by simpa using hle)

theorem blockDefect?_occurs {l : Label} {block : BasicBlock} (hl : g.block? l = some block)
    (h : g.blockDefect? l block = some d) : d.OccursIn g := by
  have hmem := List.mem_of_getElem? hl
  simp only [blockDefect?, Option.orElse_eq_orElse, Option.orElse_eq_or, Option.or_eq_some_iff,
    ensure_eq_some_iff, decide_eq_false_iff_not] at h
  rcases h with ⟨hid, rfl⟩ | ⟨-, hd | ⟨-, hd⟩⟩
  · exact ⟨block, hl, rfl, hid⟩
  · obtain ⟨i, hi, hd⟩ := List.exists_of_findSome?_eq_some hd
    exact instructionDefect?_occurs hmem hi hd
  · exact terminatorDefect?_occurs hmem hd

theorem defect?_occurs (h : g.defect? = some d) : d.OccursIn g := by
  simp only [defect?, Option.orElse_eq_orElse, Option.orElse_eq_or, Option.or_eq_some_iff,
    ensure_eq_some_iff, decide_eq_false_iff_not, not_not] at h
  rcases h with hd | ⟨-, hd | ⟨-, hd | ⟨-, ⟨hnil, rfl⟩ | ⟨-, hd⟩⟩⟩⟩
  · exact resultDefect?_occurs hd
  · obtain ⟨⟨p, i⟩, hp, hd⟩ := List.exists_of_findSome?_eq_some hd
    exact paramDefect?_occurs (List.mem_zipIdx_iff_getElem?.mp hp) hd
  · obtain ⟨⟨s, i⟩, hs, hd⟩ := List.exists_of_findSome?_eq_some hd
    exact scopeDefect?_occurs (List.mem_zipIdx_iff_getElem?.mp hs) hd
  · exact hnil
  · obtain ⟨⟨block, l⟩, hl, hd⟩ := List.exists_of_findSome?_eq_some hd
    exact blockDefect?_occurs (List.mem_zipIdx_iff_getElem?.mp hl) hd

theorem verify_eq_ok_iff : g.verify = .ok () ↔ g.WellFormed := by
  rw [← defect?_eq_none_iff, verify]
  cases g.defect? <;> simp

/-- Verification accepts just the structured graphs. Any other graph is refused under its own name and
span, for a defect that it has. -/
theorem verify_eq_ok_iff_structured (g : Graph) :
    (g.verify = .ok () ↔ g.Structured) ∧
    (¬ g.Structured → ∃ d : Defect, d.OccursIn g ∧
      g.verify = .error ⟨.malformed g.name d.message, g.span⟩) := by
  rw [structured_iff_wellFormed]
  refine ⟨verify_eq_ok_iff, fun h => ?_⟩
  obtain ⟨d, hd⟩ := Option.ne_none_iff_exists'.mp (mt defect?_eq_none_iff.mp h)
  exact ⟨d, defect?_occurs hd, by rw [verify, hd]⟩

def crossing (s : Slot) : Graph where
  name := "f"
  key := "f()"
  params := [1]
  locals := [.ofName "%0" none .result, .ofName "x" none .argument]
  blocks := [⟨0, "bb0", [{ dst := 0, op := .platform "io" [1, s] }], some { transfer := .branch 1 2 2 }⟩,
    ⟨1, "bb1", [],
      some { dst := some 0, transfer := .call [1] (.ofName .anonymous "f") false 2, scope := 1 }⟩,
    ⟨2, "bb2", [], some { transfer := .branch 1 1 3, scope := 1 }⟩,
    ⟨3, "bb3", [], some { transfer := .ret }⟩]
  scopes := [⟨0, none⟩, ⟨1, some 0⟩]

theorem crossing_structured : (crossing 0).Structured ∧ ¬ (crossing 2).Structured ∧
    ∃ d : Defect, d.OccursIn (crossing 2) ∧
      (crossing 2).verify = .error ⟨.malformed "f" d.message, {}⟩ := by
  have hstray : ¬ (crossing 2).Structured := by
    rw [← (verify_eq_ok_iff_structured _).1]
    decide
  exact ⟨(verify_eq_ok_iff_structured _).1.mp rfl, hstray, (verify_eq_ok_iff_structured _).2 hstray⟩

section Predecessors

theorem WellFormed.map_id (h : g.WellFormed) : g.blocks.map (·.id) = List.range g.blocks.length := by
  apply List.ext_getElem (by simp)
  intro l hl _
  rw [List.length_map] at hl
  rw [List.getElem_map, List.getElem_range]
  exact (h.blocks l _ (List.getElem?_eq_getElem hl)).1.id

theorem eraseDups_of_pairwise {ls : List Label} (h : ls.Pairwise (· < ·)) : ls.eraseDups = ls := by
  induction h with
  | nil => rfl
  | @cons l ls hl _ ih =>
    have hfilter : ls.filter (fun m => !m == l) = ls :=
      List.filter_eq_self.mpr fun m hm => by simpa using Nat.ne_of_gt (hl m hm)
    rw [List.eraseDups_cons, hfilter, ih]

theorem WellFormed.origins_pairwise (h : g.WellFormed) (l : Label) : (g.origins l).Pairwise (· < ·) := by
  have hall : ((g.blocks.map (·.id)).filter (l ∈ g.successors ·)).Pairwise (· < ·) := by
    rw [h.map_id]
    exact List.Pairwise.sublist List.filter_sublist List.pairwise_lt_range
  rw [origins, eraseDups_of_pairwise hall]
  exact hall

/-- In a graph that was accepted there is a list of predecessors for every block. It has the blocks from
which control can go there, in their order and each once; and no edge leaves the graph. -/
theorem predecessors_of_verify {g : Graph} (h : g.verify = .ok ()) :
    g.predecessors.length = g.blocks.length ∧
    (∀ (l : Label) (ls : List Label), g.predecessors[l]? = some ls →
      (∀ p, p ∈ ls ↔ l ∈ g.successors p) ∧ ls.Pairwise (· < ·)) ∧
    ∀ p l, l ∈ g.successors p → p < g.blocks.length ∧ l < g.blocks.length := by
  have hwf := verify_eq_ok_iff.mp h
  refine ⟨by simp [predecessors_eq], fun l ls hls => ?_, fun p l hl => ?_⟩
  · obtain ⟨hlt, rfl⟩ : l < g.blocks.length ∧ g.origins l = ls := by
      simpa [predecessors_eq, List.getElem?_eq_some_iff] using hls
    obtain ⟨ls, hls', hmem⟩ := hwf.predecessors hlt
    obtain rfl := Option.some.inj (hls.symm.trans hls')
    exact ⟨fun p => by rw [hmem p, mem_successors_iff], hwf.origins_pairwise l⟩
  · obtain ⟨t, ht, hmem⟩ := mem_successors_iff.mp hl
    obtain ⟨block, -, hp, -⟩ := transferAt_eq_some_iff.mp ht
    exact ⟨(List.getElem?_eq_some_iff.mp hp).1, hwf.lt_of_transferAt ht hmem⟩

theorem crossing_predecessors : (crossing 0).predecessors = [[], [2], [0, 1], [2]] ∧
    ∀ p, p ∈ [0, 1] ↔ 2 ∈ (crossing 0).successors p :=
  ⟨by decide, ((predecessors_of_verify (g := crossing 0) rfl).2.1 2 [0, 1] (by decide)).1⟩

end Predecessors

end Graph

end FlowGraph

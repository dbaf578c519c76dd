import FlowGraph.Proofs.Outcome

/-!
Builders under any sequence of requests, refused ones included. The requests that were granted, each
with the scope that was current then, tell all of the tables that a builder hands over.
-/

namespace FlowGraph

inductive Request where
  | addBlock
  | allocate (name : String) (ty : Option Ty) (kind : VarKind)
  | allocateBound (name : String) (ty : Option Ty) (kind : VarKind) (key : Symbol)
  | temporary (ty : Option Ty)
  | bind (key : Symbol) (s : Slot)
  | enterScope
  | exitScope
  | pushLoop (frame : LoopFrame)
  | popLoop
  | emit (l : Label) (dst : Slot) (op : Operation) (span : Span)
  | terminate (l : Label) (dst : Option Slot) (transfer : Transfer) (span : Span)
  deriving DecidableEq

namespace Request

def act : Request → Build Unit
  | .addBlock => do let _ ← Build.addBlock
  | .allocate name ty kind => do let _ ← Build.allocate name ty kind
  | .allocateBound name ty kind key => do let _ ← Build.allocateBound name ty kind key
  | .temporary ty => do let _ ← Build.temporary ty
  | .bind key s => Build.onLocals fun t => ((), t.bind key s)
  | .enterScope => Build.enterScope
  | .exitScope => Build.exitScope
  | .pushLoop frame => Build.pushLoop frame
  | .popLoop => do let _ ← Build.popLoop
  | .emit l dst op span => Build.emit l dst op span
  | .terminate l dst transfer span => Build.terminate l dst transfer span

def isGranted (r : Request) (b : Builder) : Bool :=
  match r.act b with
  | .ok _ _ => true
  | .error _ _ => false

def after (r : Request) (b : Builder) : Builder :=
  match r.act b with
  | .ok _ b' | .error _ b' => b'

end Request

structure Entry where
  request : Request
  scope : ScopeId
  deriving DecidableEq

namespace Entry

def instruction? (l : Label) : Entry → Option Instruction
  | ⟨.emit m dst op span, scope⟩ => if m = l then some ⟨dst, op, scope, span⟩ else none
  | _ => none

def terminator? (l : Label) : Entry → Option Terminator
  | ⟨.terminate m dst transfer span, scope⟩ => if m = l then some ⟨dst, transfer, scope, span⟩ else none
  | _ => none

def local? (n : Slot) : Entry → Option Variable
  | ⟨.allocate name ty kind, _⟩ | ⟨.allocateBound name ty kind _, _⟩ => some (.ofName name ty kind)
  | ⟨.temporary ty, _⟩ => some (.ofName s!"%{n}" ty .temporary)
  | _ => none

def scope? (n : ScopeId) : Entry → Option Scope
  | ⟨.enterScope, scope⟩ => some ⟨n, some scope⟩
  | _ => none

def addsBlock (e : Entry) : Bool := e.request = .addBlock

end Entry

/-- The block numbered `l`, as a history tells it. -/
def blockOf (stem : String) (log : List Entry) (l : Label) : BasicBlock where
  id := l
  name := stem ++ toString l
  instructions := log.filterMap (·.instruction? l)
  terminator := log.findSome? (·.terminator? l)

def variablesOf (log : List Entry) : List Variable :=
  log.foldl (fun vars e => vars ++ (e.local? vars.length).toList) []

def scopesOf (log : List Entry) : List Scope :=
  log.foldl (fun scopes e => scopes ++ (e.scope? scopes.length).toList) [{ id := 0 }]

theorem blockOf_snoc (stem : String) (log : List Entry) (e : Entry) (l : Label) :
    blockOf stem (log ++ [e]) l =
      { blockOf stem log l with
        instructions := (blockOf stem log l).instructions ++ (e.instruction? l).toList
        terminator := (blockOf stem log l).terminator.or (e.terminator? l) } := by
  cases h : e.instruction? l <;> simp [blockOf, h, List.findSome?_append]

theorem variablesOf_snoc (log : List Entry) (e : Entry) :
    variablesOf (log ++ [e]) = variablesOf log ++ (e.local? (variablesOf log).length).toList := by
  simp [variablesOf, List.foldl_append]

theorem scopesOf_snoc (log : List Entry) (e : Entry) :
    scopesOf (log ++ [e]) = scopesOf log ++ (e.scope? (scopesOf log).length).toList := by
  simp [scopesOf, List.foldl_append]

namespace Builder

def serve (b : Builder) (rs : List Request) : Builder := rs.foldl (fun b r => r.after b) b

def entry? (b : Builder) (r : Request) : Option Entry :=
  if r.isGranted b then some ⟨r, b.scopes.current⟩ else none

def history (b : Builder) : List Request → List Entry
  | [] => []
  | r :: rs => (b.entry? r).toList ++ (r.after b).history rs

theorem updateOpen_refused {b : Builder} {l : Label} (h : ¬ b.IsOpen l)
    (f : BasicBlock → BasicBlock) : ∃ e, b.updateOpen l f = .error e := by
  cases hu : b.updateOpen l f with
  | error e => exact ⟨e, rfl⟩
  | ok b' =>
    obtain ⟨block, hb, hopen, -⟩ := updateOpen_eq_ok_iff.mp hu
    exact absurd ⟨block, hb, by simpa [BasicBlock.isOpen] using hopen⟩ h

end Builder

/-- `Grants b r b'`: the builder `b` grants request `r` and becomes `b'`. -/
inductive Grants (b : Builder) : Request → Builder → Prop
  | addBlock : Grants b .addBlock b.grow
  | emit {l dst op span} : b.IsOpen l → Grants b (.emit l dst op span) (b.append l dst op span)
  | terminate {l dst transfer span} :
    b.IsOpen l → Grants b (.terminate l dst transfer span) (b.close l dst transfer span)
  | aside {r b'} :
    (∀ l scope, (Entry.mk r scope).instruction? l = none ∧ (Entry.mk r scope).terminator? l = none) →
    r ≠ .addBlock → b'.stem = b.stem → b'.blocks = b.blocks →
    b'.locals.vars = b.locals.vars ++ ((Entry.mk r b.scopes.current).local? b.nextSlot).toList →
    b'.scopes.scopes =
      b.scopes.scopes ++ ((Entry.mk r b.scopes.current).scope? b.scopes.scopes.length).toList →
    Grants b r b'

namespace Request

variable {b : Builder} {r : Request}

theorem grants_or_refuses (b : Builder) (r : Request) :
    (∃ b', r.act b = .ok () b' ∧ Grants b r b') ∨ ∃ e, r.act b = .error e b := by
  cases r with
  | addBlock => exact .inl ⟨_, rfl, .addBlock⟩
  | allocate | allocateBound | temporary =>
    exact .inl ⟨_, rfl, .aside (fun _ _ => ⟨rfl, rfl⟩) (by simp) rfl rfl rfl (by simp [Entry.scope?])⟩
  | enterScope =>
    exact .inl ⟨_, rfl, .aside (fun _ _ => ⟨rfl, rfl⟩) (by simp) rfl rfl (by simp [Entry.local?]) rfl⟩
  | exitScope =>
    exact .inl ⟨_, rfl, .aside (fun _ _ => ⟨rfl, rfl⟩) (by simp) rfl rfl (by simp [Entry.local?])
      (by simp [Entry.scope?, ScopeTree.exit])⟩
  | bind | pushLoop =>
    exact .inl ⟨_, rfl, .aside (fun _ _ => ⟨rfl, rfl⟩) (by simp) rfl rfl (by simp [Entry.local?])
      (by simp [Entry.scope?])⟩
  | popLoop =>
    cases hl : b.loops with
    | nil =>
      have hpop : Build.popLoop b = .error (.unplaced (.noEnclosingLoop "loop exit")) b := by
        simp [Build.popLoop, Build.step, Builder.popLoop, hl]
      exact .inr ⟨_, bind_fail hpop⟩
    | cons frame loops =>
      exact .inl ⟨_, bind_run (Build.popLoop_run hl), .aside (fun _ _ => ⟨rfl, rfl⟩) (by simp) rfl rfl
        (by simp [Entry.local?]) (by simp [Entry.scope?])⟩
  | emit l dst op span =>
    by_cases ho : b.IsOpen l
    · exact .inl ⟨_, Build.emit_run ho, .emit ho⟩
    · obtain ⟨e, he⟩ := Builder.updateOpen_refused ho fun block =>
        { block with instructions := block.instructions ++ [⟨dst, op, b.scopes.current, span⟩] }
      exact .inr ⟨e, by simp [act, Build.emit, Build.step, Builder.emit, he, Except.map]⟩
  | terminate l dst transfer span =>
    by_cases ho : b.IsOpen l
    · exact .inl ⟨_, Build.terminate_run ho, .terminate ho⟩
    · obtain ⟨e, he⟩ := Builder.updateOpen_refused ho fun block =>
        { block with terminator := some ⟨dst, transfer, b.scopes.current, span⟩ }
      exact .inr ⟨e, by simp [act, Build.terminate, Build.step, Builder.terminate, he, Except.map]⟩

theorem grants_of_isGranted (h : r.isGranted b = true) : Grants b r (r.after b) := by
  rcases grants_or_refuses b r with ⟨b', hb', hg⟩ | ⟨e, he⟩
  · simpa [after, hb'] using hg
  · simp [isGranted, he] at h

theorem after_of_not_isGranted (h : r.isGranted b = false) : r.after b = b := by
  rcases grants_or_refuses b r with ⟨b', hb', hg⟩ | ⟨e, he⟩
  · simp [isGranted, hb'] at h
  · simp [after, he]

theorem isGranted_iff_isOpen {l : Label}
    (hr : (∃ dst op span, r = .emit l dst op span) ∨
      ∃ dst transfer span, r = .terminate l dst transfer span) :
    r.isGranted b = true ↔ b.IsOpen l := by
  rcases hr with ⟨dst, op, span, rfl⟩ | ⟨dst, transfer, span, rfl⟩
  · constructor
    · intro h
      rcases grants_or_refuses b (.emit l dst op span) with ⟨b', -, hg⟩ | ⟨e, he⟩
      · cases hg with
        | emit ho => exact ho
        | aside hu => simpa [Entry.instruction?] using (hu l 0).1
      · simp [isGranted, he] at h
    · intro ho
      simp [isGranted, act, Build.emit_run ho]
  · constructor
    · intro h
      rcases grants_or_refuses b (.terminate l dst transfer span) with ⟨b', -, hg⟩ | ⟨e, he⟩
      · cases hg with
        | terminate ho => exact ho
        | aside hu => simpa [Entry.terminator?] using (hu l 0).2
      · simp [isGranted, he] at h
    · intro ho
      simp [isGranted, act, Build.terminate_run ho]

end Request

theorem Grants.blocksGrow {b b' : Builder} {r : Request} (h : Grants b r b') :
    BlocksGrow b.blocks b'.blocks := by
  cases h with
  | addBlock => exact .snoc _ _
  | emit ho => exact ((Builder.Grows.refl b).append ho).blocks
  | terminate ho => exact ((Builder.Grows.refl b).close ho).blocks
  | aside _ _ _ hb => exact hb ▸ .refl _

theorem Request.blocksGrow (r : Request) (b : Builder) : BlocksGrow b.blocks (r.after b).blocks := by
  cases h : r.isGranted b with
  | true => exact (grants_of_isGranted h).blocksGrow
  | false => exact (after_of_not_isGranted h).symm ▸ .refl _

namespace Builder

theorem serve_blocksGrow (b : Builder) (rs : List Request) :
    BlocksGrow b.blocks (b.serve rs).blocks := by
  induction rs generalizing b with
  | nil => exact .refl _
  | cons r rs ih => exact (r.blocksGrow b).trans (ih (r.after b))

theorem block?_serve_of_closed {b : Builder} {l : Label} {block : BasicBlock}
    (hl : b.block? l = some block) (hc : block.terminator ≠ none) (rs : List Request) :
    (b.serve rs).block? l = some block := by
  obtain ⟨block', hl', hg⟩ := b.serve_blocksGrow rs l block hl
  rw [← hg.closed hc]
  exact hl'

theorem serve_history (b : Builder) (rs : List Request) :
    b.serve ((b.history rs).map (·.request)) = b.serve rs := by
  induction rs generalizing b with
  | nil => rfl
  | cons r rs ih =>
    cases h : r.isGranted b with
    | true => simpa [history, entry?, h, serve] using ih (r.after b)
    | false =>
      have hafter := Request.after_of_not_isGranted h
      simpa [history, entry?, h, serve, hafter] using ih b

end Builder

/-- A history tells the tables of a builder. A block that is yet to be added is told as an empty
one, which is what it is when it is added. -/
structure Tells (stem : String) (log : List Entry) (b : Builder) : Prop where
  stem_eq : b.stem = stem
  blocks_eq : b.blocks = (List.range (log.countP (·.addsBlock))).map (blockOf stem log)
  unused : ∀ l, b.nextLabel ≤ l → blockOf stem log l = .empty stem l
  vars_eq : b.locals.vars = variablesOf log
  scopes_eq : b.scopes.scopes = scopesOf log

namespace Tells

open Builder

variable {stem : String} {log : List Entry} {b : Builder}

theorem init (stem : String) : Tells stem [] { stem := stem } where
  stem_eq := rfl
  blocks_eq := rfl
  unused _ _ := rfl
  vars_eq := rfl
  scopes_eq := rfl

theorem nextLabel_eq (h : Tells stem log b) : b.nextLabel = log.countP (·.addsBlock) := by
  simp [h.blocks_eq]

theorem getElem? (h : Tells stem log b) {l : Label} (hl : l < b.nextLabel) :
    b.blocks[l]? = some (blockOf stem log l) := by
  rw [h.nextLabel_eq] at hl
  simp [h.blocks_eq, hl]

theorem of_getElem? {log : List Entry} (hstem : b.stem = stem)
    (hcount : b.nextLabel = log.countP (·.addsBlock))
    (hget : ∀ l < b.nextLabel, b.blocks[l]? = some (blockOf stem log l))
    (hunused : ∀ l, b.nextLabel ≤ l → blockOf stem log l = .empty stem l)
    (hvars : b.locals.vars = variablesOf log) (hscopes : b.scopes.scopes = scopesOf log) :
    Tells stem log b where
  stem_eq := hstem
  blocks_eq := by
    apply List.ext_getElem?
    intro l
    rcases Nat.lt_or_ge l b.nextLabel with hl | hl
    · rw [hget l hl]
      simp [hcount ▸ hl]
    · rw [List.getElem?_eq_none hl, List.getElem?_eq_none (by simpa [← hcount] using hl)]
  unused := hunused
  vars_eq := hvars
  scopes_eq := hscopes

theorem addBlock (h : Tells stem log b) {scope : ScopeId} :
    Tells stem (log ++ [⟨.addBlock, scope⟩]) b.grow := by
  have htold : ∀ l, blockOf stem (log ++ [⟨.addBlock, scope⟩]) l = blockOf stem log l := fun l => by
    simp [blockOf_snoc, Entry.instruction?, Entry.terminator?]
  have hcount := h.nextLabel_eq
  apply of_getElem?
  · exact h.stem_eq
  · simpa [Entry.addsBlock, List.countP_append] using hcount
  · intro l hl
    rw [htold]
    rcases Nat.lt_succ_iff_lt_or_eq.mp (by simpa using hl) with hlt | rfl
    · rw [getElem?_grow (Nat.ne_of_lt hlt), h.getElem? hlt]
    · simp [grow, h.unused _ (Nat.le_refl _), h.stem_eq]
  · intro l hl
    rw [htold]
    exact h.unused l (Nat.le_of_succ_le (by simpa using hl))
  · simp [variablesOf_snoc, Entry.local?, h.vars_eq]
  · simp [scopesOf_snoc, Entry.scope?, h.scopes_eq]

theorem modify (h : Tells stem log b) {e : Entry} {l : Label} {f : BasicBlock → BasicBlock}
    (hl : l < b.nextLabel) (hat : blockOf stem (log ++ [e]) l = f (blockOf stem log l))
    (hne : ∀ m, m ≠ l → blockOf stem (log ++ [e]) m = blockOf stem log m)
    (hadd : e.addsBlock = false) (hvar : ∀ n, e.local? n = none) (hscope : ∀ n, e.scope? n = none) :
    Tells stem (log ++ [e]) { b with blocks := b.blocks.modify l f } := by
  apply of_getElem?
  · exact h.stem_eq
  · simpa [List.countP_append, hadd] using h.nextLabel_eq
  · intro m hm
    replace hm : m < b.nextLabel := by simpa using hm
    by_cases hml : m = l
    · subst hml
      simp [h.getElem? hl, hat]
    · simp [List.getElem?_modify_ne _ _ (Ne.symm hml), h.getElem? hm, hne m hml]
  · intro m hm
    replace hm : b.nextLabel ≤ m := by simpa using hm
    rw [hne m (Nat.ne_of_gt (Nat.lt_of_lt_of_le hl hm)), h.unused m hm]
  · simp [variablesOf_snoc, hvar, h.vars_eq]
  · simp [scopesOf_snoc, hscope, h.scopes_eq]

theorem isOpen_iff (h : Tells stem log b) {l : Label} :
    b.IsOpen l ↔ l < b.nextLabel ∧ (blockOf stem log l).terminator = none := by
  constructor
  · intro ho
    obtain ⟨block, hb, hopen⟩ := ho
    have hl : l < b.nextLabel := (List.getElem?_eq_some_iff.mp hb).1
    obtain rfl : blockOf stem log l = block := Option.some.inj ((h.getElem? hl).symm.trans hb)
    exact ⟨hl, hopen⟩
  · rintro ⟨hl, hopen⟩
    exact ⟨_, h.getElem? hl, hopen⟩

theorem step (h : Tells stem log b) {r : Request} {b' : Builder} (hg : Grants b r b') :
    Tells stem (log ++ [⟨r, b.scopes.current⟩]) b' := by
  cases hg with
  | addBlock => exact h.addBlock
  | @emit l dst op span ho =>
    refine h.modify ho.lt ?_ (fun m hm => ?_) rfl (fun _ => rfl) (fun _ => rfl)
    · simp [blockOf_snoc, Entry.instruction?, Entry.terminator?, BasicBlock.append]
    · simp [blockOf_snoc, Entry.instruction?, Entry.terminator?, Ne.symm hm]
  | @terminate l dst transfer span ho =>
    -- the block is open, so this is the first request that closes it
    have hopen := (h.isOpen_iff.mp ho).2
    refine h.modify ho.lt ?_ (fun m hm => ?_) rfl (fun _ => rfl) (fun _ => rfl)
    · simp [blockOf_snoc, Entry.instruction?, Entry.terminator?, BasicBlock.close, hopen]
    · simp [blockOf_snoc, Entry.instruction?, Entry.terminator?, Ne.symm hm]
  | aside hu hadd hstem hblocks hvars hscopes =>
    have htold : ∀ l, blockOf stem (log ++ [⟨r, b.scopes.current⟩]) l = blockOf stem log l := fun l => by
      obtain ⟨hi, ht⟩ := hu l b.scopes.current
      simp [blockOf_snoc, hi, ht]
    apply of_getElem?
    · exact hstem.trans h.stem_eq
    · simpa [hblocks, List.countP_append, Entry.addsBlock, hadd] using h.nextLabel_eq
    · intro l hl
      rw [htold, hblocks]
      exact h.getElem? (by simpa [hblocks] using hl)
    · intro l hl
      rw [htold]
      exact h.unused l (by simpa [hblocks] using hl)
    · rw [hvars, variablesOf_snoc, ← h.vars_eq]
    · rw [hscopes, scopesOf_snoc, ← h.scopes_eq]

theorem serve (h : Tells stem log b) (rs : List Request) :
    Tells stem (log ++ b.history rs) (b.serve rs) := by
  induction rs generalizing log b with
  | nil => simpa [history, Builder.serve] using h
  | cons r rs ih =>
    cases hr : r.isGranted b with
    | true =>
      have := ih (h.step (Request.grants_of_isGranted hr))
      simpa [history, entry?, hr, Builder.serve] using this
    | false =>
      have hafter := Request.after_of_not_isGranted hr
      simpa [history, entry?, hr, hafter, Builder.serve] using ih h

end Tells

namespace Builder

theorem finish_eq_ok_iff {b : Builder} {parts : Parts} :
    b.finish = .ok parts ↔ (∀ block ∈ b.blocks, block.terminator ≠ none) ∧
      parts = ⟨b.locals.vars, b.blocks, b.scopes.scopes⟩ := by
  unfold finish
  cases h : b.blocks.find? (·.isOpen) with
  | none =>
    have hall : ∀ block ∈ b.blocks, block.terminator ≠ none := by
      simpa [BasicBlock.isOpen] using h
    simp only [Except.ok.injEq]
    exact ⟨fun e => ⟨hall, e.symm⟩, fun e => e.2.symm⟩
  | some block =>
    have hopen : block.terminator = none := by simpa [BasicBlock.isOpen] using List.find?_some h
    simp only [reduceCtorEq, false_iff]
    exact fun e => e.1 block (List.mem_of_find?_eq_some h) hopen

theorem finish_eq_error_iff {b : Builder} {e : Error} :
    b.finish = .error e ↔ ∃ l block, b.block? l = some block ∧ block.terminator = none ∧
      (∀ m < l, ¬ b.IsOpen m) ∧ e = .unplaced (.openBlock block.name) := by
  unfold finish
  cases h : b.blocks.find? (·.isOpen) with
  | none =>
    have hall : ∀ block ∈ b.blocks, block.terminator ≠ none := by
      simpa [BasicBlock.isOpen] using h
    simp only [reduceCtorEq, false_iff]
    rintro ⟨l, block, hl, hopen, -⟩
    exact hall block (List.mem_of_getElem? hl) hopen
  | some block =>
    obtain ⟨hopen, l, hl, rfl, hfirst⟩ := List.find?_eq_some_iff_getElem.mp h
    have hbelow : ∀ m < l, ¬ b.IsOpen m := by
      rintro m hm ⟨block, hb, ho⟩
      obtain ⟨hm', rfl⟩ := List.getElem?_eq_some_iff.mp hb
      simpa [BasicBlock.isOpen, ho] using hfirst m hm
    have ho : b.IsOpen l := ⟨_, List.getElem?_eq_getElem hl, by simpa [BasicBlock.isOpen] using hopen⟩
    simp only [Except.error.injEq]
    constructor
    · rintro rfl
      exact ⟨l, _, List.getElem?_eq_getElem hl, by simpa [BasicBlock.isOpen] using hopen, hbelow, rfl⟩
    · rintro ⟨l', block, hl', hopen', hbelow', rfl⟩
      -- the lowest-numbered open block is one block
      obtain hlt | rfl | hgt := Nat.lt_trichotomy l l'
      · exact absurd ho (hbelow' l hlt)
      · obtain ⟨-, rfl⟩ := List.getElem?_eq_some_iff.mp hl'
        rfl
      · exact absurd ⟨block, hl', hopen'⟩ (hbelow l' hgt)

/-- What a builder is after any requests from the start: the log of those it granted. A refused
request changes nothing, a closed block stays as it is whatever is asked after, and the tables are
handed over exactly if no block is open. -/
theorem serve_new (stem : String) (rs : List Request) :
    let start : Builder := { stem := stem }
    let log := start.history rs
    let b := start.serve rs
    Tells stem log b ∧ start.serve (log.map (·.request)) = b ∧
    (∀ r : Request, r.isGranted b = false → r.after b = b) ∧
    (∀ l dst op span, (Request.emit l dst op span).isGranted b = true ↔
      ∃ block, b.block? l = some block ∧ block.terminator = none) ∧
    (∀ l dst transfer span, (Request.terminate l dst transfer span).isGranted b = true ↔
      ∃ block, b.block? l = some block ∧ block.terminator = none) ∧
    (∀ l block, b.block? l = some block → block.terminator ≠ none →
      ∀ rs', (b.serve rs').block? l = some block) ∧
    (∀ parts, b.finish = .ok parts ↔ (∀ block ∈ b.blocks, block.terminator ≠ none) ∧
      parts = ⟨b.locals.vars, b.blocks, b.scopes.scopes⟩) ∧
    ∀ e, b.finish = .error e ↔ ∃ l block, b.block? l = some block ∧ block.terminator = none ∧
      (∀ m < l, ¬ b.IsOpen m) ∧ e = .unplaced (.openBlock block.name) := by
  intro start log b
  have htells : Tells stem log b := by simpa using (Tells.init stem).serve rs
  refine ⟨htells, start.serve_history rs, fun r => Request.after_of_not_isGranted, ?_, ?_, ?_, ?_, ?_⟩
  · intro l dst op span
    exact Request.isGranted_iff_isOpen (.inl ⟨dst, op, span, rfl⟩)
  · intro l dst transfer span
    exact Request.isGranted_iff_isOpen (.inr ⟨dst, transfer, span, rfl⟩)
  · intro l block hl hc
    exact block?_serve_of_closed hl hc
  · intro parts
    exact finish_eq_ok_iff
  · intro e
    exact finish_eq_error_iff

def careless : List Request :=
  [.addBlock, .emit 1 0 (.load .nil none) {}, .addBlock, .temporary none, .enterScope,
    .emit 0 0 (.load .nil none) {}, .popLoop, .emit 1 0 (.move 0) {}, .terminate 0 none (.goto 1) {},
    .emit 0 0 (.move 0) {}, .terminate 0 none .ret {}, .terminate 2 none .ret {}]

theorem serve_careless :
    let start : Builder := { stem := "L" }
    let b := start.serve careless
    (start.history careless).map (·.request) =
      [.addBlock, .addBlock, .temporary none, .enterScope, .emit 0 0 (.load .nil none) {},
        .emit 1 0 (.move 0) {}, .terminate 0 none (.goto 1) {}] ∧
    Tells "L" (start.history careless) b ∧
    (∀ rs, (b.serve rs).block? 0 =
      some ⟨0, "L0", [⟨0, .load .nil none, 1, {}⟩], some ⟨none, .goto 1, 1, {}⟩⟩) ∧
    b.finish = .error (.unplaced (.openBlock "L1")) := by
  obtain ⟨htells, -, -, -, -, hclosed, -, hfinish⟩ := serve_new "L" careless
  refine ⟨by decide +kernel, htells, ?_, ?_⟩
  · exact hclosed 0 _ (by decide +kernel) (by simp)
  · refine (hfinish _).mpr ⟨1, ⟨1, "L1", [⟨0, .move 0, 1, {}⟩], none⟩, by decide +kernel, rfl, ?_, rfl⟩
    intro m hm
    obtain rfl : m = 0 := Nat.lt_one_iff.mp hm
    rintro ⟨block, hb, hopen⟩
    have hnone : ((({ stem := "L" } : Builder).serve careless).blocks[0]?).any (·.isOpen) = false := by
      decide +kernel
    simp [hb, BasicBlock.isOpen, hopen] at hnone

end Builder

end FlowGraph

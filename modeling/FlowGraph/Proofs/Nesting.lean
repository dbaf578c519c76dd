import FlowGraph.Proofs.History

/-!
The nesting that a builder keeps is that of two plain stacks. The scopes that enclose the current one
are found by going from parent to parent in a table that only grows, and they are what a stack of scopes
would hold; a loop that is popped is the last one that was pushed and not popped since. Whatever is asked
of a builder, requests that it refuses included, the two do not meet.
-/

namespace FlowGraph

namespace Request

def isScope : Request → Bool
  | .enterScope | .exitScope => true
  | _ => false

def isLoop : Request → Bool
  | .pushLoop _ | .popLoop => true
  | _ => false

def onScopes : Request → ScopeTree → ScopeTree
  | .enterScope, t => t.enter
  | .exitScope, t => t.exit
  | _, t => t

def onLoops : Request → LoopStack → LoopStack
  | .pushLoop frame, loops => frame :: loops
  | .popLoop, loops => loops.tail
  | _, loops => loops

theorem onScopes_of_not_isScope {r : Request} (h : r.isScope = false) (t : ScopeTree) :
    r.onScopes t = t := by
  cases r with
  | enterScope | exitScope => cases h
  | _ => rfl

theorem onLoops_of_not_isLoop {r : Request} (h : r.isLoop = false) (loops : LoopStack) :
    r.onLoops loops = loops := by
  cases r with
  | pushLoop | popLoop => cases h
  | _ => rfl

theorem after_nesting (r : Request) (b : Builder) :
    (r.after b).scopes = r.onScopes b.scopes ∧ (r.after b).loops = r.onLoops b.loops := by
  cases r with
  | popLoop =>
    cases hl : b.loops with
    | nil =>
      have hact : Request.popLoop.act b = .error (.unplaced (.noEnclosingLoop "loop exit")) b :=
        bind_fail (by simp [Build.popLoop, Build.step, Builder.popLoop, hl])
      simp [after, hact, onScopes, onLoops, hl]
    | cons frame loops =>
      have hact : Request.popLoop.act b = .ok () b.dropLoop :=
        bind_run (Build.popLoop_run hl)
      simp [after, hact, onScopes, onLoops, hl]
  | emit l dst op span =>
    rcases grants_or_refuses b (.emit l dst op span) with ⟨b', hact, hg⟩ | ⟨e, hact⟩
    · cases hg with
      | emit => simp [after, hact, onScopes, onLoops]
      | aside hu => simpa [Entry.instruction?] using (hu l 0).1
    · simp [after, hact, onScopes, onLoops]
  | terminate l dst transfer span =>
    rcases grants_or_refuses b (.terminate l dst transfer span) with ⟨b', hact, hg⟩ | ⟨e, hact⟩
    · cases hg with
      | terminate => simp [after, hact, onScopes, onLoops]
      | aside hu => simpa [Entry.terminator?] using (hu l 0).2
    · simp [after, hact, onScopes, onLoops]
  | _ => exact ⟨rfl, rfl⟩

end Request

namespace Builder

theorem scopes_serve (b : Builder) (rs : List Request) :
    (b.serve rs).scopes = rs.foldl (fun t r => r.onScopes t) b.scopes := by
  induction rs generalizing b with
  | nil => rfl
  | cons r rs ih => exact (ih (r.after b)).trans (by rw [(r.after_nesting b).1, List.foldl_cons])

theorem loops_serve (b : Builder) (rs : List Request) :
    (b.serve rs).loops = rs.foldl (fun loops r => r.onLoops loops) b.loops := by
  induction rs generalizing b with
  | nil => rfl
  | cons r rs ih => exact (ih (r.after b)).trans (by rw [(r.after_nesting b).2, List.foldl_cons])

theorem scopes_serve_filter (b : Builder) (rs : List Request) :
    (b.serve rs).scopes = (b.serve (rs.filter (·.isScope))).scopes := by
  rw [scopes_serve, scopes_serve, List.foldl_filter]
  congr
  funext t r
  cases h : r.isScope with
  | true => rfl
  | false => exact r.onScopes_of_not_isScope h t

theorem loops_serve_filter (b : Builder) (rs : List Request) :
    (b.serve rs).loops = (b.serve (rs.filter (·.isLoop))).loops := by
  rw [loops_serve, loops_serve, List.foldl_filter]
  congr
  funext loops r
  cases h : r.isLoop with
  | true => rfl
  | false => exact r.onLoops_of_not_isLoop h loops

end Builder

/-! The scopes around the current one. -/

structure ScopeStack where
  count : Nat := 1
  around : List ScopeId := [0]
  deriving DecidableEq

/-- A new scope is numbered by those before it and goes on top; the top is taken away unless it is all
there is. -/
def ScopeStack.after (st : ScopeStack) : Request → ScopeStack
  | .enterScope => ⟨st.count + 1, st.count :: st.around⟩
  | .exitScope => { st with around := if st.around = [0] then [0] else st.around.tail }
  | _ => st

namespace ScopeTree

inductive Chain (scopes : List Scope) : ScopeId → List ScopeId → Prop
  | root {s} : scopes[0]? = some s → s.parent = none → Chain scopes 0 [0]
  | within {i s p is} :
    scopes[i]? = some s → s.parent = some p → Chain scopes p is → Chain scopes i (i :: is)

namespace Chain

variable {scopes : List Scope} {i : ScopeId} {is is' : List ScopeId}

theorem unique (h : Chain scopes i is) (h' : Chain scopes i is') : is = is' := by
  induction h generalizing is' with
  | root hs hroot =>
    cases h' with
    | root => rfl
    | within hs' hp => simp_all
  | within hs hp _ ih =>
    cases h' with
    | root hs' hroot => simp_all
    | within hs' hp' hc =>
      obtain rfl := Option.some.inj (hs.symm.trans hs')
      obtain rfl := Option.some.inj (hp.symm.trans hp')
      rw [ih hc]

theorem append (h : Chain scopes i is) (new : List Scope) : Chain (scopes ++ new) i is := by
  have hkept : ∀ {j s}, scopes[j]? = some s → (scopes ++ new)[j]? = some s := fun hs => by
    rw [List.getElem?_append_left (List.getElem?_eq_some_iff.mp hs).1, hs]
  induction h with
  | root hs hroot => exact .root (hkept hs) hroot
  | within hs hparent _ ih => exact .within (hkept hs) hparent ih

theorem ne_nil (h : Chain scopes i is) : is ≠ [] := by
  cases h <;> simp

end Chain

/-- A tree of scopes stands for a stack: its table is in order, and from the current scope the parents
lead through the stack. -/
structure Holds (t : ScopeTree) (st : ScopeStack) : Prop where
  sound : t.Sound
  count : t.scopes.length = st.count
  chain : Chain t.scopes t.current st.around

namespace Holds

variable {t : ScopeTree} {st : ScopeStack}

theorem init : Holds {} {} where
  sound :=
    { numbered := by simp +contextual [List.getElem?_singleton]
      parents := by simp +contextual [List.getElem?_singleton]
      current := Nat.zero_lt_one }
  count := rfl
  chain := .root rfl rfl

theorem enter (h : t.Holds st) : t.enter.Holds (st.after .enterScope) where
  sound := h.sound.enter
  count := by simp [ScopeTree.enter, ScopeStack.after, h.count]
  chain := by
    have hnew : t.enter.scopes[st.count]? = some ⟨st.count, some t.current⟩ := by
      simp [ScopeTree.enter, ← h.count]
    have hcurrent : t.enter.current = st.count := h.count
    rw [hcurrent]
    exact .within hnew rfl (h.chain.append _)

theorem exit (h : t.Holds st) : t.exit.Holds (st.after .exitScope) where
  sound := h.sound.exit
  count := h.count
  chain := by
    obtain ⟨count, around⟩ := st
    obtain ⟨scopes, current⟩ := t
    cases h.chain with
    | root hs hroot => simpa [ScopeTree.exit, ScopeStack.after, hs, hroot] using h.chain
    | within hs hparent hc =>
      -- a scope with a parent is not alone on the stack
      simpa [ScopeTree.exit, ScopeStack.after, hs, hparent, hc.ne_nil] using hc

theorem step (h : t.Holds st) (r : Request) : (r.onScopes t).Holds (st.after r) := by
  cases r with
  | enterScope => exact h.enter
  | exitScope => exact h.exit
  | _ => exact h

theorem run (h : t.Holds st) (rs : List Request) :
    (rs.foldl (fun t r => r.onScopes t) t).Holds (rs.foldl ScopeStack.after st) := by
  induction rs generalizing t st with
  | nil => exact h
  | cons r rs ih => exact ih (h.step r)

end Holds

end ScopeTree

theorem Request.scopes_isPrefix (r : Request) (t : ScopeTree) : t.scopes <+: (r.onScopes t).scopes := by
  cases r with
  | enterScope => exact List.prefix_append _ _
  | _ => exact List.prefix_rfl

theorem Builder.scopes_serve_isPrefix (b : Builder) (rs : List Request) :
    b.scopes.scopes <+: (b.serve rs).scopes.scopes := by
  induction rs generalizing b with
  | nil => exact List.prefix_rfl
  | cons r rs ih =>
    have hstep := r.scopes_isPrefix b.scopes
    rw [← (r.after_nesting b).1] at hstep
    exact hstep.trans (ih (r.after b))

/-! The loops that were pushed and not popped. -/

inductive Balanced : List Request → Prop
  | nil : Balanced []
  | aside {r rs} : r.isLoop = false → Balanced rs → Balanced (r :: rs)
  | loop {frame inner rs} :
    Balanced inner → Balanced rs → Balanced (.pushLoop frame :: inner ++ .popLoop :: rs)

/-- Of the loops that were pushed and not popped, `frame` was pushed last. -/
def LastUnpopped (rs : List Request) (frame : LoopFrame) : Prop :=
  ∃ before after, rs = before ++ .pushLoop frame :: after ∧ Balanced after

namespace Balanced

variable {rs rs' : List Request}

theorem append (h : Balanced rs) (h' : Balanced rs') : Balanced (rs ++ rs') := by
  induction h with
  | nil => exact h'
  | aside hr _ ih => exact .aside hr ih
  | loop hinner _ _ ih => simpa using Balanced.loop hinner ih

theorem onLoops (h : Balanced rs) (loops : LoopStack) :
    rs.foldl (fun loops r => r.onLoops loops) loops = loops := by
  induction h generalizing loops with
  | nil => rfl
  | aside hr _ ih => rw [List.foldl_cons, Request.onLoops_of_not_isLoop hr, ih]
  | loop _ _ ih ih' =>
    rw [List.cons_append, List.foldl_cons, List.foldl_append, ih, List.foldl_cons]
    exact ih' loops

end Balanced

theorem exists_push_of_onLoops {rs : List Request} {frame : LoopFrame} {loops : LoopStack}
    (h : rs.foldl (fun loops r => r.onLoops loops) [] = frame :: loops) :
    ∃ before after, rs = before ++ .pushLoop frame :: after ∧ Balanced after ∧
      before.foldl (fun loops r => r.onLoops loops) [] = loops := by
  induction hn : rs.length using Nat.strongRecOn generalizing rs frame loops with
  | ind n ih =>
    rcases rs.eq_nil_or_concat with rfl | ⟨rs, r, rfl⟩
    · cases h
    rw [List.concat_eq_append, List.foldl_append, List.foldl_cons, List.foldl_nil] at h
    rw [List.concat_eq_append] at hn ⊢
    have hlt : rs.length < n := by simp [← hn]
    cases hr : r.isLoop with
    | false =>
      rw [Request.onLoops_of_not_isLoop hr] at h
      obtain ⟨before, after, rfl, hafter, hbefore⟩ := ih _ hlt h rfl
      exact ⟨before, after ++ [r], by simp, hafter.append (.aside hr .nil), hbefore⟩
    | true =>
      cases r with
      | pushLoop frame' =>
        obtain ⟨rfl, rfl⟩ := List.cons.inj h
        exact ⟨rs, [], rfl, .nil, rfl⟩
      | popLoop =>
        -- what is popped was pushed last, and the new top was pushed last before that
        cases hl : rs.foldl (fun loops r => r.onLoops loops) [] with
        | nil =>
          rw [hl] at h
          cases h
        | cons top rest =>
          rw [hl] at h
          obtain rfl : rest = frame :: loops := h
          obtain ⟨mid, inner, rfl, hinner, hmid⟩ := ih _ hlt hl rfl
          have hlt' : mid.length < n := by
            simp only [List.length_append, List.length_cons] at hlt
            omega
          obtain ⟨before, after, rfl, hafter, hbefore⟩ := ih _ hlt' hmid rfl
          refine ⟨before, after ++ (.pushLoop top :: inner ++ [.popLoop]), by simp, ?_, hbefore⟩
          exact hafter.append (.loop hinner .nil)
      | _ => cases hr

namespace Builder

variable {stem : String} {rs : List Request}

theorem loops_head?_serve {frame : LoopFrame} :
    (({ stem := stem } : Builder).serve rs).loops.head? = some frame ↔ LastUnpopped rs frame := by
  rw [loops_serve]
  constructor
  · intro h
    obtain ⟨loops, hl⟩ := List.head?_eq_some_iff.mp h
    obtain ⟨before, after, hrs, hafter, -⟩ := exists_push_of_onLoops hl
    exact ⟨before, after, hrs, hafter⟩
  · rintro ⟨before, after, rfl, hafter⟩
    rw [List.foldl_append, List.foldl_cons, hafter.onLoops]
    rfl

theorem popLoop_eq_ok_iff {b : Builder} {frame : LoopFrame} :
    (∃ b', Build.popLoop b = .ok frame b') ↔ b.loops.head? = some frame := by
  cases hl : b.loops with
  | nil => simp [Build.popLoop, Build.step, Builder.popLoop, hl]
  | cons top loops => simp [Build.popLoop_run hl]

theorem popLoop_eq_error_iff {b b' : Builder} {e : Error} :
    Build.popLoop b = .error e b' ↔
      b.loops.head? = none ∧ e = .unplaced (.noEnclosingLoop "loop exit") ∧ b' = b := by
  cases hl : b.loops with
  | nil => simp [Build.popLoop, Build.step, Builder.popLoop, hl, eq_comm]
  | cons top loops => simp [Build.popLoop_run hl]

/-- The nesting after any requests from the start. The scopes from the current one up to scope 0 are
those that a plain stack holds; scopes are numbered by position, come after their parents and stay as
they are whatever is asked after; a loop is popped exactly if one was pushed and not popped since, and it
is the last such one; and neither of the two depends on what is asked of the other. -/
theorem serve_nesting (stem : String) (rs : List Request) :
    let start : Builder := { stem := stem }
    let b := start.serve rs
    let stack := rs.foldl ScopeStack.after {}
    (∀ is, ScopeTree.Chain b.scopes.scopes b.scopes.current is ↔ is = stack.around) ∧
    b.scopes.scopes.length = stack.count ∧
    (∀ i (s : Scope), b.scopes.scopes[i]? = some s → s.id = i ∧ ∀ p ∈ s.parent, p < i) ∧
    (∀ rs', b.scopes.scopes <+: (b.serve rs').scopes.scopes) ∧
    (∀ frame, (∃ b', Build.popLoop b = .ok frame b') ↔ LastUnpopped rs frame) ∧
    (∀ e b', Build.popLoop b = .error e b' ↔ (¬ ∃ frame, LastUnpopped rs frame) ∧
      e = .unplaced (.noEnclosingLoop "loop exit") ∧ b' = b) ∧
    b.scopes = (start.serve (rs.filter (·.isScope))).scopes ∧
    b.loops = (start.serve (rs.filter (·.isLoop))).loops := by
  intro start b stack
  have hscopes : b.scopes.Holds stack := by
    have := ScopeTree.Holds.init.run rs
    rwa [← scopes_serve start rs] at this
  refine ⟨fun is => ⟨fun h => h.unique hscopes.chain, ?_⟩, hscopes.count, ?_, b.scopes_serve_isPrefix,
    ?_, ?_, start.scopes_serve_filter rs, start.loops_serve_filter rs⟩
  · rintro rfl
    exact hscopes.chain
  · intro i s hs
    exact ⟨hscopes.sound.numbered i s hs, hscopes.sound.parents i s hs⟩
  · intro frame
    exact popLoop_eq_ok_iff.trans loops_head?_serve
  · intro e b'
    have hnone : b.loops.head? = none ↔ ¬ ∃ frame, LastUnpopped rs frame := by
      rw [Option.eq_none_iff_forall_not_mem, not_exists]
      exact forall_congr' fun frame => not_congr loops_head?_serve
    rw [popLoop_eq_error_iff, hnone]

def wayward : List Request :=
  [.popLoop, .exitScope, .enterScope, .pushLoop ⟨3, 1⟩, .enterScope, .pushLoop ⟨6, 4⟩, .exitScope,
    .popLoop, .exitScope, .exitScope, .enterScope]

theorem serve_wayward :
    let b := ({ stem := "L" } : Builder).serve wayward
    ScopeTree.Chain b.scopes.scopes b.scopes.current [3, 0] ∧
    (b.scopes.scopes[2]? = some ⟨2, some 1⟩ ∧ 1 < 2) ∧
    (∃ b', Build.popLoop b = .ok ⟨3, 1⟩ b') ∧
    b.scopes = (({ stem := "L" } : Builder).serve [.exitScope, .enterScope, .enterScope, .exitScope,
      .exitScope, .exitScope, .enterScope]).scopes := by
  obtain ⟨hchain, -, hscopes, -, hpop, -, hapart, -⟩ := serve_nesting "L" wayward
  have hs : (({ stem := "L" } : Builder).serve wayward).scopes.scopes[2]? = some ⟨2, some 1⟩ := by
    decide +kernel
  refine ⟨(hchain _).mpr (by decide), ⟨hs, (hscopes 2 _ hs).2 1 rfl⟩, (hpop _).mpr ?_, hapart⟩
  have hpair : Balanced [.pushLoop ⟨6, 4⟩, .exitScope, .popLoop, .exitScope, .exitScope, .enterScope] :=
    .loop (.aside rfl .nil) (.aside rfl (.aside rfl (.aside rfl .nil)))
  exact ⟨[.popLoop, .exitScope, .enterScope], _, rfl, .aside rfl hpair⟩

end Builder

end FlowGraph

import FlowGraph.Graph.Basic

/-!
Where a builder stands in the nesting of the source: the scope it is in, within the tree of all
scopes opened so far, and the loops around it.
-/

namespace FlowGraph

structure ScopeTree where
  scopes : List Scope := [{ id := 0 }]
  current : ScopeId := 0
  deriving DecidableEq, Inhabited

namespace ScopeTree

def enter (t : ScopeTree) : ScopeTree where
  scopes := t.scopes ++ [⟨t.scopes.length, some t.current⟩]
  current := t.scopes.length

/-- Goes back to the parent of the current scope; the outermost one stays current. -/
def exit (t : ScopeTree) : ScopeTree :=
  { t with current := (t.scopes[t.current]?.bind (·.parent)).getD t.current }

end ScopeTree

structure LoopFrame where
  onBreak : Label
  onContinue : Label
  deriving DecidableEq, Inhabited

abbrev LoopStack := List LoopFrame

end FlowGraph

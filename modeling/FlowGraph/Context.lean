import FlowGraph.Source.PackageId
import FlowGraph.Source.Symbol

/-!
What one compilation shares: the package identities met so far, each stored once, and the symbols.
A narrowed symbol stands for another one under a narrower type; its reference key is the symbol at
the root, so that all narrowings of a symbol have the same key.
-/

namespace FlowGraph

inductive ContextError where
  | unknownSpace (space : Nat)
  | unknownSymbol (symbol : Symbol)
  deriving DecidableEq, Inhabited

def ContextError.message : ContextError → String
  | .unknownSpace space => s!"unknown symbol space {space}"
  | .unknownSymbol symbol => s!"unknown symbol {symbol.text}"

/-- `spaces` holds the names of each symbol space by index, `narrowed` the root of each narrowed
symbol. -/
structure Context where
  packages : List PackageId := [PackageId.anonymous]
  spaces : List (List String) := []
  narrowed : List (Symbol × Symbol) := []
  deriving DecidableEq, Inhabited

namespace Context

def packageCount (c : Context) : Nat := c.packages.length

def package? (c : Context) (r : PackageRef) : Option PackageId := c.packages[r]?

def defaultPackage (_ : Context) : PackageRef := 0

def intern (c : Context) (id : PackageId) : PackageRef × Context :=
  (c.packages.idxOf id,
    if id ∈ c.packages then c else { c with packages := c.packages ++ [id] })

def newSpace (c : Context) : Nat × Context :=
  (c.spaces.length, { c with spaces := c.spaces ++ [[]] })

def symbolName? (c : Context) (s : Symbol) : Option String := do
  let names ← c.spaces[s.space]?
  names[s.index]?

def define (c : Context) (space : Nat) (name : String) : Except ContextError (Symbol × Context) :=
  match c.spaces[space]? with
  | none => .error (.unknownSpace space)
  | some names =>
    .ok (⟨space, names.length⟩, { c with spaces := c.spaces.set space (names ++ [name]) })

/-- The key under which a symbol is bound: the symbol that it narrows, or itself. -/
def refKey (c : Context) (s : Symbol) : Symbol := (c.narrowed.lookup s).getD s

def narrow (c : Context) (base : Symbol) : Except ContextError (Symbol × Context) := do
  let some name := c.symbolName? base | throw (.unknownSymbol base)
  let (s, c) ← c.define base.space name
  return (s, { c with narrowed := (s, c.refKey base) :: c.narrowed })

end Context

end FlowGraph

import FlowGraph.Graph.Terminator
import FlowGraph.Source.Symbol

/-!
The control-flow graph of a function and the lowered package. Locals, blocks and scopes stand in
tables and are referred to by position; in a graph that was built rather than made up, block 0 is
the entry, scope 0 the function itself and local 0 the slot of its result.
-/

namespace FlowGraph

inductive VarKind where
  | declared
  | argument
  | temporary
  | result
  | global
  | self
  | constant
  | synthetic
  deriving DecidableEq, Inhabited

def VarKind.text : VarKind → String
  | .declared => "local"
  | .argument => "arg"
  | .temporary => "temp"
  | .result => "return"
  | .global => "global"
  | .self => "self"
  | .constant => "constant"
  | .synthetic => "synthetic"

inductive Visibility where
  | function
  | global
  deriving DecidableEq, Inhabited

/-- A variable; `declaredName` is the name it had before any renaming. -/
structure Variable where
  name : String
  declaredName : String := name
  kind : VarKind
  visibility : Visibility := .function
  ty : Option Ty := none
  deriving DecidableEq, Inhabited

def Variable.ofName (name : String) (ty : Option Ty) (kind : VarKind) : Variable where
  name := name
  kind := kind
  ty := ty

structure Scope where
  id : ScopeId
  parent : Option ScopeId := none
  deriving DecidableEq, Inhabited

/-- A straight run of instructions. It has no terminator only while it is being built. -/
structure BasicBlock where
  id : Label
  name : String
  instructions : List Instruction := []
  terminator : Option Terminator := none
  deriving DecidableEq, Inhabited

namespace BasicBlock

def empty (stem : String) (id : Label) : BasicBlock := ⟨id, stem ++ toString id, [], none⟩

def isOpen (b : BasicBlock) : Bool := b.terminator.isNone

def successors (b : BasicBlock) : List Label := (b.terminator.map (·.successors)).getD []

end BasicBlock

structure Graph where
  name : String
  declaredName : String := name
  key : String
  span : Span := {}
  returnTy : Option Ty := none
  params : List Slot := []
  resultSlot : Slot := 0
  locals : List Variable := []
  blocks : List BasicBlock := []
  scopes : List Scope := []
  deriving DecidableEq, Inhabited

namespace Graph

def block? (g : Graph) (l : Label) : Option BasicBlock := g.blocks[l]?

def local? (g : Graph) (s : Slot) : Option Variable := g.locals[s]?

def successors (g : Graph) (l : Label) : List Label :=
  ((g.block? l).map (·.successors)).getD []

def addPredecessor (p : Label) (preds : List (List Label)) (l : Label) : List (List Label) :=
  preds.modify l fun ps => if p ∈ ps then ps else ps ++ [p]

def predecessors (g : Graph) : List (List Label) :=
  g.blocks.foldl (fun preds b => (g.successors b.id).foldl (addPredecessor b.id) preds)
    (List.replicate g.blocks.length [])

/-- Replaces the operands of instruction `index` of the block at `position`, or of its terminator if
there is no `index`; `none` if there is no such instruction. -/
def setSources? (g : Graph) (position : Nat) (index : Option Nat) (ops : List Slot) :
    Option (Except ArityError Graph) := do
  let b ← g.blocks[position]?
  let withBlock (b : BasicBlock) : Graph := { g with blocks := g.blocks.set position b }
  match index with
  | some i =>
    let old ← b.instructions[i]?
    return (old.setSources ops).map fun new =>
      withBlock { b with instructions := b.instructions.set i new }
  | none =>
    let old ← b.terminator
    return (old.setSources ops).map fun new => withBlock { b with terminator := some new }

end Graph

structure TypeDecl where
  name : String
  declaredName : String := name
  ty : Ty
  span : Span := {}
  deriving DecidableEq, Inhabited

structure GlobalDecl where
  toVariable : Variable
  span : Span := {}
  deriving DecidableEq, Inhabited

structure ConstDecl where
  name : String
  symbol : Symbol
  ty : Option Ty := none
  value : Literal
  span : Span := {}
  deriving DecidableEq, Inhabited

/-- A lowered package. If a context was used, `refs` tells where it stores the identity of the package
and then those of its imports. -/
structure Module where
  id : PackageId
  imports : List PackageId := []
  refs : List PackageRef := []
  types : List TypeDecl := []
  globals : List GlobalDecl := []
  constants : List ConstDecl := []
  functions : List Graph := []
  entry : Option Nat := none
  deriving DecidableEq, Inhabited

namespace Module

def function? (m : Module) (name : String) : Option Graph := m.functions.find? (·.name == name)

def entryFunction? (m : Module) : Option Graph := m.entry.bind (m.functions[·]?)

end Module

end FlowGraph

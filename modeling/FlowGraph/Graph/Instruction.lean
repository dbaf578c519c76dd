import FlowGraph.Graph.Opcode
import FlowGraph.Source.Literal
import FlowGraph.Source.Span

/-!
Instructions that compute a value and go on. `sources` lists the operands an instruction reads in an
order fixed by its form, and `holes` are the same operands as places to put others in.
-/

namespace FlowGraph

abbrev Slot := Nat

abbrev ScopeId := Nat

inductive Access where
  | mapLoad
  | mapStore
  | arrayLoad
  | arrayStore
  | objectLoad
  | objectStore
  | tableLoad
  | tableStore
  | stringLoad
  | xmlLoad
  | xmlSeqLoad
  | xmlSeqStore
  | xmlAttributeLoad
  | xmlAttributeStore
  deriving DecidableEq, Inhabited

namespace Access

def all : List Access :=
  [.mapLoad, .mapStore, .arrayLoad, .arrayStore, .objectLoad, .objectStore, .tableLoad, .tableStore,
    .stringLoad, .xmlLoad, .xmlSeqLoad, .xmlSeqStore, .xmlAttributeLoad, .xmlAttributeStore]

def opcode : Access → Opcode
  | .mapLoad => .mapLoad
  | .mapStore => .mapStore
  | .arrayLoad => .arrayLoad
  | .arrayStore => .arrayStore
  | .objectLoad => .objectLoad
  | .objectStore => .objectStore
  | .tableLoad => .tableLoad
  | .tableStore => .tableStore
  | .stringLoad => .stringLoad
  | .xmlLoad => .xmlLoad
  | .xmlSeqLoad => .xmlSeqLoad
  | .xmlSeqStore => .xmlSeqStore
  | .xmlAttributeLoad => .xmlAttributeLoad
  | .xmlAttributeStore => .xmlAttributeStore

def isStore : Access → Bool
  | .mapStore | .arrayStore | .objectStore | .tableStore | .xmlSeqStore | .xmlAttributeStore => true
  | _ => false

def ofName? (s : String) : Option Access := all.find? (·.opcode.name == s)

end Access

structure ArityError where
  opcode : Opcode
  expected : Nat
  found : Nat
  deriving DecidableEq, Inhabited

def ArityError.message (e : ArityError) : String :=
  s!"{e.opcode.symbol} takes {e.expected} source operands, got {e.found}"

/-- The places for operands in an `α`: how many there are, and what they make when they are filled. -/
structure Holes (α : Type) where
  count : Nat
  fill : (Fin count → Slot) → α

namespace Holes

variable {α β : Type}

def none (x : α) : Holes α := ⟨0, fun _ => x⟩

def one (f : Slot → α) : Holes α := ⟨1, fun v => f (v 0)⟩

def two (f : Slot → Slot → α) : Holes α := ⟨2, fun v => f (v 0) (v 1)⟩

def many (n : Nat) (f : List Slot → α) : Holes α := ⟨n, fun v => f (List.ofFn v)⟩

def before (f : Slot → α → β) (h : Holes α) : Holes β :=
  ⟨h.count + 1, fun v => f (v 0) (h.fill fun i => v i.succ)⟩

def map (f : α → β) (h : Holes α) : Holes β := ⟨h.count, fun v => f (h.fill v)⟩

def assign (h : Holes α) (opcode : Opcode) (ops : List Slot) : Except ArityError α :=
  if hlen : ops.length = h.count then .ok (h.fill fun i => ops.get (i.cast hlen.symm))
  else .error ⟨opcode, h.count, ops.length⟩

end Holes

inductive MapEntry where
  | pair (key value : Slot)
  | spread (source : Slot)
  deriving DecidableEq, Inhabited

namespace MapEntry

def sources : MapEntry → List Slot
  | .pair key value => [key, value]
  | .spread source => [source]

def holes : List MapEntry → Holes (List MapEntry)
  | [] => .none []
  | .pair _ _ :: entries =>
    ⟨(holes entries).count + 2, fun v => .pair (v 0) (v 1) :: (holes entries).fill fun i => v i.succ.succ⟩
  | .spread _ :: entries => .before (fun source entries => .spread source :: entries) (holes entries)

end MapEntry

/-- What an instruction computes. A load reads `source[key]`; a store writes `source` under `key`
into the destination. -/
inductive Operation where
  | move (source : Slot)
  | load (value : Literal) (ty : Option Ty)
  | newMap (ty : Option Ty) (entries : List MapEntry)
  | newArray (elementTy : Option Ty) (size : Slot) (values : List Slot)
  | newError (ty : Option Ty) (message cause detail : Slot)
  | newObject (className : String)
  | newTypedesc (ty : Ty)
  | access (how : Access) (key source : Slot)
  | cast (source : Slot) (ty : Option Ty)
  | test (source : Slot) (ty : Option Ty) (negated : Bool)
  | isLike (source : Slot) (ty : Option Ty)
  | functionPointer (key : String) (closure : List Slot)
  | binary (op : Opcode) (lhs rhs : Slot)
  | unary (op : Opcode) (source : Slot)
  | platform (name : String) (operands : List Slot)
  deriving DecidableEq, Inhabited

namespace Operation

def opcode : Operation → Opcode
  | .move _ => .move
  | .load _ _ => .constLoad
  | .newMap _ _ => .newStructure
  | .newArray _ _ _ => .newArray
  | .newError _ _ _ _ => .newError
  | .newObject _ => .newInstance
  | .newTypedesc _ => .newTypedesc
  | .access how _ _ => how.opcode
  | .cast _ _ => .typeCast
  | .test _ _ _ => .typeTest
  | .isLike _ _ => .isLike
  | .functionPointer _ _ => .fpLoad
  | .binary op _ _ => op
  | .unary op _ => op
  | .platform _ _ => .platform

def isStore : Operation → Bool
  | .access how _ _ => how.isStore
  | _ => false

def sources : Operation → List Slot
  | .move source | .cast source _ | .test source _ _ | .isLike source _ | .unary _ source => [source]
  | .load _ _ | .newObject _ | .newTypedesc _ => []
  | .newMap _ entries => entries.flatMap MapEntry.sources
  | .newArray _ size values => size :: values
  | .newError _ message cause detail => [message, cause, detail]
  | .access _ key source => [key, source]
  | .functionPointer _ closure => closure
  | .binary _ lhs rhs => [lhs, rhs]
  | .platform _ operands => operands

def holes : Operation → Holes Operation
  | .move _ => .one .move
  | .cast _ ty => .one (.cast · ty)
  | .test _ ty negated => .one (.test · ty negated)
  | .isLike _ ty => .one (.isLike · ty)
  | .unary op _ => .one (.unary op)
  | .load value ty => .none (.load value ty)
  | .newObject className => .none (.newObject className)
  | .newTypedesc ty => .none (.newTypedesc ty)
  | .newMap ty entries => (MapEntry.holes entries).map (.newMap ty)
  | .newArray elementTy _ values => .before (.newArray elementTy) (.many values.length id)
  | .newError ty _ _ _ => ⟨3, fun v => .newError ty (v 0) (v 1) (v 2)⟩
  | .access how _ _ => .two (.access how)
  | .functionPointer key closure => .many closure.length (.functionPointer key)
  | .binary op _ _ => .two (.binary op)
  | .platform name operands => .many operands.length (.platform name)

end Operation

structure Instruction where
  dst : Slot
  op : Operation
  scope : ScopeId := 0
  span : Span := {}
  deriving DecidableEq, Inhabited

namespace Instruction

def opcode (i : Instruction) : Opcode := i.op.opcode

def sources (i : Instruction) : List Slot := i.op.sources

def holes (i : Instruction) : Holes Instruction := i.op.holes.map fun op => { i with op }

def setSources (i : Instruction) (ops : List Slot) : Except ArityError Instruction :=
  i.holes.assign i.opcode ops

end Instruction

end FlowGraph

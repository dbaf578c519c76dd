import FlowGraph.Source.Literal
import FlowGraph.Source.Span
import FlowGraph.Source.Symbol
import FlowGraph.Syntax.Operator

namespace FlowGraph

structure Note where
  ty : Option Ty := none
  span : Span := {}
  deriving DecidableEq, Inhabited

structure TypeDesc where
  ty : Option Ty := none
  span : Span := {}
  deriving DecidableEq, Inhabited

inductive Expr where
  | literal (note : Note) (value : Literal)
  | var (note : Note) (name : Ident) (symbol : Symbol)
  | binary (note : Note) (op : BinOp) (lhs rhs : Expr)
  | unary (note : Note) (op : UnOp) (operand : Expr)
  | call (note : Note) (qualifier : Option Ident) (name : Ident) (args : List Expr)
  | index (note : Note) (container key : Expr)
  | list (note : Note) (elements : List Expr) (elementTy : Option Ty)
  | cast (note : Note) (operand : Expr) (target : TypeDesc)
  | test (note : Note) (operand : Expr) (target : TypeDesc) (negated : Bool)
  | group (note : Note) (inner : Expr)
  | wildcard (note : Note)
  | field (note : Note) (base : Expr) (name : Ident)
  | mapping (note : Note) (fields : List (Ident × Expr))
  | ternary (note : Note) (cond whenTrue whenFalse : Expr)
  deriving Inhabited

namespace Expr

def note : Expr → Note
  | .literal note _ | .var note _ _ | .binary note _ _ _ | .unary note _ _ | .call note _ _ _
  | .index note _ _ | .list note _ _ | .cast note _ _ | .test note _ _ _ | .group note _
  | .wildcard note | .field note _ _ | .mapping note _ | .ternary note _ _ _ => note

def ty (e : Expr) : Option Ty := e.note.ty

def span (e : Expr) : Span := e.note.span

def withNote (note : Note) : Expr → Expr
  | .literal _ value => .literal note value
  | .var _ name symbol => .var note name symbol
  | .binary _ op lhs rhs => .binary note op lhs rhs
  | .unary _ op operand => .unary note op operand
  | .call _ qualifier name args => .call note qualifier name args
  | .index _ container key => .index note container key
  | .list _ elements elementTy => .list note elements elementTy
  | .cast _ operand target => .cast note operand target
  | .test _ operand target negated => .test note operand target negated
  | .group _ inner => .group note inner
  | .wildcard _ => .wildcard note
  | .field _ base name => .field note base name
  | .mapping _ fields => .mapping note fields
  | .ternary _ cond whenTrue whenFalse => .ternary note cond whenTrue whenFalse

/-- The type that the form of an expression gives it, without looking at its own note. -/
def impliedTy : Expr → Option Ty
  | .literal _ value => some value.ty
  | .list _ _ _ => some .list
  | .cast _ _ target => target.ty
  | .test _ _ _ _ => some .boolean
  | .group _ inner => inner.ty
  | _ => none

def describe : Expr → String
  | .literal _ _ => "literal"
  | .var _ _ _ => "variable reference"
  | .binary _ _ _ _ => "binary expression"
  | .unary _ _ _ => "unary expression"
  | .call _ _ _ _ => "invocation"
  | .index _ _ _ => "index access"
  | .list _ _ _ => "list constructor"
  | .cast _ _ _ => "type conversion"
  | .test _ _ _ _ => "type test"
  | .group _ _ => "group expression"
  | .wildcard _ => "wildcard binding pattern"
  | .field _ _ _ => "field access"
  | .mapping _ _ => "mapping constructor"
  | .ternary _ _ _ _ => "ternary expression"

@[simp] theorem note_withNote (note : Note) (e : Expr) : (e.withNote note).note = note := by
  cases e <;> rfl

@[simp] theorem describe_withNote (note : Note) (e : Expr) :
    (e.withNote note).describe = e.describe := by
  cases e <;> rfl

end Expr

end FlowGraph

import FlowGraph.Source.Span

namespace FlowGraph

/-- Why a package cannot be lowered. The last five arise only where a builder is misused or a graph
was not built by one. -/
inductive Cause where
  | unsupportedStatement (construct : String)
  | unsupportedExpression (construct : String)
  | unsupportedOperator (symbol : String)
  | unsupportedTarget (construct : String)
  | unsupportedBody (function reason : String)
  | unsupportedConstant (name : String)
  | unresolvedVariable (name : String)
  | unresolvedImport (aliasName : String)
  | noEnclosingLoop (statement : String)
  | closedBlock (block : String)
  | openBlock (block : String)
  | unknownBlock (number : Nat)
  | malformed (function reason : String)
  deriving DecidableEq, Inhabited

namespace Cause

inductive Category where
  | unsupported
  | unresolved
  | invariant
  deriving DecidableEq, Inhabited

def category : Cause → Category
  | .unsupportedStatement _ | .unsupportedExpression _ | .unsupportedOperator _
  | .unsupportedTarget _ | .unsupportedBody _ _ | .unsupportedConstant _ => .unsupported
  | .unresolvedVariable _ | .unresolvedImport _ => .unresolved
  | .noEnclosingLoop _ | .closedBlock _ | .openBlock _ | .unknownBlock _ | .malformed _ _ =>
    .invariant

def message : Cause → String
  | .unsupportedStatement construct => s!"unsupported statement: {construct}"
  | .unsupportedExpression construct => s!"unsupported expression: {construct}"
  | .unsupportedOperator symbol => s!"unsupported operator `{symbol}`"
  | .unsupportedTarget construct => s!"unsupported assignment target: {construct}"
  | .unsupportedBody function reason => s!"unsupported body for function `{function}`: {reason}"
  | .unsupportedConstant name => s!"constant `{name}` is not initialized with a literal"
  | .unresolvedVariable name => s!"unresolved variable `{name}`"
  | .unresolvedImport aliasName => s!"unresolved import alias `{aliasName}`"
  | .noEnclosingLoop statement => s!"{statement} outside of a loop"
  | .closedBlock block => s!"block {block} already has a terminator"
  | .openBlock block => s!"block {block} has no terminator"
  | .unknownBlock number => s!"no block numbered {number}"
  | .malformed function reason => s!"malformed function `{function}`: {reason}"

end Cause

structure Error where
  cause : Cause
  span : Span := {}
  deriving DecidableEq, Inhabited

namespace Error

def unplaced (cause : Cause) : Error := ⟨cause, {}⟩

def message (e : Error) : String := e.cause.message

def category (e : Error) : Cause.Category := e.cause.category

end Error

end FlowGraph

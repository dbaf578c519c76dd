import FlowGraph.Graph.Opcode
import FlowGraph.Syntax.Operator

namespace FlowGraph

def BinOp.opcode? : BinOp → Option Opcode
  | .add => some .add
  | .sub => some .sub
  | .mul => some .mul
  | .div => some .div
  | .mod => some .mod
  | .equal => some .equal
  | .notEqual => some .notEqual
  | .greaterThan => some .greaterThan
  | .greaterEqual => some .greaterEqual
  | .lessThan => some .lessThan
  | .lessEqual => some .lessEqual
  | .refEqual => some .refEqual
  | .refNotEqual => some .refNotEqual
  | .and => some .and
  | .or => some .or
  | .bitwiseAnd => some .bitwiseAnd
  | .bitwiseOr => some .bitwiseOr
  | .bitwiseXor => some .bitwiseXor
  | .bitwiseLeftShift => some .bitwiseLeftShift
  | .bitwiseRightShift => some .bitwiseRightShift
  | .bitwiseUnsignedRightShift => some .bitwiseUnsignedRightShift
  | .closedRange | .halfOpenRange | .elvis => none

def UnOp.opcode? : UnOp → Option Opcode
  | .not => some .not
  | .negate => some .negate
  | .typeof => some .typeof
  | .plus | .bitwiseComplement => none

end FlowGraph

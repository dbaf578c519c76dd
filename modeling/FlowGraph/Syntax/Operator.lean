namespace FlowGraph

inductive BinOp where
  | add
  | sub
  | mul
  | div
  | mod
  | equal
  | notEqual
  | greaterThan
  | greaterEqual
  | lessThan
  | lessEqual
  | refEqual
  | refNotEqual
  | and
  | or
  | bitwiseAnd
  | bitwiseOr
  | bitwiseXor
  | bitwiseLeftShift
  | bitwiseRightShift
  | bitwiseUnsignedRightShift
  | closedRange
  | halfOpenRange
  | elvis
  deriving DecidableEq, Inhabited

namespace BinOp

def all : List BinOp :=
  [.add, .sub, .mul, .div, .mod, .equal, .notEqual, .greaterThan, .greaterEqual, .lessThan,
    .lessEqual, .refEqual, .refNotEqual, .and, .or, .bitwiseAnd, .bitwiseOr, .bitwiseXor,
    .bitwiseLeftShift, .bitwiseRightShift, .bitwiseUnsignedRightShift, .closedRange,
    .halfOpenRange, .elvis]

def name : BinOp → String
  | .add => "Add"
  | .sub => "Sub"
  | .mul => "Mul"
  | .div => "Div"
  | .mod => "Mod"
  | .equal => "Equal"
  | .notEqual => "NotEqual"
  | .greaterThan => "GreaterThan"
  | .greaterEqual => "GreaterEqual"
  | .lessThan => "LessThan"
  | .lessEqual => "LessEqual"
  | .refEqual => "RefEqual"
  | .refNotEqual => "RefNotEqual"
  | .and => "And"
  | .or => "Or"
  | .bitwiseAnd => "BitwiseAnd"
  | .bitwiseOr => "BitwiseOr"
  | .bitwiseXor => "BitwiseXor"
  | .bitwiseLeftShift => "BitwiseLeftShift"
  | .bitwiseRightShift => "BitwiseRightShift"
  | .bitwiseUnsignedRightShift => "BitwiseUnsignedRightShift"
  | .closedRange => "ClosedRange"
  | .halfOpenRange => "HalfOpenRange"
  | .elvis => "Elvis"

def symbol : BinOp → String
  | .add => "+"
  | .sub => "-"
  | .mul => "*"
  | .div => "/"
  | .mod => "%"
  | .equal => "=="
  | .notEqual => "!="
  | .greaterThan => ">"
  | .greaterEqual => ">="
  | .lessThan => "<"
  | .lessEqual => "<="
  | .refEqual => "==="
  | .refNotEqual => "!=="
  | .and => "&&"
  | .or => "||"
  | .bitwiseAnd => "&"
  | .bitwiseOr => "|"
  | .bitwiseXor => "^"
  | .bitwiseLeftShift => "<<"
  | .bitwiseRightShift => ">>"
  | .bitwiseUnsignedRightShift => ">>>"
  | .closedRange => "..."
  | .halfOpenRange => "..<"
  | .elvis => "?:"

def ofName? (s : String) : Option BinOp := all.find? (·.name == s)

end BinOp

inductive UnOp where
  | not
  | negate
  | plus
  | bitwiseComplement
  | typeof
  deriving DecidableEq, Inhabited

namespace UnOp

def all : List UnOp :=
  [.not, .negate, .plus, .bitwiseComplement, .typeof]

def name : UnOp → String
  | .not => "Not"
  | .negate => "Negate"
  | .plus => "Plus"
  | .bitwiseComplement => "BitwiseComplement"
  | .typeof => "Typeof"

def symbol : UnOp → String
  | .not => "!"
  | .negate => "-"
  | .plus => "+"
  | .bitwiseComplement => "~"
  | .typeof => "typeof"

def ofName? (s : String) : Option UnOp := all.find? (·.name == s)

end UnOp

end FlowGraph

namespace FlowGraph

inductive Ty where
  | nil
  | boolean
  | int
  | float
  | decimal
  | string
  | error
  | any
  | list
  | map
  | array (elem : Ty)
  | named (name : String)
  deriving DecidableEq, Inhabited

namespace Ty

def text : Ty → String
  | .nil => "()"
  | .boolean => "boolean"
  | .int => "int"
  | .float => "float"
  | .decimal => "decimal"
  | .string => "string"
  | .error => "error"
  | .any => "any"
  | .list => "list"
  | .map => "map"
  | .array elem => elem.text ++ "[]"
  | .named name => name

def textOrUnknown : Option Ty → String
  | some ty => ty.text
  | none => "<UNKNOWN>"

end Ty

end FlowGraph

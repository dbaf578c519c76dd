import FlowGraph.Number.Binary64
import FlowGraph.Source.Ty
import FlowGraph.Text.Quoted

namespace FlowGraph

open Number (Binary64)

inductive Literal where
  | nil
  | boolean (value : Bool)
  | int (value : Int64)
  | float (value : Binary64)
  | decimal (text : String)
  | string (text : String)
  deriving DecidableEq, Inhabited

namespace Literal

def ty : Literal → Ty
  | .nil => .nil
  | .boolean _ => .boolean
  | .int _ => .int
  | .float _ => .float
  | .decimal _ => .decimal
  | .string _ => .string

def text : Literal → String
  | .nil => "()"
  | .boolean true => "true"
  | .boolean false => "false"
  | .int value => toString value.toInt
  | .float value => value.text
  | .decimal text => text ++ "d"
  | .string text => Text.quote text

end Literal

end FlowGraph

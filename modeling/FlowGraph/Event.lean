import FlowGraph.Graph.Terminator
import FlowGraph.Text.Quoted

/-!
What lowering reports while it runs. Events are data; their wording is in `message` and `fields`.
-/

namespace FlowGraph

inductive Event where
  | interned (package : PackageId)
  | started (package : PackageId) (imports constants functions : Nat)
  | rebound (aliasName : String) (previous package : PackageId)
  | imported (package : PackageId) (aliasName : Option String)
  | typeSkipped (name : String)
  | blockAdded (block : Label)
  | loopPushed (onBreak onContinue : Label) (depth : Nat)
  | loopPopped (depth : Nat)
  | functionLowered (name key : String) (blocks locals : Nat)
  deriving DecidableEq, Inhabited

namespace Event

inductive Level where
  | trace
  | debug
  | warn
  deriving DecidableEq, Inhabited

def Level.text : Level → String
  | .trace => "TRACE"
  | .debug => "DEBUG"
  | .warn => "WARN"

def level : Event → Level
  | .interned _ | .blockAdded _ | .loopPushed _ _ _ | .loopPopped _ => .trace
  | .started _ _ _ _ | .imported _ _ | .functionLowered _ _ _ _ => .debug
  | .rebound _ _ _ | .typeSkipped _ => .warn

def message : Event → String
  | .interned _ => "interned package identity"
  | .started _ _ _ _ => "generating BIR"
  | .rebound _ _ _ => "import alias rebound, the later import wins"
  | .imported _ _ => "import"
  | .typeSkipped _ => "skipping type definition with no determined type"
  | .blockAdded _ => "new block"
  | .loopPushed _ _ _ => "push loop"
  | .loopPopped _ => "pop loop"
  | .functionLowered _ _ _ _ => "lowered function"

def optionText : Option String → String
  | none => "None"
  | some s => s!"Some({Text.quote s})"

def fields : Event → List (String × String)
  | .interned package => [("package", package.text)]
  | .started package imports constants functions =>
    [("package", package.text), ("imports", toString imports), ("constants", toString constants),
      ("functions", toString functions)]
  | .rebound aliasName previous package =>
    [("alias", aliasName), ("previous", previous.text), ("package", package.text)]
  | .imported package aliasName =>
    [("package", package.text), ("alias", optionText aliasName)]
  | .typeSkipped name => [("name", name)]
  | .blockAdded block => [("block", toString block)]
  | .loopPushed onBreak onContinue depth =>
    [("on_break", s!"BlockId({onBreak})"), ("on_continue", s!"BlockId({onContinue})"),
      ("depth", toString depth)]
  | .loopPopped depth => [("depth", toString depth)]
  | .functionLowered name key blocks locals =>
    [("function", name), ("lookup_key", key), ("blocks", toString blocks),
      ("locals", toString locals)]

end Event

end FlowGraph

import FlowGraph.Graph.Basic

/-!
The printed form of graphs and modules. Slots and blocks are printed by name, so an instruction has
a text only within its graph.
-/

namespace FlowGraph

namespace Graph

def slotName (g : Graph) (s : Slot) : String := ((g.local? s).map (·.name)).getD "?"

def slotNames (g : Graph) (separator : String) (slots : List Slot) : String :=
  separator.intercalate (slots.map g.slotName)

def blockName (g : Graph) (l : Label) : String := ((g.block? l).map (·.name)).getD s!"?{l}"

def entryText (g : Graph) : MapEntry → String
  | .pair key value => s!"{g.slotName key}={g.slotName value}"
  | .spread source => s!"...{g.slotName source}"

def braced (s : String) : String := "\x7b" ++ s ++ "\x7d"

def parenthesized (s : String) : String := "(" ++ s ++ ")"

def operationText (g : Graph) : Operation → String
  | .move source => g.slotName source
  | .load value _ => s!"ConstantLoad {value.text}"
  | .newMap ty entries =>
    s!"newMap {Ty.textOrUnknown ty}" ++ braced (", ".intercalate (entries.map g.entryText))
  | .newArray elementTy size values =>
    s!"newArray {Ty.textOrUnknown elementTy}[{g.slotName size}]" ++ braced (g.slotNames ", " values)
  | .newError ty message cause detail =>
    s!"newError {Ty.textOrUnknown ty}" ++ parenthesized (g.slotNames ", " [message, cause, detail])
  | .newObject className => s!"newObject {className}"
  | .newTypedesc ty => s!"newTypedesc {ty.text}"
  | .access _ key source => s!"{g.slotName source}[{g.slotName key}]"
  | .cast source ty => s!"<{Ty.textOrUnknown ty}>({g.slotName source})"
  | .test source ty negated =>
    g.slotName source ++ (if negated then " !is " else " is ") ++ Ty.textOrUnknown ty
  | .isLike source ty => s!"{g.slotName source} isLike {Ty.textOrUnknown ty}"
  | .functionPointer key closure => s!"fpLoad {key}" ++ parenthesized (g.slotNames "," closure)
  | .binary op lhs rhs => s!"{op.symbol} {g.slotName lhs} {g.slotName rhs}"
  | .unary op source => s!"{op.symbol} {g.slotName source}"
  | .platform name operands => s!"platform {name}" ++ parenthesized (g.slotNames "," operands)

def instructionText (g : Graph) (i : Instruction) : String :=
  match i.op with
  | .access how key source =>
    if how.isStore then s!"{g.slotName i.dst}[{g.slotName key}] = {g.slotName source};"
    else s!"{g.slotName i.dst} = {g.operationText i.op};"
  | op => s!"{g.slotName i.dst} = {g.operationText op};"

def nextText (g : Graph) (next : Label) : String := s!" -> {g.blockName next};"

def transferText (g : Graph) : Transfer → String
  | .goto target => s!"GOTO {g.blockName target};"
  | .ret => "return;"
  | .branch cond whenTrue whenFalse =>
    s!"{g.slotName cond} ? {g.blockName whenTrue} : {g.blockName whenFalse};"
  | .call args callee _ next =>
    callee.name ++ parenthesized (g.slotNames "," args) ++ g.nextText next
  | .asyncCall args callee next =>
    "start " ++ callee.name ++ parenthesized (g.slotNames "," args) ++ g.nextText next
  | .panic error => s!"panic {g.slotName error};"
  | .wait futures next => "wait " ++ g.slotNames "|" futures ++ g.nextText next
  | .waitAll keys futures next =>
    let pairs := keys.zipWith (fun key future => s!"{key}: {g.slotName future}") futures
    "wait " ++ braced (", ".intercalate pairs) ++ g.nextText next
  | .pointerCall pointer args isAsync next =>
    (if isAsync then "start " else "") ++ "fp " ++ g.slotName pointer ++
      parenthesized (g.slotNames "," args) ++ g.nextText next
  | .receive channel _ next => "<- " ++ channel ++ g.nextText next
  | .send channel data _ isSync next =>
    g.slotName data ++ (if isSync then " ->> " else " -> ") ++ channel ++ g.nextText next
  | .flush channels next => "flush " ++ ",".intercalate channels ++ g.nextText next
  | .lock next => "lock" ++ g.nextText next
  | .fieldLock base field next => s!"lock {g.slotName base}.{field}" ++ g.nextText next
  | .unlock next => "unlock" ++ g.nextText next
  | .receiveAny channels _ next => "<- " ++ " | ".intercalate channels ++ g.nextText next
  | .receiveAll receives _ _ next =>
    let pairs := receives.map fun (field, channel) => s!"{field}: {channel}"
    "<- " ++ braced (", ".intercalate pairs) ++ g.nextText next

def terminatorText (g : Graph) : Option Terminator → String
  | none => "<unterminated>"
  | some t => ((t.dst.map fun dst => s!"{g.slotName dst} = ").getD "") ++ g.transferText t.transfer

def blockLines (g : Graph) (b : BasicBlock) : List String :=
  [s!"  {b.name} \x7b"] ++ b.instructions.map (fun i => "    " ++ g.instructionText i) ++
    ["    " ++ g.terminatorText b.terminator, "  \x7d"]

def headLine (g : Graph) : String :=
  let params := g.params.map fun p => Ty.textOrUnknown ((g.local? p).bind (·.ty))
  let arrow := (g.returnTy.map fun ty => " -> " ++ ty.text).getD ""
  g.name ++ parenthesized (",".intercalate params) ++ arrow ++ " \x7b"

def text (g : Graph) : String :=
  "\n".intercalate ([g.headLine] ++ g.blocks.flatMap g.blockLines ++ ["\x7d"])

end Graph

def Module.text (m : Module) : String :=
  let lines :=
    [s!"module {m.id.text};"] ++
    m.imports.map (fun id => s!"import {id.text};") ++
    m.globals.map (fun d => s!"{d.toVariable.name}  {Ty.textOrUnknown d.toVariable.ty};") ++
    m.constants.map (fun c => s!"const {c.name} = {c.value.text};") ++
    m.functions.map Graph.text
  String.join (lines.map (· ++ "\n"))

end FlowGraph

import FlowGraph.Builder.Build
import FlowGraph.Lowering.Env
import FlowGraph.Lowering.Operator
import FlowGraph.Syntax.Expr

/-!
Lowering of expressions. An expression is lowered into an open block; its value ends up in a slot,
and control in the block where later code belongs, which is another one if the expression calls a
function or chooses between two others. A variable is not copied: its value is its own slot.
-/

namespace FlowGraph

/-- The slot of a value and the block where control goes on. -/
structure Placed where
  slot : Slot
  block : Label
  deriving DecidableEq, Inhabited

/-- Loads and stores go through the keys of a mapping if the container is known to be one, and
otherwise by position. -/
def Access.loadFrom (container : Expr) : Access :=
  if container.ty = some .map then .mapLoad else .arrayLoad

@[inherit_doc Access.loadFrom]
def Access.storeInto (container : Expr) : Access :=
  if container.ty = some .map then .mapStore else .arrayStore

namespace Build

def orFail {α : Type} (x : Except Error α) : Build α := step fun b => x.map (·, b)

def requireOpcode (opcode : Option Opcode) (symbol : String) (span : Span) : Build Opcode :=
  match opcode with
  | some code => pure code
  | none => fail (.unsupportedOperator symbol) span

def loadName (l : Label) (name : Ident) : Build Slot :=
  load l (.string name.name) (some .string) name.span

def lowerVar (env : Env) (name : Ident) (symbol : Symbol) (here : Label) : Build Placed := do
  let key := env.refKey symbol
  match ← lookup? key with
  | some slot => return ⟨slot, here⟩
  | none =>
    match env.constant? key with
    | some c => return ⟨← load here c.value c.ty name.span, here⟩
    | none => fail (.unresolvedVariable name.name) name.span

end Build

open Build

mutual

/-- An operator is looked up before its operands are lowered, and a callee before its arguments.
Operands are lowered from left to right, except that a key comes before the container that it is
looked up in; the slot of the result comes last. -/
def lowerExpr (env : Env) : Expr → Label → Build Placed
  | .literal note value, here => return ⟨← load here value note.ty note.span, here⟩
  | .var _ name symbol, here => lowerVar env name symbol here
  | .binary note op lhs rhs, here => do
    let code ← requireOpcode op.opcode? op.symbol note.span
    let left ← lowerExpr env lhs here
    let right ← lowerExpr env rhs left.block
    let slot ← compute right.block note.ty (.binary code left.slot right.slot) note.span
    return ⟨slot, right.block⟩
  | .unary note op operand, here => do
    let code ← requireOpcode op.opcode? op.symbol note.span
    let value ← lowerExpr env operand here
    let slot ← compute value.block note.ty (.unary code value.slot) note.span
    return ⟨slot, value.block⟩
  | .call note qualifier name args, here => do
    let callee ← orFail (env.callee qualifier name)
    let (args, last) ← lowerArgs env args here
    let next ← addBlock
    let slot ← temporary note.ty
    terminate last (some slot) (.call args callee false next) note.span
    return ⟨slot, next⟩
  | .index note container key, here => do
    let key ← lowerExpr env key here
    let base ← lowerExpr env container key.block
    let load := .access (.loadFrom container) key.slot base.slot
    let slot ← compute base.block note.ty load note.span
    return ⟨slot, base.block⟩
  | .list note elements elementTy, here => do
    let (values, last) ← lowerArgs env elements here
    let size ← load last (.int (.ofNat values.length)) (some .int) note.span
    let slot ← compute last (some .list) (.newArray elementTy size values) note.span
    return ⟨slot, last⟩
  | .cast note operand target, here => do
    let value ← lowerExpr env operand here
    let ty := target.ty <|> note.ty
    let slot ← compute value.block ty (.cast value.slot ty) note.span
    return ⟨slot, value.block⟩
  | .test note operand target negated, here => do
    let value ← lowerExpr env operand here
    let test := .test value.slot target.ty negated
    let slot ← compute value.block (some .boolean) test note.span
    return ⟨slot, value.block⟩
  | .group _ inner, here => lowerExpr env inner here
  | .wildcard _, here => return ⟨← temporary none, here⟩
  | .field note base name, here => do
    let base ← lowerExpr env base here
    let key ← loadName base.block name
    let slot ← compute base.block note.ty (.access .mapLoad key base.slot) note.span
    return ⟨slot, base.block⟩
  | .mapping note fields, here => do
    let (entries, last) ← lowerFields env fields here
    let ty := note.ty <|> some .map
    let slot ← compute last ty (.newMap ty entries) note.span
    return ⟨slot, last⟩
  | .ternary note cond whenTrue whenFalse, here => do
    let cond ← lowerExpr env cond here
    let slot ← temporary note.ty
    let trueBlock ← addBlock
    let falseBlock ← addBlock
    terminate cond.block none (.branch cond.slot trueBlock falseBlock) note.span
    let trueValue ← lowerExpr env whenTrue trueBlock
    emit trueValue.block slot (.move trueValue.slot) whenTrue.span
    let falseValue ← lowerExpr env whenFalse falseBlock
    emit falseValue.block slot (.move falseValue.slot) whenFalse.span
    let merge ← addBlock
    goto trueValue.block merge note.span
    goto falseValue.block merge note.span
    return ⟨slot, merge⟩

def lowerArgs (env : Env) : List Expr → Label → Build (List Slot × Label)
  | [], here => return ([], here)
  | e :: es, here => do
    let value ← lowerExpr env e here
    let (slots, last) ← lowerArgs env es value.block
    return (value.slot :: slots, last)

def lowerFields (env : Env) : List (Ident × Expr) → Label → Build (List MapEntry × Label)
  | [], here => return ([], here)
  | (name, e) :: fields, here => do
    let key ← loadName here name
    let value ← lowerExpr env e here
    let (entries, last) ← lowerFields env fields value.block
    return (.pair key value.slot :: entries, last)

end

end FlowGraph

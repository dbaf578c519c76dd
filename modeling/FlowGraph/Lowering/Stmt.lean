import FlowGraph.Lowering.Expr
import FlowGraph.Syntax.Stmt

/-!
Lowering of statements. A statement is lowered into an open block; the result is the block where
control goes on, or none if the statement always leaves: a return, a panic, or a jump of a loop.
Statements after one that leaves are not lowered.
-/

namespace FlowGraph

open Build

def lowerStore (env : Env) (target : Expr) (value : Placed) (span : Span) : Build Label :=
  match target with
  | .var _ name symbol => do
    match ← lookup? (env.refKey symbol) with
    | some slot =>
      emit value.block slot (.move value.slot) span
      return value.block
    | none => fail (.unresolvedVariable name.name) name.span
  | .index _ container key => do
    let base ← lowerExpr env container value.block
    let key ← lowerExpr env key base.block
    emit key.block base.slot (.access (.storeInto container) key.slot value.slot) span
    return key.block
  | .field _ base name => do
    let base ← lowerExpr env base value.block
    let key ← loadName base.block name
    emit base.block base.slot (.access .mapStore key value.slot) span
    return base.block
  | .wildcard _ => do
    let sink ← temporary none
    emit value.block sink (.move value.slot) span
    return value.block
  | other => fail (.unsupportedTarget other.describe) other.span

def lowerResult (value : Placed) (span : Span) : Build Unit := do
  emit value.block 0 (.move value.slot) span
  terminate value.block none .ret span

def lowerJump (statement : String) (target : LoopFrame → Label) (here : Label) (span : Span) :
    Build Unit := do
  match ← loop? with
  | some frame => goto here (target frame) span
  | none => fail (.noEnclosingLoop statement) span

def lowerDefine (env : Env) (var : VarDef) (here : Label) (span : Span) : Build Label := do
  let key := env.refKey var.symbol
  match var.init with
  | none =>
    let _ ← allocateBound var.name.name var.ty .declared key
    return here
  | some init =>
    let value ← lowerExpr env init here
    let slot ← allocateBound var.name.name var.ty .declared key
    emit value.block slot (.move value.slot) span
    return value.block

def gotoFrom (fin : Option Label) (target : Label) (span : Span) : Build Unit :=
  match fin with
  | some l => goto l target span
  | none => pure ()

mutual

def lowerStmt (env : Env) : Stmt → Label → Build (Option Label)
  | .expr _ value, here => return some (← lowerExpr env value here).block
  | .block _ body, here => lowerBlock env body here
  | .ifThen span cond body, here => do
    let cond ← lowerExpr env cond here
    let thenBlock ← addBlock
    let thenEnd ← lowerBlock env body thenBlock
    let merge ← addBlock
    terminate cond.block none (.branch cond.slot thenBlock merge) span
    gotoFrom thenEnd merge span
    return some merge
  | .ifElse span cond body otherwise, here => do
    let cond ← lowerExpr env cond here
    let thenBlock ← addBlock
    let thenEnd ← lowerBlock env body thenBlock
    let elseBlock ← addBlock
    terminate cond.block none (.branch cond.slot thenBlock elseBlock) span
    let elseEnd ← lowerStmt env otherwise elseBlock
    let merge ← addBlock
    gotoFrom elseEnd merge span
    gotoFrom thenEnd merge span
    return some merge
  | .whileLoop span cond body, here => do
    let head ← addBlock
    goto here head span
    let cond ← lowerExpr env cond head
    let bodyBlock ← addBlock
    let exit ← addBlock
    terminate cond.block none (.branch cond.slot bodyBlock exit) span
    pushLoop ⟨exit, head⟩
    let bodyEnd ← lowerBlock env body bodyBlock
    gotoFrom bodyEnd head span
    let _ ← popLoop
    return some exit
  | .ret span none, here => do
    terminate here none .ret span
    return none
  | .ret span (some value), here => do
    lowerResult (← lowerExpr env value here) span
    return none
  | .breakLoop span, here => do
    lowerJump "break" (·.onBreak) here span
    return none
  | .continueLoop span, here => do
    lowerJump "continue" (·.onContinue) here span
    return none
  | .define span var, here => return some (← lowerDefine env var here span)
  | .assign span target value, here => do
    let value ← lowerExpr env value here
    return some (← lowerStore env target value span)
  | .update span op target value ty, here => do
    let value ← lowerExpr env (.binary ⟨ty, span⟩ op target value) here
    return some (← lowerStore env target value span)
  | .panic span error, here => do
    let error ← lowerExpr env error here
    terminate error.block none (.panic error.slot) span
    return none
  | .lock span body, here => do
    let locked ← addBlock
    terminate here none (.lock locked) span
    match ← lowerBlock env body locked with
    | none => return none
    | some last =>
      let next ← addBlock
      terminate last none (.unlock next) span
      return some next
  | s@(.foreach span _ _ _), _ => fail (.unsupportedStatement s.describe) span

def lowerBlock (env : Env) : Block → Label → Build (Option Label)
  | .mk stmts _, here => do
    enterScope
    let last ← lowerStmts env stmts here
    exitScope
    return last

def lowerStmts (env : Env) : List Stmt → Label → Build (Option Label)
  | [], here => return some here
  | s :: stmts, here => do
    match ← lowerStmt env s here with
    | some next => lowerStmts env stmts next
    | none => return none

end

end FlowGraph

import FlowGraph.Lowering.Stmt
import FlowGraph.Syntax.Package

/-!
Lowering of functions. Slot 0 holds the result, the parameters come next, then whatever the body
needs; block 0 is the entry.
-/

namespace FlowGraph

open Build

/-- The body of a function shares the function's scope, and falling off its end returns. -/
def lowerBody (env : Env) (f : FunctionDef) : Build Unit :=
  match f.body with
  | .block body => do
    let entry ← addBlock
    match ← lowerStmts env body.stmts entry with
    | some last => terminate last none .ret body.span
    | none => return
  | .expr value => do
    let entry ← addBlock
    lowerResult (← lowerExpr env value entry) value.span
  | .external =>
    fail (.unsupportedBody f.name.name "external functions have no body to lower") f.span

def lowerParams (env : Env) : List Param → Build (List Slot)
  | [] => return []
  | p :: params => do
    let slot ← allocateBound p.name.name p.ty .argument (env.refKey p.symbol)
    let slots ← lowerParams env params
    return slot :: slots

def lowerFunction (env : Env) (f : FunctionDef) : Build Graph := do
  let key := env.package.functionKey f.name.name
  let resultSlot ← allocate "%0" f.returnTy .result
  let params ← lowerParams env f.params
  lowerBody env f
  let parts ← orFail (← get).finish
  modify (·.report (.functionLowered f.name.name key parts.blocks.length parts.locals.length))
  return { name := f.name.name, key := key, span := f.span, returnTy := f.returnTy,
           params := params, resultSlot := resultSlot, locals := parts.locals,
           blocks := parts.blocks, scopes := parts.scopes }

end FlowGraph

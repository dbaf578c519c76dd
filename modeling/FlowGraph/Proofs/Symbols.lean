import FlowGraph.Lowering.Package

/-!
Sources up to their symbols. Lowering replaces each symbol by its reference key, so it does the same
on a source in which this has been done already.
-/

namespace FlowGraph

open Build

variable {h k : Symbol → Symbol}

mutual

def Expr.mapSymbols (h : Symbol → Symbol) : Expr → Expr
  | .literal note value => .literal note value
  | .var note name symbol => .var note name (h symbol)
  | .binary note op lhs rhs => .binary note op (lhs.mapSymbols h) (rhs.mapSymbols h)
  | .unary note op operand => .unary note op (operand.mapSymbols h)
  | .call note qualifier name args => .call note qualifier name (mapSymbolsArgs h args)
  | .index note container key => .index note (container.mapSymbols h) (key.mapSymbols h)
  | .list note elements elementTy => .list note (mapSymbolsArgs h elements) elementTy
  | .cast note operand target => .cast note (operand.mapSymbols h) target
  | .test note operand target negated => .test note (operand.mapSymbols h) target negated
  | .group note inner => .group note (inner.mapSymbols h)
  | .wildcard note => .wildcard note
  | .field note base name => .field note (base.mapSymbols h) name
  | .mapping note fields => .mapping note (mapSymbolsFields h fields)
  | .ternary note cond whenTrue whenFalse =>
    .ternary note (cond.mapSymbols h) (whenTrue.mapSymbols h) (whenFalse.mapSymbols h)

def Expr.mapSymbolsArgs (h : Symbol → Symbol) : List Expr → List Expr
  | [] => []
  | e :: es => e.mapSymbols h :: mapSymbolsArgs h es

def Expr.mapSymbolsFields (h : Symbol → Symbol) : List (Ident × Expr) → List (Ident × Expr)
  | [] => []
  | (name, e) :: fields => (name, e.mapSymbols h) :: mapSymbolsFields h fields

end

def VarDef.mapSymbols (h : Symbol → Symbol) (var : VarDef) : VarDef :=
  { var with symbol := h var.symbol, init := var.init.map (·.mapSymbols h) }

mutual

def Stmt.mapSymbols (h : Symbol → Symbol) : Stmt → Stmt
  | .expr span value => .expr span (value.mapSymbols h)
  | .block span body => .block span (body.mapSymbols h)
  | .ifThen span cond body => .ifThen span (cond.mapSymbols h) (body.mapSymbols h)
  | .ifElse span cond body otherwise =>
    .ifElse span (cond.mapSymbols h) (body.mapSymbols h) (otherwise.mapSymbols h)
  | .whileLoop span cond body => .whileLoop span (cond.mapSymbols h) (body.mapSymbols h)
  | .ret span value => .ret span (value.map (·.mapSymbols h))
  | .breakLoop span => .breakLoop span
  | .continueLoop span => .continueLoop span
  | .define span var => .define span (var.mapSymbols h)
  | .assign span target value => .assign span (target.mapSymbols h) (value.mapSymbols h)
  | .update span op target value ty => .update span op (target.mapSymbols h) (value.mapSymbols h) ty
  | .panic span error => .panic span (error.mapSymbols h)
  | .lock span body => .lock span (body.mapSymbols h)
  | .foreach span var collection body =>
    .foreach span (var.mapSymbols h) (collection.mapSymbols h) (body.mapSymbols h)

def Block.mapSymbols (h : Symbol → Symbol) : Block → Block
  | .mk stmts span => .mk (Stmt.mapSymbolsList h stmts) span

def Stmt.mapSymbolsList (h : Symbol → Symbol) : List Stmt → List Stmt
  | [] => []
  | s :: stmts => s.mapSymbols h :: Stmt.mapSymbolsList h stmts

end

def Param.mapSymbol (h : Symbol → Symbol) (p : Param) : Param := { p with symbol := h p.symbol }

def Body.mapSymbols (h : Symbol → Symbol) : Body → Body
  | .block body => .block (body.mapSymbols h)
  | .expr value => .expr (value.mapSymbols h)
  | .external => .external

def FunctionDef.mapSymbols (h : Symbol → Symbol) (f : FunctionDef) : FunctionDef :=
  { f with params := f.params.map (·.mapSymbol h), body := f.body.mapSymbols h }

namespace Expr

@[simp] theorem note_mapSymbols (e : Expr) : (e.mapSymbols h).note = e.note := by
  cases e <;> simp only [mapSymbols, note]

@[simp] theorem ty_mapSymbols (e : Expr) : (e.mapSymbols h).ty = e.ty := by
  rw [ty, note_mapSymbols, ty]

@[simp] theorem span_mapSymbols (e : Expr) : (e.mapSymbols h).span = e.span := by
  rw [span, note_mapSymbols, span]

end Expr

section Comp

mutual

theorem Expr.mapSymbols_comp (e : Expr) : (e.mapSymbols h).mapSymbols k = e.mapSymbols (k ∘ h) := by
  match e with
  | .literal .. | .wildcard .. => simp only [Expr.mapSymbols]
  | .var .. => simp only [Expr.mapSymbols, Function.comp]
  | .binary _ _ a b | .index _ a b =>
    simp only [Expr.mapSymbols, a.mapSymbols_comp, b.mapSymbols_comp]
  | .unary _ _ a | .cast _ a _ | .test _ a _ _ | .group _ a | .field _ a _ =>
    simp only [Expr.mapSymbols, a.mapSymbols_comp]
  | .call _ _ _ es | .list _ es _ => simp only [Expr.mapSymbols, Expr.mapSymbolsArgs_comp es]
  | .mapping _ fields => simp only [Expr.mapSymbols, Expr.mapSymbolsFields_comp fields]
  | .ternary _ c a b =>
    simp only [Expr.mapSymbols, c.mapSymbols_comp, a.mapSymbols_comp, b.mapSymbols_comp]

theorem Expr.mapSymbolsArgs_comp (es : List Expr) :
    mapSymbolsArgs k (mapSymbolsArgs h es) = mapSymbolsArgs (k ∘ h) es := by
  match es with
  | [] => simp only [mapSymbolsArgs]
  | e :: es => simp only [mapSymbolsArgs, e.mapSymbols_comp, Expr.mapSymbolsArgs_comp es]

theorem Expr.mapSymbolsFields_comp (fields : List (Ident × Expr)) :
    mapSymbolsFields k (mapSymbolsFields h fields) = mapSymbolsFields (k ∘ h) fields := by
  match fields with
  | [] => simp only [mapSymbolsFields]
  | (_, e) :: fields =>
    simp only [mapSymbolsFields, e.mapSymbols_comp, Expr.mapSymbolsFields_comp fields]

end

theorem VarDef.mapSymbols_comp (var : VarDef) :
    (var.mapSymbols h).mapSymbols k = var.mapSymbols (k ∘ h) := by
  simp only [mapSymbols, Option.map_map, Function.comp_def, Expr.mapSymbols_comp]

mutual

theorem Stmt.mapSymbols_comp (s : Stmt) : (s.mapSymbols h).mapSymbols k = s.mapSymbols (k ∘ h) := by
  match s with
  | .expr .. | .assign .. | .update .. | .panic .. => simp only [Stmt.mapSymbols, Expr.mapSymbols_comp]
  | .breakLoop .. | .continueLoop .. => simp only [Stmt.mapSymbols]
  | .ret _ value => cases value <;> simp [Stmt.mapSymbols, Expr.mapSymbols_comp]
  | .define .. => simp only [Stmt.mapSymbols, VarDef.mapSymbols_comp]
  | .block _ body | .lock _ body => simp only [Stmt.mapSymbols, body.mapSymbols_comp]
  | .ifThen _ _ body | .whileLoop _ _ body =>
    simp only [Stmt.mapSymbols, Expr.mapSymbols_comp, body.mapSymbols_comp]
  | .ifElse _ _ body otherwise =>
    simp only [Stmt.mapSymbols, Expr.mapSymbols_comp, body.mapSymbols_comp, otherwise.mapSymbols_comp]
  | .foreach _ _ _ body =>
    simp only [Stmt.mapSymbols, VarDef.mapSymbols_comp, Expr.mapSymbols_comp, body.mapSymbols_comp]

theorem Block.mapSymbols_comp (body : Block) :
    (body.mapSymbols h).mapSymbols k = body.mapSymbols (k ∘ h) := by
  match body with
  | .mk stmts _ => simp only [Block.mapSymbols, Stmt.mapSymbolsList_comp stmts]

theorem Stmt.mapSymbolsList_comp (stmts : List Stmt) :
    Stmt.mapSymbolsList k (Stmt.mapSymbolsList h stmts) = Stmt.mapSymbolsList (k ∘ h) stmts := by
  match stmts with
  | [] => simp only [Stmt.mapSymbolsList]
  | s :: stmts =>
    simp only [Stmt.mapSymbolsList, s.mapSymbols_comp, Stmt.mapSymbolsList_comp stmts]

end

theorem Body.mapSymbols_comp (body : Body) :
    (body.mapSymbols h).mapSymbols k = body.mapSymbols (k ∘ h) := by
  cases body with
  | block body => simp only [mapSymbols, Block.mapSymbols_comp]
  | expr value => simp only [mapSymbols, Expr.mapSymbols_comp]
  | external => rfl

theorem FunctionDef.mapSymbols_comp (f : FunctionDef) :
    (f.mapSymbols h).mapSymbols k = f.mapSymbols (k ∘ h) := by
  simp [mapSymbols, Body.mapSymbols_comp, Param.mapSymbol]

end Comp

def ConstDecl.forgetSymbol (c : ConstDecl) : ConstDecl := { c with symbol := default }

def Env.keyed (env : Env) : Env :=
  { env with
    refKey := id
    constants := env.constants.map fun x => (x.1, x.2.forgetSymbol) }

theorem Env.constant?_keyed (env : Env) (key : Symbol) :
    env.keyed.constant? key = (env.constant? key).map (·.forgetSymbol) := by
  change (env.constants.map _).lookup key = _
  unfold Env.constant?
  induction env.constants with
  | nil => rfl
  | cons x constants ih =>
    rw [List.map_cons, List.lookup_cons, List.lookup_cons, ih]
    cases key == x.1 <;> rfl

theorem lowerVar_keyed (env : Env) (name : Ident) (symbol : Symbol) (here : Label) :
    lowerVar env.keyed name (env.refKey symbol) here = lowerVar env name symbol here := by
  unfold lowerVar
  change (lookup? (env.refKey symbol) >>= fun _ => _) = _
  simp only [show env.keyed.refKey (env.refKey symbol) = env.refKey symbol from rfl, env.constant?_keyed]
  congr 1
  funext slot
  cases env.constant? (env.refKey symbol) <;> cases slot <;> rfl

mutual

theorem lowerExpr_keyed (env : Env) (e : Expr) (here : Label) :
    lowerExpr env.keyed (e.mapSymbols env.refKey) here = lowerExpr env e here := by
  match e with
  | .literal .. | .wildcard .. => simp only [Expr.mapSymbols, lowerExpr]
  | .var _ name symbol => simp only [Expr.mapSymbols, lowerExpr, lowerVar_keyed]
  | .binary _ _ a b | .index _ a b =>
    simp only [Expr.mapSymbols, lowerExpr, lowerExpr_keyed env a, lowerExpr_keyed env b,
      Access.loadFrom, Expr.ty_mapSymbols]
  | .unary _ _ a | .cast _ a _ | .test _ a _ _ | .group _ a | .field _ a _ =>
    simp only [Expr.mapSymbols, lowerExpr, lowerExpr_keyed env a]
  | .call _ qualifier name es =>
    simp only [Expr.mapSymbols, lowerExpr, lowerArgs_keyed env es]
    rfl
  | .list _ es _ => simp only [Expr.mapSymbols, lowerExpr, lowerArgs_keyed env es]
  | .mapping _ fields => simp only [Expr.mapSymbols, lowerExpr, lowerFields_keyed env fields]
  | .ternary _ c a b =>
    simp only [Expr.mapSymbols, lowerExpr, lowerExpr_keyed env c, lowerExpr_keyed env a,
      lowerExpr_keyed env b, Expr.span_mapSymbols]

theorem lowerArgs_keyed (env : Env) (es : List Expr) (here : Label) :
    lowerArgs env.keyed (Expr.mapSymbolsArgs env.refKey es) here = lowerArgs env es here := by
  match es with
  | [] => simp only [Expr.mapSymbolsArgs, lowerArgs]
  | e :: es =>
    simp only [Expr.mapSymbolsArgs, lowerArgs, lowerExpr_keyed env e, lowerArgs_keyed env es]

theorem lowerFields_keyed (env : Env) (fields : List (Ident × Expr)) (here : Label) :
    lowerFields env.keyed (Expr.mapSymbolsFields env.refKey fields) here =
      lowerFields env fields here := by
  match fields with
  | [] => simp only [Expr.mapSymbolsFields, lowerFields]
  | (_, e) :: fields =>
    simp only [Expr.mapSymbolsFields, lowerFields, lowerExpr_keyed env e, lowerFields_keyed env fields]

end

theorem lowerStore_keyed (env : Env) (target : Expr) (value : Placed) (span : Span) :
    lowerStore env.keyed (target.mapSymbols env.refKey) value span = lowerStore env target value span := by
  cases target with
  | var _ name symbol =>
    simp only [Expr.mapSymbols, lowerStore]
    rfl
  | index _ container key =>
    simp only [Expr.mapSymbols, lowerStore, lowerExpr_keyed, Access.storeInto, Expr.ty_mapSymbols]
  | field _ base name => simp only [Expr.mapSymbols, lowerStore, lowerExpr_keyed]
  | wildcard _ => simp only [Expr.mapSymbols, lowerStore]
  | _ =>
    simp only [Expr.mapSymbols, lowerStore, Expr.describe, Expr.span, Expr.note]

theorem lowerDefine_keyed (env : Env) (var : VarDef) (here : Label) (span : Span) :
    lowerDefine env.keyed (var.mapSymbols env.refKey) here span = lowerDefine env var here span := by
  obtain ⟨name, symbol, ty, init⟩ := var
  cases init with
  | none => rfl
  | some init =>
    simp only [VarDef.mapSymbols, lowerDefine, Option.map_some, lowerExpr_keyed]
    rfl

mutual

theorem lowerStmt_keyed (env : Env) (s : Stmt) (here : Label) :
    lowerStmt env.keyed (s.mapSymbols env.refKey) here = lowerStmt env s here := by
  match s with
  | .expr .. | .panic .. => simp only [Stmt.mapSymbols, lowerStmt, lowerExpr_keyed]
  | .breakLoop .. | .continueLoop .. => simp only [Stmt.mapSymbols, lowerStmt]
  | .ret _ none => simp only [Stmt.mapSymbols, lowerStmt, Option.map_none]
  | .ret _ (some value) => simp only [Stmt.mapSymbols, lowerStmt, Option.map_some, lowerExpr_keyed]
  | .define .. => simp only [Stmt.mapSymbols, lowerStmt, lowerDefine_keyed]
  | .assign .. => simp only [Stmt.mapSymbols, lowerStmt, lowerExpr_keyed, lowerStore_keyed]
  | .update span op target value ty =>
    have hvalue := lowerExpr_keyed env (.binary ⟨ty, span⟩ op target value) here
    rw [Expr.mapSymbols] at hvalue
    simp only [Stmt.mapSymbols, lowerStmt, hvalue, lowerStore_keyed]
  | .block _ body | .lock _ body => simp only [Stmt.mapSymbols, lowerStmt, lowerBlock_keyed env body]
  | .ifThen _ _ body | .whileLoop _ _ body =>
    simp only [Stmt.mapSymbols, lowerStmt, lowerExpr_keyed, lowerBlock_keyed env body]
  | .ifElse _ _ body otherwise =>
    simp only [Stmt.mapSymbols, lowerStmt, lowerExpr_keyed, lowerBlock_keyed env body,
      lowerStmt_keyed env otherwise]
  | .foreach .. => simp only [Stmt.mapSymbols, lowerStmt, Stmt.describe]

theorem lowerBlock_keyed (env : Env) (body : Block) (here : Label) :
    lowerBlock env.keyed (body.mapSymbols env.refKey) here = lowerBlock env body here := by
  match body with
  | .mk stmts _ => simp only [Block.mapSymbols, lowerBlock, lowerStmts_keyed env stmts]

theorem lowerStmts_keyed (env : Env) (stmts : List Stmt) (here : Label) :
    lowerStmts env.keyed (Stmt.mapSymbolsList env.refKey stmts) here = lowerStmts env stmts here := by
  match stmts with
  | [] => simp only [Stmt.mapSymbolsList, lowerStmts]
  | s :: stmts =>
    simp only [Stmt.mapSymbolsList, lowerStmts, lowerStmt_keyed env s, lowerStmts_keyed env stmts]

end

theorem lowerParams_keyed (env : Env) (params : List Param) :
    lowerParams env.keyed (params.map (·.mapSymbol env.refKey)) = lowerParams env params := by
  induction params with
  | nil => rfl
  | cons p params ih =>
    simp only [List.map_cons, lowerParams, ih]
    rfl

theorem lowerBody_keyed (env : Env) (f : FunctionDef) :
    lowerBody env.keyed (f.mapSymbols env.refKey) = lowerBody env f := by
  obtain ⟨name, params, returnTy, body, span⟩ := f
  cases body with
  | block body =>
    obtain ⟨stmts, span⟩ := body
    simp only [FunctionDef.mapSymbols, Body.mapSymbols, lowerBody, Block.mapSymbols, Block.stmts,
      Block.span, lowerStmts_keyed]
  | expr value =>
    simp only [FunctionDef.mapSymbols, Body.mapSymbols, lowerBody, lowerExpr_keyed, Expr.span_mapSymbols]
  | external => rfl

theorem lowerFunction_keyed (env : Env) (f : FunctionDef) :
    lowerFunction env.keyed (f.mapSymbols env.refKey) = lowerFunction env f := by
  have hparams : lowerParams env.keyed (f.mapSymbols env.refKey).params = lowerParams env f.params :=
    lowerParams_keyed env f.params
  unfold lowerFunction
  rw [hparams, lowerBody_keyed]
  rfl

theorem lowerFunctions_keyed (options : Options) (env : Env) (functions : List FunctionDef) :
    lowerFunctions options env.keyed (functions.map (·.mapSymbols env.refKey)) =
      lowerFunctions options env functions := by
  induction functions with
  | nil => rfl
  | cons f functions ih =>
    simp only [List.map_cons, lowerFunctions, lowerChecked, ih, lowerFunction_keyed]

theorem lowerFunctions_congr {env env' : Env} {functions functions' : List FunctionDef}
    (henv : env.keyed = env'.keyed)
    (hfunctions : functions.map (·.mapSymbols env.refKey) = functions'.map (·.mapSymbols env'.refKey))
    (options : Options) :
    lowerFunctions options env functions = lowerFunctions options env' functions' := by
  rw [← lowerFunctions_keyed, ← lowerFunctions_keyed options env', henv, hfunctions]

end FlowGraph

import FlowGraph.Error
import FlowGraph.Lowering.Env
import FlowGraph.Syntax.Package

/-!
A check of the source that builds nothing. It carries the reference keys declared so far, which are
never forgotten at the end of a block, and whether it is within a loop, and it stops at the first
thing that cannot be lowered.
-/

namespace FlowGraph

def BinOp.isSupported : BinOp → Bool
  | .closedRange | .halfOpenRange | .elvis => false
  | _ => true

def UnOp.isSupported : UnOp → Bool
  | .plus | .bitwiseComplement => false
  | _ => true

mutual

/-- Does control never go on behind the statement? Conditionals and loops are not looked into. -/
def Stmt.leaves : Stmt → Bool
  | .ret _ _ | .breakLoop _ | .continueLoop _ | .panic _ _ => true
  | .block _ body | .lock _ body => body.leaves
  | _ => false

def Block.leaves : Block → Bool
  | .mk stmts _ => leavesList stmts

def leavesList : List Stmt → Bool
  | [] => false
  | s :: stmts => s.leaves || leavesList stmts

end

structure Names where
  refKey : Symbol → Symbol
  isConstant : Symbol → Bool
  isAlias : String → Bool

def Names.ofPackage (refKey : Symbol → Symbol) (p : Package) : Names where
  refKey := refKey
  isConstant key := p.constants.any fun c => refKey c.symbol == key
  isAlias a := p.imports.any fun i => i.effectiveAlias? == some a

def require (ok : Bool) (cause : Cause) (span : Span) : Except Error Unit :=
  if ok then .ok () else .error ⟨cause, span⟩

namespace Names

def checkAlias (names : Names) : Option Ident → Except Error Unit
  | none => .ok ()
  | some a => require (a.isEmpty || names.isAlias a.name) (.unresolvedImport a.name) a.span

mutual

def checkExpr (names : Names) (keys : List Symbol) : Expr → Except Error Unit
  | .literal _ _ | .wildcard _ => .ok ()
  | .var _ name symbol =>
    require (names.refKey symbol ∈ keys || names.isConstant (names.refKey symbol))
      (.unresolvedVariable name.name) name.span
  | .binary note op lhs rhs => do
    require op.isSupported (.unsupportedOperator op.symbol) note.span
    names.checkExpr keys lhs
    names.checkExpr keys rhs
  | .unary note op operand => do
    require op.isSupported (.unsupportedOperator op.symbol) note.span
    names.checkExpr keys operand
  | .call _ qualifier _ args => do
    names.checkAlias qualifier
    names.checkExprs keys args
  | .index _ container key => do
    names.checkExpr keys key
    names.checkExpr keys container
  | .list _ elements _ => names.checkExprs keys elements
  | .cast _ inner _ | .test _ inner _ _ | .group _ inner | .field _ inner _ =>
    names.checkExpr keys inner
  | .mapping _ fields => names.checkFields keys fields
  | .ternary _ cond whenTrue whenFalse => do
    names.checkExpr keys cond
    names.checkExpr keys whenTrue
    names.checkExpr keys whenFalse

def checkExprs (names : Names) (keys : List Symbol) : List Expr → Except Error Unit
  | [] => .ok ()
  | e :: es => do
    names.checkExpr keys e
    names.checkExprs keys es

def checkFields (names : Names) (keys : List Symbol) : List (Ident × Expr) → Except Error Unit
  | [] => .ok ()
  | (_, e) :: fields => do
    names.checkExpr keys e
    names.checkFields keys fields

end

def checkTarget (names : Names) (keys : List Symbol) : Expr → Except Error Unit
  | .var _ name symbol =>
    require (names.refKey symbol ∈ keys) (.unresolvedVariable name.name) name.span
  | .index _ container key => do
    names.checkExpr keys container
    names.checkExpr keys key
  | .field _ base _ => names.checkExpr keys base
  | .wildcard _ => .ok ()
  | other => .error ⟨.unsupportedTarget other.describe, other.span⟩

mutual

def checkStmt (names : Names) (inLoop : Bool) (keys : List Symbol) :
    Stmt → Except Error (List Symbol)
  | .expr _ e | .panic _ e | .ret _ (some e) => do
    names.checkExpr keys e
    return keys
  | .ret _ none => return keys
  | .block _ body | .lock _ body => names.checkBlock inLoop keys body
  | .ifThen _ cond body => do
    names.checkExpr keys cond
    names.checkBlock inLoop keys body
  | .ifElse _ cond body otherwise => do
    names.checkExpr keys cond
    let keys ← names.checkBlock inLoop keys body
    names.checkStmt inLoop keys otherwise
  | .whileLoop _ cond body => do
    names.checkExpr keys cond
    names.checkBlock true keys body
  | .breakLoop span => do
    require inLoop (.noEnclosingLoop "break") span
    return keys
  | .continueLoop span => do
    require inLoop (.noEnclosingLoop "continue") span
    return keys
  | .define _ var => do
    match var.init with
    | none => return names.refKey var.symbol :: keys
    | some init =>
      names.checkExpr keys init
      return names.refKey var.symbol :: keys
  | .assign _ target value => do
    names.checkExpr keys value
    names.checkTarget keys target
    return keys
  | .update span op target value _ => do
    require op.isSupported (.unsupportedOperator op.symbol) span
    names.checkExpr keys target
    names.checkExpr keys value
    names.checkTarget keys target
    return keys
  | .foreach span _ _ _ => .error ⟨.unsupportedStatement "foreach statement", span⟩

def checkBlock (names : Names) (inLoop : Bool) (keys : List Symbol) :
    Block → Except Error (List Symbol)
  | .mk stmts _ => names.checkStmts inLoop keys stmts

def checkStmts (names : Names) (inLoop : Bool) (keys : List Symbol) :
    List Stmt → Except Error (List Symbol)
  | [] => return keys
  | s :: stmts => do
    let keys ← names.checkStmt inLoop keys s
    if s.leaves then return keys else names.checkStmts inLoop keys stmts

end

def checkFunction (names : Names) (f : FunctionDef) : Except Error Unit := do
  let keys := (f.params.map fun p => names.refKey p.symbol).reverse
  match f.body with
  | .block body => discard (names.checkStmts false keys body.stmts)
  | .expr value => names.checkExpr keys value
  | .external =>
    .error ⟨.unsupportedBody f.name.name "external functions have no body to lower", f.span⟩

def checkFunctions (names : Names) : List FunctionDef → Except Error Unit
  | [] => .ok ()
  | f :: functions => do
    names.checkFunction f
    names.checkFunctions functions

end Names

def checkConstants : List ConstDef → Except Error Unit
  | [] => .ok ()
  | c :: constants => do
    match c.value with
    | .literal _ _ => checkConstants constants
    | other => .error ⟨.unsupportedConstant c.name.name, other.span⟩

/-- Constants come before functions; `refKey` gives the reference key of a symbol. -/
def Package.check (refKey : Symbol → Symbol) (p : Package) : Except Error Unit := do
  checkConstants p.constants
  (Names.ofPackage refKey p).checkFunctions p.functions

def Cause.isInternal : Cause → Bool
  | .closedBlock _ | .openBlock _ | .unknownBlock _ | .malformed _ _ => true
  | .noEnclosingLoop statement => statement == "loop exit"
  | _ => false

/-- If it fails, then for a reason that lies in the source. -/
def BlamesSource {α : Type} (c : Except Error α) : Prop :=
  ∀ e, c = .error e → e.cause.isInternal = false

namespace BlamesSource

theorem ok {α : Type} (a : α) : BlamesSource (.ok a) := by
  intro e h
  cases h

theorem error {α : Type} {cause : Cause} {span : Span} (h : cause.isInternal = false) :
    BlamesSource (.error ⟨cause, span⟩ : Except Error α) := by
  intro e he
  cases he
  exact h

theorem bind {α β : Type} {c : Except Error α} {k : α → Except Error β} (hc : BlamesSource c)
    (hk : ∀ a, BlamesSource (k a)) : BlamesSource (c >>= k) := by
  cases c with
  | ok a => exact hk a
  | error e =>
    intro e' he
    cases he
    exact hc e rfl

theorem require {ok : Bool} {cause : Cause} {span : Span} (h : cause.isInternal = false) :
    BlamesSource (require ok cause span) := by
  cases ok with
  | true => exact .ok ()
  | false => exact .error h

end BlamesSource

namespace Names

theorem checkStmt_update {names : Names} {inLoop : Bool} {keys : List Symbol} {span : Span}
    {op : BinOp} {target value : Expr} {ty : Option Ty} :
    names.checkStmt inLoop keys (.update span op target value ty) = do
      names.checkExpr keys (.binary ⟨ty, span⟩ op target value)
      names.checkTarget keys target
      return keys := by
  simp only [checkStmt, checkExpr, bind_assoc]

variable (names : Names)

mutual

theorem checkExpr_blames (keys : List Symbol) (e : Expr) : BlamesSource (names.checkExpr keys e) := by
  match e with
  | .literal _ _ | .wildcard _ => exact .ok ()
  | .var _ name symbol => exact .require rfl
  | .binary note op lhs rhs =>
    exact .bind (.require rfl) fun _ => (checkExpr_blames keys lhs).bind fun _ => checkExpr_blames keys rhs
  | .unary note op operand => exact .bind (.require rfl) fun _ => checkExpr_blames keys operand
  | .call _ none _ args => exact .bind (.ok ()) fun _ => checkExprs_blames keys args
  | .call _ (some a) _ args => exact .bind (.require rfl) fun _ => checkExprs_blames keys args
  | .index _ container key =>
    exact (checkExpr_blames keys key).bind fun _ => checkExpr_blames keys container
  | .list _ elements _ => exact checkExprs_blames keys elements
  | .cast _ inner _ | .test _ inner _ _ | .group _ inner | .field _ inner _ =>
    exact checkExpr_blames keys inner
  | .mapping _ fields => exact checkFields_blames keys fields
  | .ternary _ cond whenTrue whenFalse =>
    exact (checkExpr_blames keys cond).bind fun _ =>
      (checkExpr_blames keys whenTrue).bind fun _ => checkExpr_blames keys whenFalse

theorem checkExprs_blames (keys : List Symbol) (es : List Expr) :
    BlamesSource (names.checkExprs keys es) := by
  match es with
  | [] => exact .ok ()
  | e :: es => exact (checkExpr_blames keys e).bind fun _ => checkExprs_blames keys es

theorem checkFields_blames (keys : List Symbol) (fields : List (Ident × Expr)) :
    BlamesSource (names.checkFields keys fields) := by
  match fields with
  | [] => exact .ok ()
  | (_, e) :: fields => exact (checkExpr_blames keys e).bind fun _ => checkFields_blames keys fields

end

theorem checkTarget_blames (keys : List Symbol) (target : Expr) :
    BlamesSource (names.checkTarget keys target) := by
  cases target with
  | var _ name symbol => exact .require rfl
  | index _ container key =>
    exact (names.checkExpr_blames keys container).bind fun _ => names.checkExpr_blames keys key
  | field _ base _ => exact names.checkExpr_blames keys base
  | wildcard => exact .ok ()
  | literal | binary | unary | call | list | cast | test | group | mapping | ternary => exact .error rfl

mutual

theorem checkStmt_blames (inLoop : Bool) (keys : List Symbol) (s : Stmt) :
    BlamesSource (names.checkStmt inLoop keys s) := by
  match s with
  | .expr _ e | .panic _ e | .ret _ (some e) =>
    exact (names.checkExpr_blames keys e).bind fun _ => .ok _
  | .ret _ none => exact .ok _
  | .block _ body | .lock _ body => exact checkBlock_blames inLoop keys body
  | .ifThen _ cond body =>
    exact (names.checkExpr_blames keys cond).bind fun _ => checkBlock_blames inLoop keys body
  | .ifElse _ cond body otherwise =>
    exact (names.checkExpr_blames keys cond).bind fun _ =>
      (checkBlock_blames inLoop keys body).bind fun keys => checkStmt_blames inLoop keys otherwise
  | .whileLoop _ cond body =>
    exact (names.checkExpr_blames keys cond).bind fun _ => checkBlock_blames true keys body
  | .breakLoop _ | .continueLoop _ => exact .bind (.require rfl) fun _ => .ok _
  | .define _ var =>
    rw [checkStmt]
    cases var.init with
    | none => exact .ok _
    | some init => exact (names.checkExpr_blames keys init).bind fun _ => .ok _
  | .assign _ target value =>
    exact (names.checkExpr_blames keys value).bind fun _ =>
      (names.checkTarget_blames keys target).bind fun _ => .ok _
  | .update span op target value ty =>
    rw [checkStmt_update]
    exact (names.checkExpr_blames keys _).bind fun _ =>
      (names.checkTarget_blames keys target).bind fun _ => .ok _
  | .foreach _ _ _ _ => exact .error rfl

theorem checkBlock_blames (inLoop : Bool) (keys : List Symbol) (body : Block) :
    BlamesSource (names.checkBlock inLoop keys body) := by
  match body with
  | .mk stmts _ => exact checkStmts_blames inLoop keys stmts

theorem checkStmts_blames (inLoop : Bool) (keys : List Symbol) (stmts : List Stmt) :
    BlamesSource (names.checkStmts inLoop keys stmts) := by
  match stmts with
  | [] => exact .ok _
  | s :: stmts =>
    refine (checkStmt_blames inLoop keys s).bind fun keys => ?_
    split
    · exact .ok _
    · exact checkStmts_blames inLoop keys stmts

end

theorem checkFunction_blames (f : FunctionDef) : BlamesSource (names.checkFunction f) := by
  unfold checkFunction
  cases f.body with
  | block body => exact (names.checkStmts_blames false _ body.stmts).bind fun _ => .ok _
  | expr value => exact names.checkExpr_blames _ value
  | external => exact .error rfl

theorem checkFunctions_blames (functions : List FunctionDef) :
    BlamesSource (names.checkFunctions functions) := by
  induction functions with
  | nil => exact .ok ()
  | cons f functions ih => exact (names.checkFunction_blames f).bind fun _ => ih

end Names

theorem checkConstants_blames (constants : List ConstDef) : BlamesSource (checkConstants constants) := by
  induction constants with
  | nil => exact .ok ()
  | cons c constants ih =>
    rw [checkConstants]
    split
    · exact ih
    · exact .error rfl

theorem Package.check_blames (refKey : Symbol → Symbol) (p : Package) :
    BlamesSource (p.check refKey) :=
  (checkConstants_blames _).bind fun _ => Names.checkFunctions_blames _ _

end FlowGraph

import FlowGraph.Syntax.Expr

namespace FlowGraph

structure VarDef where
  name : Ident
  symbol : Symbol
  ty : Option Ty := none
  init : Option Expr := none
  deriving Inhabited

mutual

inductive Stmt where
  | expr (span : Span) (value : Expr)
  | block (span : Span) (body : Block)
  | ifThen (span : Span) (cond : Expr) (body : Block)
  | ifElse (span : Span) (cond : Expr) (body : Block) (otherwise : Stmt)
  | whileLoop (span : Span) (cond : Expr) (body : Block)
  | ret (span : Span) (value : Option Expr)
  | breakLoop (span : Span)
  | continueLoop (span : Span)
  | define (span : Span) (var : VarDef)
  | assign (span : Span) (target value : Expr)
  | update (span : Span) (op : BinOp) (target value : Expr) (ty : Option Ty)
  | panic (span : Span) (error : Expr)
  | lock (span : Span) (body : Block)
  | foreach (span : Span) (var : VarDef) (collection : Expr) (body : Block)

inductive Block where
  | mk (stmts : List Stmt) (span : Span)

end

instance : Inhabited Stmt := ⟨.breakLoop {}⟩

instance : Inhabited Block := ⟨.mk [] {}⟩

namespace Block

def stmts : Block → List Stmt
  | .mk stmts _ => stmts

def span : Block → Span
  | .mk _ span => span

end Block

namespace Stmt

def span : Stmt → Span
  | .expr span _ | .block span _ | .ifThen span _ _ | .ifElse span _ _ _ | .whileLoop span _ _
  | .ret span _ | .breakLoop span | .continueLoop span | .define span _ | .assign span _ _
  | .update span _ _ _ _ | .panic span _ | .lock span _ | .foreach span _ _ _ => span

def describe : Stmt → String
  | .expr _ _ => "expression statement"
  | .block _ _ => "block"
  | .ifThen _ _ _ | .ifElse _ _ _ _ => "if statement"
  | .whileLoop _ _ _ => "while statement"
  | .ret _ _ => "return statement"
  | .breakLoop _ => "break statement"
  | .continueLoop _ => "continue statement"
  | .define _ _ => "variable definition"
  | .assign _ _ _ => "assignment"
  | .update _ _ _ _ _ => "compound assignment"
  | .panic _ _ => "panic statement"
  | .lock _ _ => "lock statement"
  | .foreach _ _ _ _ => "foreach statement"

end Stmt

end FlowGraph

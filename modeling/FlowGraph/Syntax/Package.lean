import FlowGraph.Source.PackageId
import FlowGraph.Syntax.Stmt

namespace FlowGraph

structure Import where
  org : Option Ident := none
  comps : List Ident := []
  version : Option Ident := none
  aliasName : Option Ident := none
  span : Span := {}
  deriving DecidableEq, Inhabited

structure TypeDef where
  name : Ident
  ty : Option Ty := none
  span : Span := {}
  deriving DecidableEq, Inhabited

structure GlobalVar where
  name : Ident
  symbol : Symbol
  ty : Option Ty := none
  span : Span := {}
  deriving DecidableEq, Inhabited

structure ConstDef where
  name : Ident
  symbol : Symbol
  ty : Option Ty := none
  value : Expr
  span : Span := {}
  deriving Inhabited

structure Param where
  name : Ident
  symbol : Symbol
  ty : Option Ty := none
  span : Span := {}
  deriving DecidableEq, Inhabited

inductive Body where
  | block (block : Block)
  | expr (value : Expr)
  | external
  deriving Inhabited

structure FunctionDef where
  name : Ident
  params : List Param := []
  returnTy : Option Ty := none
  body : Body
  span : Span := {}
  deriving Inhabited

structure Package where
  id : PackageId
  imports : List Import := []
  types : List TypeDef := []
  globals : List GlobalVar := []
  constants : List ConstDef := []
  functions : List FunctionDef := []
  deriving Inhabited

namespace Import

def given? (part : Option Ident) : Option String :=
  (part.filter (!·.isEmpty)).map (·.name)

def packageId (i : Import) : PackageId :=
  PackageId.ofParts (given? i.org) (i.comps.map (·.name)) (given? i.version)

/-- The alias under which calls reach the package: the one given, or else the last component of
its name. -/
def effectiveAlias? (i : Import) : Option String :=
  given? i.aliasName <|> (i.comps.map (·.name)).getLast?

end Import

end FlowGraph

import FlowGraph.Error
import FlowGraph.Graph.Basic

/-!
What the body of a function can refer to outside itself: constants and imported packages. Symbols
are seen only through their reference keys.
-/

namespace FlowGraph

abbrev ImportTable := List (String × PackageId)

structure Env where
  package : PackageId
  refKey : Symbol → Symbol
  constants : List (Symbol × ConstDecl) := []
  imports : ImportTable := []

inductive CallTarget where
  | current
  | imported (package : PackageId)
  deriving DecidableEq, Inhabited

def CallTarget.package (current : PackageId) : CallTarget → PackageId
  | .current => current
  | .imported package => package

/-- The target of a call: the current package, unless an alias qualifies the call. An empty alias
counts as none. -/
def ImportTable.resolve (imports : ImportTable) : Option Ident → Except Error CallTarget
  | none => .ok .current
  | some a =>
    if a.isEmpty then .ok .current
    else match imports.lookup a.name with
      | some package => .ok (.imported package)
      | none => .error ⟨.unresolvedImport a.name, a.span⟩

namespace Env

def constant? (env : Env) (key : Symbol) : Option ConstDecl := env.constants.lookup key

def callee (env : Env) (qualifier : Option Ident) (name : Ident) : Except Error Callee := do
  let target ← env.imports.resolve qualifier
  return .ofName (target.package env.package) name.name

end Env

end FlowGraph

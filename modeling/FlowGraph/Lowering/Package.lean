import FlowGraph.Context
import FlowGraph.Graph.Defect
import FlowGraph.Lowering.Function

/-!
Lowering of packages. A package is lowered in a session, which keeps the context and what was
reported, also when lowering fails; the first error ends it.
-/

namespace FlowGraph

structure Options where
  entry : String := "main"
  stem : String := "bb"
  verify : Bool := true
  deriving DecidableEq, Inhabited

abbrev Traced := EStateM Error (List Event)

def Traced.ofBuild {α : Type} (stem : String) (x : Build α) : Traced α := fun events =>
  match x.run { stem := stem } with
  | .ok a b => .ok a (events ++ b.trace)
  | .error e b => .error e (events ++ b.trace)

def lowerChecked (options : Options) (env : Env) (f : FunctionDef) : Traced Graph := do
  let g ← Traced.ofBuild options.stem (lowerFunction env f)
  if options.verify then
    match g.verify with
    | .ok _ => return g
    | .error e => throw e
  else return g

def lowerFunctions (options : Options) (env : Env) : List FunctionDef → Traced (List Graph)
  | [] => return []
  | f :: functions => do
    let g ← lowerChecked options env f
    let graphs ← lowerFunctions options env functions
    return g :: graphs

def lowerConstant (c : ConstDef) : Except Error ConstDecl :=
  match c.value with
  | .literal _ value => .ok ⟨c.name.name, c.symbol, c.ty, value, c.span⟩
  | other => .error ⟨.unsupportedConstant c.name.name, other.span⟩

def lowerConstants : List ConstDef → Except Error (List ConstDecl)
  | [] => return []
  | c :: constants => do
    let decl ← lowerConstant c
    let decls ← lowerConstants constants
    return decl :: decls

def constantTable (refKey : Symbol → Symbol) (constants : List ConstDecl) :
    List (Symbol × ConstDecl) :=
  (constants.map fun c => (refKey c.symbol, c)).reverse

def lowerType? (t : TypeDef) : Option TypeDecl :=
  t.ty.map fun ty => { name := t.name.name, ty := ty, span := t.span }

def lowerGlobal (v : GlobalVar) : GlobalDecl :=
  ⟨{ name := v.name.name, kind := .global, visibility := .global, ty := v.ty }, v.span⟩

def entryIndex? (options : Options) (functions : List Graph) : Option Nat :=
  (functions.zipIdx.filter (·.1.name == options.entry)).getLast?.map (·.2)

/-- What is known of a package and its imports before a function is lowered: where the identities are
stored, in order, and what the aliases stand for. -/
structure Preamble where
  refs : List PackageRef := []
  imports : ImportTable := []

structure Session where
  context : Context := {}
  trace : List Event := []
  deriving DecidableEq, Inhabited

namespace Session

def report (s : Session) (events : List Event) : Session := { s with trace := s.trace ++ events }

def intern (s : Session) (id : PackageId) : PackageRef × Session :=
  let news := if id ∈ s.context.packages then [] else [Event.interned id]
  ((s.context.intern id).1, { s with context := (s.context.intern id).2 }.report news)

/-- Takes in an import: its identity is stored, and its alias bound, over an earlier import if need
be. -/
def addImport (s : Session) (known : Preamble) (i : Import) : Session × Preamble :=
  let (ref, s) := s.intern i.packageId
  let refs := known.refs ++ [ref]
  match i.effectiveAlias? with
  | none => (s.report [.imported i.packageId none], { known with refs })
  | some a =>
    let rebound := (known.imports.lookup a).map fun previous => Event.rebound a previous i.packageId
    (s.report (rebound.toList ++ [.imported i.packageId (some a)]),
      ⟨refs, (a, i.packageId) :: known.imports⟩)

def addImports (s : Session) (known : Preamble) (imports : List Import) : Session × Preamble :=
  imports.foldl (fun (s, known) i => s.addImport known i) (s, known)

def start (s : Session) (p : Package) : Session × Preamble :=
  let (ref, s) := s.intern p.id
  let s := s.report [.started p.id p.imports.length p.constants.length p.functions.length]
  let (s, known) := s.addImports ⟨[ref], []⟩ p.imports
  let skipped := (p.types.filter (·.ty.isNone)).map fun t => Event.typeSkipped t.name.name
  (s.report skipped, known)

def lower (s : Session) (options : Options) (p : Package) : Except Error Module × Session :=
  let (s, known) := s.start p
  match lowerConstants p.constants with
  | .error e => (.error e, s)
  | .ok constants =>
    let refKey := s.context.refKey
    let env : Env := ⟨p.id, refKey, constantTable refKey constants, known.imports⟩
    match lowerFunctions options env p.functions [] with
    | .error e events => (.error e, s.report events)
    | .ok functions events =>
      let m : Module :=
        { id := p.id, imports := p.imports.map (·.packageId), refs := known.refs,
          types := p.types.filterMap lowerType?, globals := p.globals.map lowerGlobal,
          constants := constants, functions := functions, entry := entryIndex? options functions }
      (.ok m, s.report events)

end Session

end FlowGraph

import FlowGraph.Syntax.Package

/-!
The data form of syntax trees: records of named parts, lists and scalars. A form of expression or
statement is written by its name alone if it has no parts, and otherwise as a record of one part
under its name.
-/

namespace FlowGraph

open Number (Binary64)

inductive Data where
  | null
  | boolean (value : Bool)
  | number (value : Int)
  | float (value : Binary64)
  | text (value : String)
  | list (items : List Data)
  | record (parts : List (String × Data))
  deriving Inhabited

namespace Data

def form (name : String) (contents : Data) : Data := .record [(name, contents)]

def ofOption {α : Type} (f : α → Data) : Option α → Data
  | none => .null
  | some a => f a

def ofList {α : Type} (f : α → Data) (as : List α) : Data := .list (as.map f)

end Data

def Span.toData (s : Span) : Data := .record [("start", .number s.start), ("end", .number s.stop)]

def Ident.toData (i : Ident) : Data := .record [("value", .text i.name), ("span", i.span.toData)]

def Symbol.toData (s : Symbol) : Data :=
  .record [("space", .number s.space), ("index", .number s.index)]

def PackageId.toData (p : PackageId) : Data :=
  .record [("org_name", .text p.org), ("name_comps", .ofList .text p.comps),
    ("pkg_name", .text p.name), ("version", .text p.version)]

def Ty.toData : Ty → Data
  | .nil => .text "Nil"
  | .boolean => .text "Boolean"
  | .int => .text "Int"
  | .float => .text "Float"
  | .decimal => .text "Decimal"
  | .string => .text "String"
  | .error => .text "Error"
  | .any => .text "Any"
  | .list => .text "List"
  | .map => .text "Map"
  | .array elem => .form "Array" elem.toData
  | .named name => .form "Named" (.text name)

def Literal.toData : Literal → Data
  | .nil => .text "Nil"
  | .boolean value => .form "Boolean" (.boolean value)
  | .int value => .form "Int" (.number value.toInt)
  | .float value => .form "Float" (.float value)
  | .decimal text => .form "Decimal" (.text text)
  | .string text => .form "String" (.text text)

def Data.ofTy (ty : Option Ty) : Data := .ofOption Ty.toData ty

def TypeDesc.toData (t : TypeDesc) : Data := .record [("ty", .ofTy t.ty), ("span", t.span.toData)]

def Note.toData (note : Note) (kind : Data) : Data :=
  .record [("kind", kind), ("ty", .ofTy note.ty), ("span", note.span.toData)]

mutual

def Expr.toData : Expr → Data
  | .literal note value => note.toData (.form "Literal" value.toData)
  | .var note name symbol =>
    note.toData (.form "VarRef" (.record [("name", name.toData), ("symbol", symbol.toData)]))
  | .binary note op lhs rhs =>
    note.toData (.form "Binary" (.record
      [("op", .text op.name), ("lhs", lhs.toData), ("rhs", rhs.toData)]))
  | .unary note op operand =>
    note.toData (.form "Unary" (.record [("op", .text op.name), ("operand", operand.toData)]))
  | .call note qualifier name args =>
    note.toData (.form "Invocation" (.record
      [("pkg_alias", .ofOption Ident.toData qualifier), ("name", name.toData),
        ("args", .list (exprItems args))]))
  | .index note container key =>
    note.toData (.form "IndexAccess" (.record
      [("container", container.toData), ("index", key.toData)]))
  | .list note elements elementTy =>
    note.toData (.form "ListConstructor" (.record
      [("elements", .list (exprItems elements)), ("element_type", .ofTy elementTy)]))
  | .cast note operand target =>
    note.toData (.form "TypeConversion" (.record
      [("expr", operand.toData), ("target", target.toData)]))
  | .test note operand target negated =>
    note.toData (.form "TypeTest" (.record
      [("expr", operand.toData), ("target", target.toData), ("negated", .boolean negated)]))
  | .group note inner => note.toData (.form "Group" inner.toData)
  | .wildcard note => note.toData (.text "WildcardBindingPattern")
  | .field note base name =>
    note.toData (.form "FieldAccess" (.record [("expr", base.toData), ("field", name.toData)]))
  | .mapping note fields =>
    note.toData (.form "MappingConstructor" (.record [("fields", .list (fieldItems fields))]))
  | .ternary note cond whenTrue whenFalse =>
    note.toData (.form "Ternary" (.record
      [("cond", cond.toData), ("then_expr", whenTrue.toData), ("else_expr", whenFalse.toData)]))

def exprItems : List Expr → List Data
  | [] => []
  | e :: es => e.toData :: exprItems es

def fieldItems : List (Ident × Expr) → List Data
  | [] => []
  | (name, e) :: fields => .list [name.toData, e.toData] :: fieldItems fields

end

def VarDef.toData (v : VarDef) : Data :=
  .record [("name", v.name.toData), ("symbol", v.symbol.toData), ("ty", .ofTy v.ty),
    ("init", .ofOption Expr.toData v.init)]

def Data.placed (kind : Data) (span : Span) : Data :=
  .record [("kind", kind), ("span", span.toData)]

mutual

def Stmt.toData : Stmt → Data
  | .expr span value => (Data.form "Expr" value.toData).placed span
  | .block span body => (Data.form "Block" body.toData).placed span
  | .ifThen span cond body =>
    (Data.form "If" (.record
      [("cond", cond.toData), ("then_body", body.toData), ("else_stmt", .null)])).placed span
  | .ifElse span cond body otherwise =>
    (Data.form "If" (.record
      [("cond", cond.toData), ("then_body", body.toData),
        ("else_stmt", otherwise.toData)])).placed span
  | .whileLoop span cond body =>
    (Data.form "While" (.record [("cond", cond.toData), ("body", body.toData)])).placed span
  | .ret span value => (Data.form "Return" (.ofOption Expr.toData value)).placed span
  | .breakLoop span => (Data.text "Break").placed span
  | .continueLoop span => (Data.text "Continue").placed span
  | .define span var => (Data.form "VarDef" var.toData).placed span
  | .assign span target value =>
    (Data.form "Assign" (.record [("target", target.toData), ("value", value.toData)])).placed span
  | .update span op target value ty =>
    (Data.form "CompoundAssign" (.record
      [("op", .text op.name), ("target", target.toData), ("value", value.toData),
        ("ty", .ofTy ty)])).placed span
  | .panic span error => (Data.form "Panic" error.toData).placed span
  | .lock span body => (Data.form "Lock" body.toData).placed span
  | .foreach span var collection body =>
    (Data.form "Foreach" (.record
      [("var", var.toData), ("collection", collection.toData), ("body", body.toData)])).placed span

def Block.toData : Block → Data
  | .mk stmts span => .record [("stmts", .list (stmtItems stmts)), ("span", span.toData)]

def stmtItems : List Stmt → List Data
  | [] => []
  | s :: stmts => s.toData :: stmtItems stmts

end

def Import.toData (i : Import) : Data :=
  .record [("org_name", .ofOption Ident.toData i.org), ("pkg_name_comps", .ofList Ident.toData i.comps),
    ("version", .ofOption Ident.toData i.version), ("alias", .ofOption Ident.toData i.aliasName),
    ("span", i.span.toData)]

def TypeDef.toData (t : TypeDef) : Data :=
  .record [("name", t.name.toData), ("ty", .ofTy t.ty), ("span", t.span.toData)]

def GlobalVar.toData (v : GlobalVar) : Data :=
  .record [("name", v.name.toData), ("symbol", v.symbol.toData), ("ty", .ofTy v.ty),
    ("span", v.span.toData)]

def ConstDef.toData (c : ConstDef) : Data :=
  .record [("name", c.name.toData), ("symbol", c.symbol.toData), ("ty", .ofTy c.ty),
    ("value", c.value.toData), ("span", c.span.toData)]

def Param.toData (p : Param) : Data :=
  .record [("name", p.name.toData), ("symbol", p.symbol.toData), ("ty", .ofTy p.ty),
    ("span", p.span.toData)]

def Body.toData : Body → Data
  | .block body => .form "Block" body.toData
  | .expr value => .form "Expr" value.toData
  | .external => .text "External"

def FunctionDef.toData (f : FunctionDef) : Data :=
  .record [("name", f.name.toData), ("params", .ofList Param.toData f.params),
    ("return_type", .ofTy f.returnTy), ("body", f.body.toData), ("span", f.span.toData)]

def Package.toData (p : Package) : Data :=
  .record [("package_id", p.id.toData), ("imports", .ofList Import.toData p.imports),
    ("type_definitions", .ofList TypeDef.toData p.types),
    ("global_vars", .ofList GlobalVar.toData p.globals),
    ("constants", .ofList ConstDef.toData p.constants),
    ("functions", .ofList FunctionDef.toData p.functions)]

end FlowGraph

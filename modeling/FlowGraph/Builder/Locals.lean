import FlowGraph.Graph.Basic

namespace FlowGraph

/-- The local variables of a function under construction, and the slots that symbols are bound to,
the latest binding first. -/
structure Locals where
  vars : List Variable := []
  bindings : List (Symbol × Slot) := []
  deriving DecidableEq, Inhabited

namespace Locals

def size (t : Locals) : Nat := t.vars.length

def get? (t : Locals) (s : Slot) : Option Variable := t.vars[s]?

def push (t : Locals) (v : Variable) : Locals := { t with vars := t.vars ++ [v] }

def allocate (t : Locals) (name : String) (ty : Option Ty) (kind : VarKind) : Slot × Locals :=
  (t.size, t.push (.ofName name ty kind))

def allocateTemporary (t : Locals) (ty : Option Ty) : Slot × Locals :=
  t.allocate s!"%{t.size}" ty .temporary

def bind (t : Locals) (key : Symbol) (s : Slot) : Locals :=
  { t with bindings := (key, s) :: t.bindings }

def allocateBound (t : Locals) (name : String) (ty : Option Ty) (kind : VarKind) (key : Symbol) :
    Slot × Locals :=
  let (s, t) := t.allocate name ty kind
  (s, t.bind key s)

def lookup? (t : Locals) (key : Symbol) : Option Slot := t.bindings.lookup key

@[simp] theorem vars_push (t : Locals) (v : Variable) : (t.push v).vars = t.vars ++ [v] := rfl

@[simp] theorem bindings_push (t : Locals) (v : Variable) : (t.push v).bindings = t.bindings := rfl

@[simp] theorem vars_bind (t : Locals) (key : Symbol) (s : Slot) : (t.bind key s).vars = t.vars := rfl

@[simp] theorem lookup?_bind (t : Locals) (key k : Symbol) (s : Slot) :
    (t.bind key s).lookup? k = if k = key then some s else t.lookup? k := by
  by_cases h : k = key
  · simp [bind, lookup?, h]
  · simp [bind, lookup?, List.lookup_cons, beq_false_of_ne h, h]

end Locals

end FlowGraph

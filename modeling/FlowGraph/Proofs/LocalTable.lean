import FlowGraph.Proofs.Marks

/-!
The table of local variables. The slot of the result comes first and the parameters next. What follows
are temporaries, each named after its own number, and the variables that the live code defines, in the
order of the source.
-/

namespace FlowGraph

open Builder

def Param.toVariable (p : Param) : Variable := .ofName p.name.name p.ty .argument

def VarDef.toVariable (var : VarDef) : Variable := .ofName var.name.name var.ty .declared

def Stmt.definition? : Stmt → Option VarDef
  | .define _ var => some var
  | _ => none

def FunctionDef.definitions (f : FunctionDef) : List VarDef := f.statements.filterMap Stmt.definition?

theorem FunctionDef.mem_definitions_iff {f : FunctionDef} {var : VarDef} :
    var ∈ f.definitions ↔ ∃ span, f.Live (.stmt (.define span var)) := by
  simp only [definitions, List.mem_filterMap, mem_statements_iff]
  constructor
  · rintro ⟨s, hs, hvar⟩
    cases s with
    | define span var' =>
      obtain rfl := Option.some.inj hvar
      exact ⟨span, hs⟩
    | _ => cases hvar
  · rintro ⟨span, hs⟩
    exact ⟨_, hs, rfl⟩

def Mark.definition? : Mark → Option VarDef
  | .declared var => some var
  | .returned => none

theorem Stmt.mark?_bind_definition? (s : Stmt) : s.mark?.bind Mark.definition? = s.definition? := by
  cases s with
  | ret _ value => cases value <;> rfl
  | _ => rfl

theorem FunctionDef.marks_filterMap (f : FunctionDef) :
    f.marks.filterMap Mark.definition? = f.definitions := by
  cases h : f.body with
  | block body =>
    simp [marks, h, Body.marks, Node.marks, definitions, statements, Body.node?, List.filterMap_filterMap,
      Stmt.mark?_bind_definition?]
  | expr value => simp [marks, h, Body.marks, definitions, statements, Body.node?, Node.statements,
      Mark.definition?]
  | external => simp [marks, h, Body.marks, definitions, statements, Body.node?]

/-- `Tabled start defs vars`: a table goes on from `start` to `vars` with temporaries, each named after its
number, and with the variables of `defs`, in order. -/
inductive Tabled (start : List Variable) : List VarDef → List Variable → Prop
  | refl : Tabled start [] start
  | temporary {defs vars} (ty : Option Ty) :
    Tabled start defs vars → Tabled start defs (vars ++ [.ofName s!"%{vars.length}" ty .temporary])
  | declared {defs vars} (var : VarDef) :
    Tabled start defs vars → Tabled start (defs ++ [var]) (vars ++ [var.toVariable])

namespace Tabled

variable {start vars : List Variable} {defs : List VarDef}

theorem isPrefix (h : Tabled start defs vars) : start <+: vars := by
  induction h with
  | refl => exact List.prefix_rfl
  | temporary _ _ ih | declared _ _ ih => exact ih.trans (List.prefix_append _ _)

theorem getElem? (h : Tabled start defs vars) {i : Slot} {v : Variable} (hv : start[i]? = some v) :
    vars[i]? = some v := by
  obtain ⟨rest, rfl⟩ := h.isPrefix
  rw [List.getElem?_append_left (List.getElem?_eq_some_iff.mp hv).1, hv]

theorem entry (h : Tabled start defs vars) {i : Slot} {v : Variable} (hi : start.length ≤ i)
    (hv : vars[i]? = some v) :
    v = .ofName s!"%{i}" v.ty .temporary ∨ ∃ var ∈ defs, v = var.toVariable := by
  induction h with
  | refl =>
    rw [List.getElem?_eq_none hi] at hv
    cases hv
  | temporary ty _ ih =>
    rcases getElem?_snoc hv with hv | ⟨rfl, rfl⟩
    · exact ih hv
    · exact .inl rfl
  | declared var _ ih =>
    rcases getElem?_snoc hv with hv | ⟨-, rfl⟩
    · exact (ih hv).imp_right fun ⟨var', hvar', heq⟩ => ⟨var', List.mem_append_left _ hvar', heq⟩
    · exact .inr ⟨var, by simp, rfl⟩

theorem filter_declared (h : Tabled start defs vars) :
    vars.filter (·.kind = .declared) = start.filter (·.kind = .declared) ++ defs.map VarDef.toVariable := by
  induction h with
  | refl => simp
  | temporary ty _ ih => simp [ih, Variable.ofName]
  | declared var _ ih => simp [ih, VarDef.toVariable, Variable.ofName]

theorem plain (h : Tabled start defs vars)
    (hv : ∀ v ∈ start, v.visibility = .function ∧ v.declaredName = v.name) :
    ∀ v ∈ vars, v.visibility = .function ∧ v.declaredName = v.name := by
  induction h with
  | refl => exact hv
  | temporary _ _ ih | declared _ _ ih =>
    intro v hmem
    rcases List.mem_append.mp hmem with hmem | hmem
    · exact ih v hmem
    · obtain rfl := List.mem_singleton.mp hmem
      exact ⟨rfl, rfl⟩

end Tabled

theorem Builder.MarkedStep.tabled {start : List Variable} {defs : List VarDef} {m : Option Mark}
    {b b' : Builder} (h : MarkedStep m b b') (ht : Tabled start defs b.locals.vars) :
    Tabled start (defs ++ (m.bind Mark.definition?).toList) b'.locals.vars := by
  cases h with
  | addTemporary => simpa [Locals.size] using ht.temporary _
  | declare => exact ht.declared _
  | turn _ hlocals => simpa [hlocals] using ht
  | result => simpa [Builder.result, Mark.definition?] using ht
  | _ => simpa using ht

theorem Builder.MarkedSteps.tabled {ms : List Mark} {b b' : Builder} (h : MarkedSteps ms b b') :
    Tabled b.locals.vars (ms.filterMap Mark.definition?) b'.locals.vars := by
  induction h with
  | refl => exact .refl
  | @tail ms m _ _ _ _ hstep ih =>
    have hmarks : (ms ++ m.toList).filterMap Mark.definition? =
        ms.filterMap Mark.definition? ++ (m.bind Mark.definition?).toList := by
      cases m with
      | none => simp
      | some m => cases h : m.definition? <;> simp [h]
    rw [hmarks]
    exact hstep.tabled ih

theorem Builder.addParams_vars {refKey : Symbol → Symbol} {params : List Param} {b : Builder} :
    (b.addParams refKey params).locals.vars = b.locals.vars ++ params.map Param.toVariable := by
  induction params generalizing b with
  | nil => exact (List.append_nil _).symm
  | cons p params ih => simp [addParams, ih, Param.toVariable]

theorem Env.enter_vars (env : Env) (stem : String) (f : FunctionDef) :
    (env.enter stem f).locals.vars = .ofName "%0" f.returnTy .result :: f.params.map Param.toVariable :=
  addParams_vars

theorem FunctionRun.tabled {env : Env} {stem : String} {f : FunctionDef} {g : Graph}
    (h : FunctionRun env stem f g) :
    Tabled (.ofName "%0" f.returnTy .result :: f.params.map Param.toVariable) f.definitions g.locals := by
  obtain ⟨b, hbody, rfl⟩ := h
  rw [← env.enter_vars stem f, ← f.marks_filterMap]
  exact (hbody.marked (env.enter_sound stem f)).tabled

/-- The layout of the table of a function that is lowered. All its variables are seen in the function
only, under the names that they were declared with. -/
theorem lowerFunction_locals {env : Env} {stem : String} {f : FunctionDef} {g : Graph} {b : Builder}
    (h : lowerFunction env f { stem := stem } = .ok g b) :
    g.locals[0]? = some (.ofName "%0" f.returnTy .result) ∧
    (∀ i p, f.params[i]? = some p → g.locals[i + 1]? = some (.ofName p.name.name p.ty .argument)) ∧
    g.params = List.range' 1 f.params.length ∧
    (∀ i v, f.params.length < i → g.locals[i]? = some v →
      v.kind = .temporary ∧ v.name = s!"%{i}" ∨ v.kind = .declared) ∧
    g.locals.filter (·.kind = .declared) =
      f.definitions.map (fun var => .ofName var.name.name var.ty .declared) ∧
    (∀ var, var ∈ f.definitions ↔ ∃ span, f.Live (.stmt (.define span var))) ∧
    ∀ v ∈ g.locals, v.visibility = .function ∧ v.declaredName = v.name := by
  have hrun := lowerFunction_run h
  have ht := hrun.tabled
  obtain ⟨b, -, rfl⟩ := hrun
  refine ⟨ht.getElem? rfl, fun i p hp => ht.getElem? ?_, rfl, fun i v hi hv => ?_, ?_,
    fun var => FunctionDef.mem_definitions_iff, ht.plain ?_⟩
  · simp [hp, Param.toVariable]
  · rcases ht.entry (by simpa [Nat.add_one_le_iff] using hi) hv with heq | ⟨var, -, rfl⟩
    · rw [heq]
      exact .inl ⟨rfl, rfl⟩
    · exact .inr rfl
  · have hnone : (f.params.map Param.toVariable).filter (·.kind = .declared) = [] := by
      simp [Param.toVariable, Variable.ofName]
    rw [ht.filter_declared, List.filter_cons, hnone]
    rfl
  · simp [Param.toVariable, Variable.ofName]

def layered : FunctionDef where
  name := ⟨"f", {}⟩
  params := [⟨⟨"a", {}⟩, ⟨0, 0⟩, some .int, {}⟩, ⟨⟨"b", {}⟩, ⟨0, 1⟩, none, {}⟩]
  returnTy := some .int
  body := .block (.mk [
    .define {} ⟨⟨"x", {}⟩, ⟨0, 2⟩, some .int,
      some (.binary {} .add (.var {} ⟨"a", {}⟩ ⟨0, 0⟩) (.literal {} (.int 1)))⟩,
    .ifElse {} (.var {} ⟨"b", {}⟩ ⟨0, 1⟩) (.mk [.define {} ⟨⟨"y", {}⟩, ⟨0, 3⟩, none, none⟩] {})
      (.block {} (.mk [.define {} ⟨⟨"z", {}⟩, ⟨0, 4⟩, some .string, some (.call {} none ⟨"f", {}⟩ [])⟩,
        .ret {} none, .define {} ⟨⟨"w", {}⟩, ⟨0, 5⟩, none, none⟩] {}))] {})

theorem layered_locals : ∃ g b,
    lowerFunction ⟨.anonymous, id, [], []⟩ layered { stem := "bb" } = .ok g b ∧
    g.locals.map (·.name) = ["%0", "a", "b", "%3", "%4", "x", "y", "%7", "z"] ∧ g.params = [1, 2] ∧
    g.locals.filter (·.kind = .declared) = [.ofName "x" (some .int) .declared, .ofName "y" none .declared,
      .ofName "z" (some .string) .declared] := by
  have hlowers : Env.lowersTo ⟨.anonymous, id, [], []⟩ "bb" layered (fun g =>
      g.locals.map (·.name) = ["%0", "a", "b", "%3", "%4", "x", "y", "%7", "z"]) := by
    decide +kernel
  obtain ⟨g, b, hg, htest⟩ := Env.exists_of_lowersTo hlowers
  obtain ⟨-, -, hparams, -, hdeclared, -⟩ := lowerFunction_locals hg
  exact ⟨g, b, hg, of_decide_eq_true htest, hparams, hdeclared⟩

end FlowGraph

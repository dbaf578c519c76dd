import FlowGraph.Lowering.Package
import FlowGraph.Proofs.Soundness
import Mathlib.Data.List.Induction

/-!
What becomes of a package: it is lowered exactly if the check of its source finds nothing, and
otherwise lowering fails with the error the check finds first. Verification never has a say in it,
and none of the errors of a misused builder arises.
-/

namespace FlowGraph

open Build

theorem lowerChecked_eq (options : Options) (env : Env) (f : FunctionDef) :
    lowerChecked options env f = Traced.ofBuild options.stem (lowerFunction env f) := by
  funext events
  cases h : Traced.ofBuild options.stem (lowerFunction env f) events with
  | ok g events' =>
    have hg : g.verify = .ok () := by
      unfold Traced.ofBuild at h
      split at h
      next a b hrun =>
        obtain ⟨rfl, -⟩ : a = g ∧ _ := by simpa using h
        exact (lowerFunction_run hrun).wellFormed.verify
      next => simp at h
    change EStateM.bind _ _ events = _
    simp only [EStateM.bind, h, hg]
    cases options.verify <;> rfl
  | error e events' =>
    change EStateM.bind _ _ events = _
    simp only [EStateM.bind, h]

theorem lowerFunctions_eq_of_stem {options options' : Options} (h : options.stem = options'.stem)
    (env : Env) (functions : List FunctionDef) :
    lowerFunctions options env functions = lowerFunctions options' env functions := by
  induction functions with
  | nil => rfl
  | cons f functions ih => simp only [lowerFunctions, lowerChecked_eq, ih, h]

theorem Traced.ofBuild_agrees {α β : Type} {stem : String} {x : Build α} {c : Except Error β}
    {Q : α → Builder → β → Prop} {events : List Event} (h : Agrees x { stem := stem } c Q) :
    Agrees (Traced.ofBuild stem x) events c fun a _ v => ∃ b, Q a b v := by
  cases c with
  | ok v =>
    obtain ⟨a, b, hx, hq⟩ := h
    exact ⟨a, events ++ b.trace, by simp [Traced.ofBuild, EStateM.run, hx], b, hq⟩
  | error e =>
    obtain ⟨b, hx⟩ := h
    exact ⟨events ++ b.trace, by simp [Traced.ofBuild, EStateM.run, hx]⟩

theorem lowerFunctions_agrees {options : Options} {env : Env} {functions : List FunctionDef}
    {events : List Event} :
    Agrees (lowerFunctions options env functions) events (env.names.checkFunctions functions)
      fun graphs _ _ => List.Forall₂ (FunctionRun env options.stem) functions graphs := by
  induction functions generalizing events with
  | nil => exact ⟨_, _, rfl, .nil⟩
  | cons f functions ih =>
    rw [lowerFunctions, Names.checkFunctions, lowerChecked_eq]
    refine (Traced.ofBuild_agrees lowerFunction_agrees).bind ?_
    rintro g events' _ ⟨-, hrun⟩
    exact ih.andThen fun graphs events'' _ hruns => ⟨_, _, rfl, .cons hrun hruns⟩

theorem lowerConstants_verdict {constants : List ConstDef} :
    (lowerConstants constants).map (fun _ => ()) = checkConstants constants := by
  induction constants with
  | nil => rfl
  | cons c constants ih =>
    rw [lowerConstants, checkConstants, lowerConstant, ← ih]
    cases c.value <;> try rfl
    cases lowerConstants constants <;> rfl

theorem lowerConstants_symbols {constants : List ConstDef} {decls : List ConstDecl}
    (h : lowerConstants constants = .ok decls) :
    decls.map (·.symbol) = constants.map (·.symbol) := by
  induction constants generalizing decls with
  | nil =>
    obtain rfl := Except.ok.inj h
    rfl
  | cons c constants ih =>
    rw [lowerConstants] at h
    cases hc : lowerConstant c with
    | error e => simp [hc, bind, Except.bind] at h
    | ok decl =>
      cases hcs : lowerConstants constants with
      | error e => simp [hc, hcs, bind, Except.bind] at h
      | ok decls' =>
        obtain rfl : decl :: decls' = decls := by
          simpa [hc, hcs, bind, Except.bind, pure, Except.pure] using h
        have hsymbol : decl.symbol = c.symbol := by
          unfold lowerConstant at hc
          grind
        simp [hsymbol, ih hcs]

namespace Context

def internAll (c : Context) : List PackageId → List PackageRef × Context
  | [] => ([], c)
  | id :: ids =>
    let (r, c) := c.intern id
    let (rs, c) := c.internAll ids
    (r :: rs, c)

theorem intern_refKey (c : Context) (id : PackageId) : (c.intern id).2.refKey = c.refKey := by
  simp only [intern]
  split <;> rfl

theorem internAll_refKey (c : Context) (ids : List PackageId) : (c.internAll ids).2.refKey = c.refKey := by
  induction ids generalizing c with
  | nil => rfl
  | cons id ids ih => exact (ih (c.intern id).2).trans (c.intern_refKey id)

theorem internAll_fst_congr {c c' : Context} (h : c.packages = c'.packages) (ids : List PackageId) :
    (c.internAll ids).1 = (c'.internAll ids).1 := by
  induction ids generalizing c c' with
  | nil => rfl
  | cons id ids ih =>
    have hnext : (c.intern id).2.packages = (c'.intern id).2.packages := by
      simp only [intern, h]
      split <;> simp [h]
    simp only [internAll, ih hnext]
    simp only [intern, h]

theorem internAll_concat (c : Context) (ids : List PackageId) (id : PackageId) :
    c.internAll (ids ++ [id]) =
      ((c.internAll ids).1 ++ [((c.internAll ids).2.intern id).1], ((c.internAll ids).2.intern id).2) := by
  induction ids generalizing c with
  | nil => rfl
  | cons first ids ih => simp [internAll, ih]

end Context

namespace Session

theorem lower_verify (s : Session) (options : Options) (p : Package) (verify : Bool) :
    s.lower { options with verify } p = s.lower options p := by
  have h : ∀ env, lowerFunctions { options with verify } env p.functions =
      lowerFunctions options env p.functions :=
    fun env => lowerFunctions_eq_of_stem (by rfl) env _
  simp only [lower, h]
  rfl

theorem addImport_interned (s : Session) (known : Preamble) (i : Import) :
    (s.addImport known i).1.context = (s.context.intern i.packageId).2 ∧
      (s.addImport known i).2.refs = known.refs ++ [(s.context.intern i.packageId).1] := by
  unfold addImport
  cases i.effectiveAlias? <;> exact ⟨rfl, rfl⟩

theorem addImport_lookup (s : Session) (known : Preamble) (i : Import) (a : String) :
    (s.addImport known i).2.imports.lookup a =
      if i.effectiveAlias? = some a then some i.packageId else known.imports.lookup a := by
  unfold addImport
  cases i.effectiveAlias? with
  | none => rfl
  | some b =>
    by_cases hab : a = b
    · simp [hab]
    · simp [List.lookup_cons, beq_false_of_ne hab, Ne.symm hab]

theorem addImports_concat (s : Session) (known : Preamble) (imports : List Import) (i : Import) :
    s.addImports known (imports ++ [i]) =
      (s.addImports known imports).1.addImport (s.addImports known imports).2 i := by
  simp only [addImports, List.foldl_append, List.foldl_cons, List.foldl_nil]

theorem addImports_interned (s : Session) (known : Preamble) (imports : List Import) :
    (s.addImports known imports).1.context = (s.context.internAll (imports.map (·.packageId))).2 ∧
      (s.addImports known imports).2.refs =
        known.refs ++ (s.context.internAll (imports.map (·.packageId))).1 := by
  induction imports using List.reverseRecOn with
  | nil => exact ⟨rfl, (List.append_nil _).symm⟩
  | append_singleton imports i ih =>
    obtain ⟨hcontext, hrefs⟩ :=
      addImport_interned (s.addImports known imports).1 (s.addImports known imports).2 i
    rw [addImports_concat, List.map_append, List.map_singleton, Context.internAll_concat, hcontext, hrefs,
      ih.1, ih.2, List.append_assoc]
    exact ⟨rfl, rfl⟩

theorem addImports_lookup (s : Session) (refs : List PackageRef) (imports : List Import) (a : String) :
    (s.addImports ⟨refs, []⟩ imports).2.imports.lookup a =
      (imports.reverse.find? (·.effectiveAlias? == some a)).map (·.packageId) := by
  induction imports using List.reverseRecOn with
  | nil => rfl
  | append_singleton imports i ih =>
    rw [addImports_concat, addImport_lookup, ih, List.reverse_concat, List.find?_cons]
    by_cases hi : i.effectiveAlias? = some a
    · simp [hi]
    · rw [if_neg hi, beq_false_of_ne hi]

theorem start_interned (s : Session) (p : Package) :
    (s.start p).1.context = (s.context.internAll (p.id :: p.imports.map (·.packageId))).2 ∧
      (s.start p).2.refs = (s.context.internAll (p.id :: p.imports.map (·.packageId))).1 :=
  addImports_interned _ _ p.imports

theorem start_refKey (s : Session) (p : Package) :
    (s.start p).1.context.refKey = s.context.refKey := by
  rw [(s.start_interned p).1, Context.internAll_refKey]

theorem start_isSome (s : Session) (p : Package) (a : String) :
    ((s.start p).2.imports.lookup a).isSome = p.imports.any fun i => i.effectiveAlias? == some a := by
  have hlookup : (s.start p).2.imports.lookup a = _ := addImports_lookup _ _ p.imports a
  rw [hlookup, Option.isSome_map, List.isSome_find?, List.any_reverse]

theorem names_eq_ofPackage (s : Session) (p : Package) {constants : List ConstDecl}
    (h : lowerConstants p.constants = .ok constants) :
    Env.names ⟨p.id, (s.start p).1.context.refKey,
      constantTable (s.start p).1.context.refKey constants, (s.start p).2.imports⟩ =
    Names.ofPackage s.context.refKey p := by
  simp only [Env.names, Names.ofPackage, start_refKey, start_isSome, Names.mk.injEq, and_true, true_and]
  funext key
  have hkeys : constants.map (s.context.refKey ∘ (·.symbol)) =
      p.constants.map (s.context.refKey ∘ (·.symbol)) := by
    simpa using congrArg (List.map s.context.refKey) (lowerConstants_symbols h)
  have hmem : (∃ c ∈ constants, s.context.refKey c.symbol = key) ↔
      ∃ c ∈ p.constants, s.context.refKey c.symbol = key := by
    simpa using congrArg (key ∈ ·) hkeys
  rw [Bool.eq_iff_iff]
  simpa [Env.constant?, constantTable, @eq_comm _ key] using hmem

theorem lower_verdict (s : Session) (options : Options) (p : Package) :
    (s.lower options p).1.map (fun _ => ()) = p.check s.context.refKey := by
  rw [Package.check, ← lowerConstants_verdict]
  simp only [lower]
  cases hc : lowerConstants p.constants with
  | error e => rfl
  | ok constants =>
    have hf := @lowerFunctions_agrees options ⟨p.id, (s.start p).1.context.refKey,
      constantTable (s.start p).1.context.refKey constants, (s.start p).2.imports⟩ p.functions []
    rw [s.names_eq_ofPackage p hc] at hf
    change _ = (Names.ofPackage s.context.refKey p).checkFunctions p.functions
    cases hv : (Names.ofPackage s.context.refKey p).checkFunctions p.functions with
    | ok v =>
      obtain ⟨graphs, events, hrun, -⟩ := hv ▸ hf
      simp only [hrun]
      rfl
    | error e =>
      obtain ⟨events, hrun⟩ := hv ▸ hf
      simp only [hrun]
      rfl

end Session

theorem Session.lower_error_iff {s : Session} {options : Options} {p : Package} {e : Error} :
    (s.lower options p).1 = .error e ↔ p.check s.context.refKey = .error e := by
  rw [← s.lower_verdict options p]
  cases (s.lower options p).1 <;> simp [Except.map]

/-- A package is lowered exactly if the check finds nothing, and fails with the error it finds. -/
theorem Session.lower_iff_check (s : Session) (options : Options) (p : Package) :
    ((∃ m, (s.lower options p).1 = .ok m) ↔ p.check s.context.refKey = .ok ()) ∧
      ∀ e, (s.lower options p).1 = .error e ↔ p.check s.context.refKey = .error e := by
  refine ⟨?_, fun e => lower_error_iff⟩
  rw [← s.lower_verdict options p]
  cases (s.lower options p).1 <;> simp [Except.map]

/-- Lowered functions pass verification, so that asking for it changes nothing, and lowering fails
for reasons of the source only. -/
theorem Session.lower_isSound (s : Session) (options : Options) (p : Package) :
    (∀ (env : Env) (stem : String) (f : FunctionDef) (g : Graph) (b : Builder),
      lowerFunction env f { stem := stem } = .ok g b → g.verify = .ok ()) ∧
    s.lower { options with verify := true } p = s.lower { options with verify := false } p ∧
    ∀ e, (s.lower options p).1 = .error e → e.cause.isInternal = false := by
  refine ⟨fun env stem f g b h => (lowerFunction_run h).wellFormed.verify, ?_, fun e he => ?_⟩
  · rw [s.lower_verify options p true, s.lower_verify options p false]
  · exact p.check_blames _ e (lower_error_iff.mp he)

def leavingLoop : FunctionDef where
  name := ⟨"f", {}⟩
  params := [⟨⟨"x", {}⟩, ⟨0, 0⟩, none, {}⟩]
  body := .block (.mk [.whileLoop {} (.var {} ⟨"x", {}⟩ ⟨0, 0⟩) (.mk [
    .ifElse {} (.ternary {} (.var {} ⟨"x", {}⟩ ⟨0, 0⟩) (.literal {} .nil) (.call {} none ⟨"f", {}⟩ []))
      (.mk [.breakLoop {}] {}) (.lock {} (.mk [.ret {} none] {}))] {})] {})

def strayJump : Package where
  id := .anonymous
  functions := [leavingLoop, ⟨⟨"g", {}⟩, [], none, .block (.mk [.breakLoop {}] {}), {}⟩]

theorem leavingLoop_isSound :
    (∃ g b, lowerFunction ⟨.anonymous, id, [], []⟩ leavingLoop { stem := "bb" } = .ok g b ∧
      g.verify = .ok ()) ∧
    ∃ e, (({} : Session).lower {} strayJump).1 = .error e ∧ e.cause.isInternal = false := by
  have hsound := Session.lower_isSound {} {} strayJump
  constructor
  · obtain ⟨g, b, hg⟩ := @lowerFunction_of_check ⟨.anonymous, id, [], []⟩ leavingLoop "bb" rfl
    exact ⟨g, b, hg, hsound.1 _ _ _ _ _ hg⟩
  · have he := @Session.lower_error_iff {} {} strayJump ⟨.noEnclosingLoop "break", {}⟩
    exact ⟨_, he.mpr rfl, hsound.2.2 _ (he.mpr rfl)⟩

end FlowGraph

import FlowGraph.Proofs.Renaming
import FlowGraph.Proofs.Symbols
import FlowGraph.Proofs.Verdict
import Mathlib.Logic.Relation

/-!
Symbols and their reference keys. In each context that can come about, the key of a symbol is its own
key, and a narrowing has the key of what it narrows. Packages that differ only in their symbols are
lowered alike if their keys differ by an injective renaming.
-/

namespace FlowGraph

namespace Context

def Defined (c : Context) (s : Symbol) : Prop := (c.symbolName? s).isSome

inductive Step : Context → Context → Prop
  | intern (id : PackageId) : Step c (c.intern id).2
  | newSpace : Step c c.newSpace.2
  | define : c.define space name = .ok (s, c') → Step c c'
  | narrow : c.narrow base = .ok (s, c') → Step c c'

abbrev Reachable (c : Context) : Prop := Relation.ReflTransGen Step {} c

/-- `y` comes from `x` by narrowing, any number of times, on the way to this context. -/
inductive Narrows : Context → Symbol → Symbol → Prop
  | refl : Reachable c → Narrows c x x
  | narrow : Narrows c x y → c.narrow y = .ok (z, c') → Narrows c' x z
  | step : Narrows c x y → Step c c' → Narrows c' x y

theorem defined_iff {c : Context} {s : Symbol} :
    c.Defined s ↔ ∃ names, c.spaces[s.space]? = some names ∧ s.index < names.length := by
  unfold Defined symbolName?
  cases c.spaces[s.space]? with
  | none => simp
  | some names => simp

theorem defined_newSpace {c : Context} {s : Symbol} (h : c.Defined s) : c.newSpace.2.Defined s := by
  obtain ⟨names, hnames, hlt⟩ := defined_iff.mp h
  refine defined_iff.mpr ⟨names, ?_, hlt⟩
  exact (List.getElem?_append_left (List.getElem?_eq_some_iff.mp hnames).1).trans hnames

theorem define_spec {c c' : Context} {space : Nat} {name : String} {s : Symbol}
    (h : c.define space name = .ok (s, c')) :
    c'.narrowed = c.narrowed ∧ ¬c.Defined s ∧ c'.Defined s ∧ ∀ t, c.Defined t → c'.Defined t := by
  unfold define at h
  split at h
  next => cases h
  next names hnames =>
    cases h
    have hlt : space < c.spaces.length := (List.getElem?_eq_some_iff.mp hnames).1
    refine ⟨rfl, ?_, ?_, fun t ht => ?_⟩
    · simp [defined_iff, hnames]
    · simp [defined_iff, hlt]
    · obtain ⟨names', hnames', ht⟩ := defined_iff.mp ht
      rw [defined_iff]
      by_cases heq : space = t.space
      · subst heq
        obtain rfl : names = names' := Option.some.inj (hnames.symm.trans hnames')
        refine ⟨names ++ [name], by simp [hlt], ?_⟩
        simpa using Nat.lt_succ_of_lt ht
      · exact ⟨names', by simpa [heq] using hnames', ht⟩

theorem define_of_narrow {c c' : Context} {base s : Symbol} (h : c.narrow base = .ok (s, c')) :
    ∃ name d, c.symbolName? base = some name ∧ c.define base.space name = .ok (s, d) ∧
      c' = { d with narrowed := (s, d.refKey base) :: d.narrowed } := by
  unfold narrow at h
  cases hname : c.symbolName? base with
  | none => simp [hname, throw, throwThe, MonadExceptOf.throw] at h
  | some name =>
    cases hd : c.define base.space name with
    | error e => simp [hname, hd, bind, Except.bind] at h
    | ok r =>
      obtain ⟨s', d⟩ := r
      simp only [hname, hd, bind, Except.bind, pure, Except.pure, Except.ok.injEq, Prod.mk.injEq] at h
      obtain ⟨rfl, rfl⟩ := h
      exact ⟨name, d, rfl, hd, rfl⟩

theorem narrow_spec {c c' : Context} {base s : Symbol} (h : c.narrow base = .ok (s, c')) :
    c.Defined base ∧ ¬c.Defined s ∧ c'.Defined s ∧ (∀ t, c.Defined t → c'.Defined t) ∧
      c'.refKey s = c.refKey base ∧ ∀ t ≠ s, c'.refKey t = c.refKey t := by
  obtain ⟨name, d, hname, hd, rfl⟩ := define_of_narrow h
  obtain ⟨hn, hnew, hs, hkeep⟩ := define_spec hd
  refine ⟨by simp [Defined, hname], hnew, hs, hkeep, ?_, fun t ht => ?_⟩
  · simp [refKey, hn]
  · simp [refKey, List.lookup_cons, beq_false_of_ne ht, hn]

theorem Step.spec {c c' : Context} (h : Step c c') :
    (∀ t, c.Defined t → c'.Defined t) ∧
      (c'.refKey = c.refKey ∨ ∃ base s, c.Defined base ∧ ¬c.Defined s ∧ c'.Defined s ∧
        c'.refKey s = c.refKey base ∧ ∀ t ≠ s, c'.refKey t = c.refKey t) := by
  cases h with
  | intern id =>
    unfold Context.intern
    dsimp only
    split <;> exact ⟨fun _ h => h, .inl rfl⟩
  | newSpace => exact ⟨fun _ => defined_newSpace, .inl rfl⟩
  | define h =>
    obtain ⟨hn, -, -, hkeep⟩ := define_spec h
    exact ⟨hkeep, .inl (by funext t; simp [refKey, hn])⟩
  | narrow h =>
    obtain ⟨hbase, hnew, hs, hkeep, hkey, hother⟩ := narrow_spec h
    exact ⟨hkeep, .inr ⟨_, _, hbase, hnew, hs, hkey, hother⟩⟩

theorem Step.refKey_eq {c c' : Context} (h : Step c c') {t : Symbol} (ht : c.Defined t) :
    c'.refKey t = c.refKey t := by
  obtain ⟨-, heq | ⟨_, s, _, hnew, _, _, hother⟩⟩ := h.spec
  · rw [heq]
  · exact hother t fun hts => hnew (hts ▸ ht)

/-- A symbol is its own key, unless both it and its key have been given out; and a key is its own
key. -/
structure Rooted (c : Context) : Prop where
  defined : ∀ s, c.refKey s = s ∨ c.Defined s ∧ c.Defined (c.refKey s)
  root : ∀ s, c.refKey (c.refKey s) = c.refKey s

theorem Rooted.defined_refKey {c : Context} (h : c.Rooted) {s : Symbol} (hs : c.Defined s) :
    c.Defined (c.refKey s) := by
  rcases h.defined s with heq | ⟨-, hkey⟩
  · rwa [heq]
  · exact hkey

theorem Step.rooted {c c' : Context} (h : Step c c') (hc : c.Rooted) : c'.Rooted := by
  obtain ⟨hkeep, heq | ⟨base, s, hbase, hnew, hs, hkey, hother⟩⟩ := h.spec
  · refine ⟨fun t => ?_, heq ▸ hc.root⟩
    rw [heq]
    exact (hc.defined t).imp_right fun ht => ⟨hkeep _ ht.1, hkeep _ ht.2⟩
  · have hroot : c.Defined (c.refKey base) := hc.defined_refKey hbase
    have hne : ∀ {t}, c.Defined t → t ≠ s := fun ht hts => hnew (hts ▸ ht)
    refine ⟨fun t => ?_, fun t => ?_⟩
    · by_cases ht : t = s
      · subst ht
        exact .inr ⟨hs, hkey ▸ hkeep _ hroot⟩
      · rw [hother t ht]
        exact (hc.defined t).imp_right fun ht => ⟨hkeep _ ht.1, hkeep _ ht.2⟩
    · by_cases ht : t = s
      · rw [ht, hkey, hother _ (hne hroot), hc.root]
      · rw [hother t ht]
        rcases hc.defined t with htt | ⟨-, hd⟩
        · rw [htt, hother t ht, htt]
        · rw [hother _ (hne hd), hc.root]

theorem Reachable.rooted {c : Context} (h : c.Reachable) : c.Rooted := by
  induction h with
  | refl => exact ⟨fun _ => .inl rfl, fun _ => rfl⟩
  | tail _ hstep ih => exact hstep.rooted ih

theorem Narrows.refKey_eq {c : Context} {x y : Symbol} (h : c.Narrows x y) :
    (x = y ∨ c.Defined x ∧ c.Defined y) ∧ c.refKey y = c.refKey x := by
  induction h with
  | refl _ => exact ⟨.inl rfl, rfl⟩
  | step _ hstep ih =>
    obtain ⟨rfl | ⟨hx, hy⟩, hkey⟩ := ih
    · exact ⟨.inl rfl, rfl⟩
    · refine ⟨.inr ⟨hstep.spec.1 _ hx, hstep.spec.1 _ hy⟩, ?_⟩
      rw [hstep.refKey_eq hy, hstep.refKey_eq hx, hkey]
  | narrow _ hnarrow ih =>
    obtain ⟨hxy, hkey⟩ := ih
    obtain ⟨hy, hnew, hz, hkeep, hkeyz, hother⟩ := narrow_spec hnarrow
    have hx := hxy.elim (fun heq => heq ▸ hy) (·.1)
    refine ⟨.inr ⟨hkeep _ hx, hz⟩, ?_⟩
    rw [hkeyz, hkey, hother _ fun hxz => hnew (hxz ▸ hx)]

end Context

def ConstDef.mapSymbols (h : Symbol → Symbol) (c : ConstDef) : ConstDef :=
  { c with symbol := h c.symbol, value := c.value.mapSymbols h }

def ConstDecl.mapSymbol (h : Symbol → Symbol) (c : ConstDecl) : ConstDecl :=
  { c with symbol := h c.symbol }

def Module.forgetSymbols (m : Module) : Module :=
  { m with constants := m.constants.map (·.forgetSymbol) }

def Module.withRefs (refs : List PackageRef) (m : Module) : Module := { m with refs }

namespace Package

def mapBodies (h : Symbol → Symbol) (p : Package) : Package :=
  { p with functions := p.functions.map (·.mapSymbols h) }

/-- Replaces the symbols of constants and in functions, and drops those of globals, which have no
part in lowering. -/
def keyed (h : Symbol → Symbol) (p : Package) : Package :=
  { p.mapBodies h with
    globals := p.globals.map fun v => { v with symbol := default }
    constants := p.constants.map (·.mapSymbols h) }

def env (refKey : Symbol → Symbol) (p : Package) (constants : List ConstDecl) : Env :=
  ⟨p.id, refKey, constantTable refKey constants, (({} : Session).addImports {} p.imports).2.imports⟩

def assemble (p : Package) (options : Options) (constants : List ConstDecl) :
    EStateM.Result Error (List Event) (List Graph) → Except Error Module
  | .error e _ => .error e
  | .ok functions _ =>
    .ok { id := p.id, imports := p.imports.map (·.packageId), types := p.types.filterMap lowerType?,
          globals := p.globals.map lowerGlobal, constants := constants, functions := functions,
          entry := entryIndex? options functions }

def lower (refKey : Symbol → Symbol) (options : Options) (p : Package) : Except Error Module :=
  (lowerConstants p.constants).bind fun constants =>
    p.assemble options constants (lowerFunctions options (p.env refKey constants) p.functions [])

end Package

namespace Session

theorem addImports_table (s s' : Session) (refs refs' : List PackageRef) (imports : List Import) :
    (s.addImports ⟨refs, []⟩ imports).2.imports = (s'.addImports ⟨refs', []⟩ imports).2.imports := by
  induction imports using List.reverseRecOn with
  | nil => rfl
  | append_singleton imports i ih =>
    rw [addImports_concat, addImports_concat]
    unfold addImport
    cases i.effectiveAlias? with
    | none => exact ih
    | some a => exact congrArg (List.cons _) ih

theorem lower_fst (s : Session) (options : Options) (p : Package) :
    (s.lower options p).1 =
      (p.lower s.context.refKey options).map (·.withRefs (s.start p).2.refs) := by
  have htable : (s.start p).2.imports = (({} : Session).addImports {} p.imports).2.imports :=
    addImports_table _ _ _ _ _
  simp only [lower, Package.lower, Package.env, start_refKey, htable]
  cases lowerConstants p.constants with
  | error e => rfl
  | ok constants =>
    dsimp only [Except.bind]
    generalize lowerFunctions options _ p.functions [] = r
    cases r <;> rfl

theorem lower_identities {s : Session} {options : Options} {p : Package} {m : Module}
    (h : (s.lower options p).1 = .ok m) :
    m.id = p.id ∧ m.imports = p.imports.map (·.packageId) ∧ m.refs = (s.start p).2.refs := by
  rw [lower_fst, Package.lower] at h
  cases hc : lowerConstants p.constants with
  | error e => simp [hc, Except.bind, Except.map] at h
  | ok constants =>
    simp only [hc, Except.bind, Package.assemble] at h
    split at h
    next => cases h
    next =>
      obtain rfl := Except.ok.inj h
      exact ⟨rfl, rfl, rfl⟩

theorem start_refs_congr {s s' : Session} {p p' : Package} (h : s.context.packages = s'.context.packages)
    (hid : p.id = p'.id) (himports : p.imports = p'.imports) :
    (s.start p).2.refs = (s'.start p').2.refs := by
  rw [(s.start_interned p).2, (s'.start_interned p').2, hid, himports]
  exact Context.internAll_fst_congr h _

end Session

namespace Package

variable {f g h h' : Symbol → Symbol} {p p' : Package}

theorem lower_rename (hf : Function.Injective f) (options : Options) :
    p.lower (f ∘ h) options = p.lower h options := by
  have henv : ∀ constants, p.env (f ∘ h) constants = (p.env h constants).rename f := by
    intro constants
    simp [env, Env.rename, constantTable, renameKeys]
  simp only [lower, henv, lowerFunctions_rename hf]

theorem lowerConstants_map (constants : List ConstDef) :
    lowerConstants (constants.map (·.mapSymbols h)) =
      (lowerConstants constants).map (List.map (·.mapSymbol h)) := by
  induction constants with
  | nil => rfl
  | cons c constants ih =>
    obtain ⟨name, symbol, ty, value, span⟩ := c
    rw [List.map_cons, lowerConstants, lowerConstants, ih]
    cases value <;> simp only [ConstDef.mapSymbols, lowerConstant, Expr.mapSymbols] <;>
      cases lowerConstants constants <;> rfl

theorem constantTable_keyed (constants : List ConstDecl) :
    (constantTable h constants).map (fun x => (x.1, x.2.forgetSymbol)) =
      ((constants.map (·.mapSymbol h)).map fun c => (c.symbol, c.forgetSymbol)).reverse := by
  simp [constantTable, ConstDecl.mapSymbol, ConstDecl.forgetSymbol]

theorem forgetSymbol_map (constants : List ConstDecl) :
    (constants.map (·.mapSymbol h)).map (·.forgetSymbol) = constants.map (·.forgetSymbol) := by
  simp [ConstDecl.mapSymbol, ConstDecl.forgetSymbol]

theorem globals_map (globals : List GlobalVar) :
    (globals.map fun v => { v with symbol := default }).map lowerGlobal = globals.map lowerGlobal := by
  simp [lowerGlobal]

theorem lower_congr (hp : p.keyed h = p'.keyed h') (options : Options) :
    (p.lower h options).map (·.forgetSymbols) = (p'.lower h' options).map (·.forgetSymbols) := by
  obtain ⟨id, imports, types, globals, constants, functions⟩ := p
  obtain ⟨id', imports', types', globals', constants', functions'⟩ := p'
  simp only [keyed, mapBodies, mk.injEq] at hp
  obtain ⟨rfl, rfl, rfl, hglobals, hconstants, hfunctions⟩ := hp
  replace hglobals := congrArg (List.map lowerGlobal) hglobals
  rw [globals_map, globals_map] at hglobals
  replace hconstants := congrArg lowerConstants hconstants
  rw [lowerConstants_map, lowerConstants_map] at hconstants
  simp only [lower]
  cases hc : lowerConstants constants with
  | error e =>
    cases hc' : lowerConstants constants' with
    | error e' => simpa [hc, hc', Except.map, Except.bind] using hconstants
    | ok decls' => simp [hc, hc', Except.map] at hconstants
  | ok decls =>
    cases hc' : lowerConstants constants' with
    | error e' => simp [hc, hc', Except.map] at hconstants
    | ok decls' =>
      have hdecls : decls.map (·.mapSymbol h) = decls'.map (·.mapSymbol h') := by
        simpa [hc, hc', Except.map] using hconstants
      have hforget : decls.map (·.forgetSymbol) = decls'.map (·.forgetSymbol) := by
        rw [← forgetSymbol_map, hdecls, forgetSymbol_map]
      have henv : (env h ⟨id, imports, types, globals, constants, functions⟩ decls).keyed =
          (env h' ⟨id, imports, types, globals', constants', functions'⟩ decls').keyed := by
        simp only [env, Env.keyed, constantTable_keyed, hdecls]
      have hgraphs := lowerFunctions_congr henv hfunctions options
      simp only [Except.bind, hgraphs]
      cases lowerFunctions options _ functions' [] with
      | error e events => rfl
      | ok graphs events => simp only [assemble, Except.map, Module.forgetSymbols, hforget, hglobals]

theorem lower_mapBodies (hg : h ∘ g = h) (options : Options) :
    (p.mapBodies g).lower h options = p.lower h options := by
  have hfunctions : (p.functions.map (·.mapSymbols g)).map (·.mapSymbols h) =
      p.functions.map (·.mapSymbols h) := by
    rw [List.map_map]
    apply List.map_congr_left
    intro fn _
    rw [Function.comp_apply, FunctionDef.mapSymbols_comp, hg]
  have hgraphs : ∀ constants, lowerFunctions options ((p.mapBodies g).env h constants)
      (p.mapBodies g).functions = lowerFunctions options (p.env h constants) p.functions :=
    fun constants => lowerFunctions_congr (by rfl) hfunctions options
  simp only [lower, hgraphs]
  rfl

end Package

theorem Context.Narrows.lookup? {c : Context} {x y : Symbol} (h : c.Narrows x y) {b : Builder}
    {slot : Slot} (hx : b.locals.lookup? (c.refKey x) = some slot) :
    Build.lookup? (c.refKey y) b = .ok (some slot) b := by
  rw [← h.refKey_eq.2] at hx
  change EStateM.Result.ok _ _ = _
  rw [hx]

/-- Lowering sees symbols only through their keys: renaming keys injectively changes nothing but the
symbols of constants, and so does putting each symbol's key in its place. Another session may store
identities elsewhere, unless it has stored the same before. A narrowing of a variable is read from and
written to the slot of that variable. -/
theorem Session.lower_keyed (s : Session) (options : Options) (p : Package) :
    (∀ (s' : Session) (p' : Package) (f : Symbol → Symbol), Function.Injective f →
      p'.keyed s'.context.refKey = p.keyed (f ∘ s.context.refKey) →
      (s'.lower options p').1.map (·.forgetSymbols.withRefs []) =
        (s.lower options p).1.map (·.forgetSymbols.withRefs []) ∧
      (s'.context.packages = s.context.packages →
        (s'.lower options p').1.map (·.forgetSymbols) = (s.lower options p).1.map (·.forgetSymbols))) ∧
    (s.context.Reachable →
      (s.lower options (p.mapBodies s.context.refKey)).1 = (s.lower options p).1 ∧
      ∀ (env : Env) (b : Builder) (x y : Symbol) (slot : Slot), env.refKey = s.context.refKey →
        s.context.Narrows x y → b.locals.lookup? (env.refKey x) = some slot →
        ∀ (note : Note) (name : Ident),
          (∀ here, lowerExpr env (.var note name y) here b = .ok ⟨slot, here⟩ b) ∧
          ∀ (value : Placed) (span : Span), lowerStore env (.var note name y) value span b =
            (Build.emit value.block slot (.move value.slot) span >>= fun _ => pure value.block) b) := by
  constructor
  · intro s' p' f hf hkeyed
    have hlower : (p'.lower s'.context.refKey options).map (·.forgetSymbols) =
        (p.lower s.context.refKey options).map (·.forgetSymbols) := by
      rw [Package.lower_congr hkeyed, Package.lower_rename hf]
    have hmap : ∀ (x : Except Error Module) refs,
        (x.map (·.withRefs refs)).map (·.forgetSymbols) =
          (x.map (·.forgetSymbols)).map (·.withRefs refs) := by
      intro x _
      cases x <;> rfl
    have hforget : ∀ (x : Except Error Module) refs,
        (x.map (·.withRefs refs)).map (·.forgetSymbols.withRefs []) =
          (x.map (·.forgetSymbols)).map (·.withRefs []) := by
      intro x _
      cases x <;> rfl
    rw [lower_fst, lower_fst, hforget, hforget, hmap, hmap, hlower]
    refine ⟨rfl, fun hpackages => ?_⟩
    have hrefs : (s'.start p').2.refs = (s.start p).2.refs :=
      start_refs_congr hpackages (congrArg Package.id hkeyed :) (congrArg Package.imports hkeyed :)
    rw [hrefs]
  · intro hreachable
    constructor
    · have hroot : s.context.refKey ∘ s.context.refKey = s.context.refKey :=
        funext hreachable.rooted.root
      have hrefs : (s.start (p.mapBodies s.context.refKey)).2.refs = (s.start p).2.refs :=
        start_refs_congr rfl rfl rfl
      rw [lower_fst, lower_fst, Package.lower_mapBodies hroot, hrefs]
    · intro env b x y slot henv hxy hx note name
      have hlookup : Build.lookup? (env.refKey y) b = .ok (some slot) b :=
        henv ▸ hxy.lookup? (henv ▸ hx)
      constructor
      · intro here
        rw [lowerExpr, Build.lowerVar]
        exact bind_run hlookup
      · intro value span
        rw [lowerStore]
        exact bind_run hlookup

def guarded : Context where
  spaces := [["x", "limit", "x", "x"]]
  narrowed := [(⟨0, 3⟩, ⟨0, 0⟩), (⟨0, 2⟩, ⟨0, 0⟩)]

def adding (param target source limit : Symbol) : Package where
  id := .anonymous
  constants := [⟨⟨"limit", {}⟩, limit, none, .literal {} (.boolean true), {}⟩]
  functions := [⟨⟨"f", {}⟩, [⟨⟨"x", {}⟩, param, none, {}⟩], none, .block (.mk [
    .assign {} (.var {} ⟨"x", {}⟩ target)
      (.binary {} .add (.var {} ⟨"x", {}⟩ source) (.var {} ⟨"limit", {}⟩ limit))] {}), {}⟩]

theorem guarded_narrows : guarded.Reachable ∧ guarded.Narrows ⟨0, 0⟩ ⟨0, 3⟩ := by
  have hx : Context.define ⟨[.anonymous], [[]], []⟩ 0 "x" =
      .ok (⟨0, 0⟩, ⟨[.anonymous], [["x"]], []⟩) := rfl
  have hlimit : Context.define ⟨[.anonymous], [["x"]], []⟩ 0 "limit" =
      .ok (⟨0, 1⟩, ⟨[.anonymous], [["x", "limit"]], []⟩) := rfl
  have hnarrow : Context.narrow ⟨[.anonymous], [["x", "limit"]], []⟩ ⟨0, 0⟩ =
      .ok (⟨0, 2⟩, ⟨[.anonymous], [["x", "limit", "x"]], [(⟨0, 2⟩, ⟨0, 0⟩)]⟩) := rfl
  have hguarded : Context.narrow ⟨[.anonymous], [["x", "limit", "x"]], [(⟨0, 2⟩, ⟨0, 0⟩)]⟩ ⟨0, 2⟩ =
      .ok (⟨0, 3⟩, guarded) := rfl
  have hnew : Context.Reachable ⟨[.anonymous], [["x", "limit"]], []⟩ :=
    ((Relation.ReflTransGen.single .newSpace).tail (.define hx)).tail (.define hlimit)
  exact ⟨(hnew.tail (.narrow hnarrow)).tail (.narrow hguarded),
    .narrow (.narrow (.refl hnew) hnarrow) hguarded⟩

theorem guarded_keyed :
    (({ context := guarded } : Session).lower {} (adding ⟨0, 0⟩ ⟨0, 2⟩ ⟨0, 3⟩ ⟨0, 1⟩)).1.isOk = true ∧
    (({} : Session).lower {} (adding ⟨1, 0⟩ ⟨1, 0⟩ ⟨1, 0⟩ ⟨1, 1⟩)).1.map (·.forgetSymbols) =
      (({ context := guarded } : Session).lower {} (adding ⟨0, 0⟩ ⟨0, 2⟩ ⟨0, 3⟩ ⟨0, 1⟩)).1.map
        (·.forgetSymbols) ∧
    (({ context := guarded } : Session).lower {} (adding ⟨0, 0⟩ ⟨0, 0⟩ ⟨0, 0⟩ ⟨0, 1⟩)).1 =
      (({ context := guarded } : Session).lower {} (adding ⟨0, 0⟩ ⟨0, 2⟩ ⟨0, 3⟩ ⟨0, 1⟩)).1 ∧
    lowerExpr ⟨.anonymous, guarded.refKey, [], []⟩ (.var {} ⟨"x", {}⟩ ⟨0, 3⟩) 0
        { stem := "bb", locals := ⟨[], [(⟨0, 0⟩, 1)]⟩ } =
      .ok ⟨1, 0⟩ { stem := "bb", locals := ⟨[], [(⟨0, 0⟩, 1)]⟩ } := by
  obtain ⟨hreachable, hnarrows⟩ := guarded_narrows
  obtain ⟨hrename, hroot⟩ :=
    Session.lower_keyed { context := guarded } {} (adding ⟨0, 0⟩ ⟨0, 2⟩ ⟨0, 3⟩ ⟨0, 1⟩)
  obtain ⟨hbodies, hslot⟩ := hroot hreachable
  refine ⟨by decide +kernel, ?_, hbodies, ?_⟩
  · refine (hrename {} _ (fun s => ⟨s.space + 1, s.index⟩) ?_ rfl).2 rfl
    rintro ⟨i, j⟩ ⟨i', j'⟩ h
    simpa using h
  · exact (hslot ⟨.anonymous, guarded.refKey, [], []⟩ _ ⟨0, 0⟩ ⟨0, 3⟩ 1 rfl hnarrows rfl {} ⟨"x", {}⟩).1 0

end FlowGraph

import FlowGraph.Proofs.Narrowing

/-!
Sessions under any sequence of queries, refused ones included. A symbol that was given out keeps its
name and its reference key, whatever is asked after.
-/

namespace FlowGraph

inductive Query where
  | newSpace
  | define (space : Nat) (name : String)
  | narrow (base : Symbol)
  | newPackage (org : Option String) (comps : List String) (version : Option String)
  | intern (id : PackageId)
  | defaultPackage
  | lower (options : Options) (p : Package)

inductive Answer where
  | space (space : Nat)
  | symbol (symbol : Symbol)
  | refused (error : ContextError)
  | package (ref : PackageRef)
  | lowered (m : Module)
  | failed (error : Error)
  deriving DecidableEq

namespace Query

def answer : Query → Session → Answer × Session
  | .newSpace, s => (.space s.context.newSpace.1, { s with context := s.context.newSpace.2 })
  | .define space name, s => ofSymbol s (s.context.define space name)
  | .narrow base, s => ofSymbol s (s.context.narrow base)
  | .newPackage org comps version, s =>
    let (ref, s) := s.intern (.ofParts org comps version)
    (.package ref, s)
  | .intern id, s =>
    let (ref, s) := s.intern id
    (.package ref, s)
  | .defaultPackage, s => (.package s.context.defaultPackage, s)
  | .lower options p, s =>
    match s.lower options p with
    | (.ok m, s') => (.lowered m, s')
    | (.error e, s') => (.failed e, s')
where
  ofSymbol (s : Session) : Except ContextError (Symbol × Context) → Answer × Session
  | .ok (x, c) => (.symbol x, { s with context := c })
  | .error e => (.refused e, s)

end Query

namespace Session

def serve (s : Session) (qs : List Query) : Session := qs.foldl (fun s q => (q.answer s).2) s

variable {s : Session}

@[simp] theorem serve_nil : s.serve [] = s := rfl

@[simp] theorem serve_cons (q : Query) (qs : List Query) : s.serve (q :: qs) = (q.answer s).2.serve qs := rfl

theorem lower_context {options : Options} {p : Package} {r : Except Error Module} {s' : Session}
    (h : s.lower options p = (r, s')) :
    s'.context = (s.context.internAll (p.id :: p.imports.map (·.packageId))).2 := by
  rw [← (s.start_interned p).1]
  simp only [lower] at h
  split at h
  next =>
    cases h
    rfl
  next =>
    split at h <;> cases h <;> rfl

end Session

namespace Context

variable {c c' : Context} {x : Symbol}

theorem internAll_steps (ids : List PackageId) :
    Relation.ReflTransGen Step c (c.internAll ids).2 := by
  induction ids generalizing c with
  | nil => exact .refl
  | cons id ids ih => exact .head (.intern id) ih

theorem define_eq_ok {space : Nat} {name : String} (h : c.define space name = .ok (x, c')) :
    x.space = space ∧ c'.symbolName? x = some name ∧
      ∀ y, c.Defined y → c'.symbolName? y = c.symbolName? y := by
  unfold define at h
  split at h
  next => cases h
  next names hnames =>
    cases h
    have hlt : space < c.spaces.length := (List.getElem?_eq_some_iff.mp hnames).1
    refine ⟨rfl, by simp [symbolName?, hlt], fun y hy => ?_⟩
    obtain ⟨names', hnames', hy⟩ := defined_iff.mp hy
    by_cases heq : space = y.space
    · subst heq
      obtain rfl : names = names' := Option.some.inj (hnames.symm.trans hnames')
      simp [symbolName?, List.getElem?_set_self hlt, hnames, List.getElem?_append_left hy]
    · simp [symbolName?, heq]

theorem narrow_eq_ok {base : Symbol} (h : c.narrow base = .ok (x, c')) :
    x.space = base.space ∧ c'.symbolName? x = c.symbolName? base ∧
      ∀ y, c.Defined y → c'.symbolName? y = c.symbolName? y := by
  obtain ⟨name, d, hname, hd, rfl⟩ := define_of_narrow h
  obtain ⟨hspace, hx, hkeep⟩ := define_eq_ok hd
  exact ⟨hspace, hx.trans hname.symm, hkeep⟩

theorem Step.symbolName?_eq (h : Step c c') (hx : c.Defined x) : c'.symbolName? x = c.symbolName? x := by
  cases h with
  | intern id =>
    unfold Context.intern
    dsimp only
    split <;> rfl
  | newSpace =>
    obtain ⟨names, hnames, -⟩ := defined_iff.mp hx
    have hlt := (List.getElem?_eq_some_iff.mp hnames).1
    simp [symbolName?, Context.newSpace, List.getElem?_append_left hlt]
  | define h => exact (define_eq_ok h).2.2 x hx
  | narrow h => exact (narrow_eq_ok h).2.2 x hx

structure Keeps (c c' : Context) (x : Symbol) : Prop where
  defined : c'.Defined x
  symbolName? : c'.symbolName? x = c.symbolName? x
  refKey : c'.refKey x = c.refKey x

theorem Step.keeps (h : Step c c') (hx : c.Defined x) : Keeps c c' x :=
  ⟨h.spec.1 x hx, h.symbolName?_eq hx, h.refKey_eq hx⟩

theorem Rooted.refKey_define (hc : c.Rooted) {space : Nat} {name : String}
    (h : c.define space name = .ok (x, c')) : c'.refKey x = x := by
  obtain ⟨hnarrowed, hnew, -, -⟩ := define_spec h
  have hkey : c.refKey x = x := (hc.defined x).resolve_right fun hx => hnew hx.1
  rwa [refKey, hnarrowed]

theorem narrow_base {base : Symbol} (h : c.narrow base = .ok (x, c')) :
    c'.symbolName? x = c'.symbolName? base ∧ c'.refKey x = c'.refKey base := by
  obtain ⟨hbase, -, -, -, hkey, -⟩ := narrow_spec h
  have hkeeps := (Step.narrow h).keeps hbase
  rw [(narrow_eq_ok h).2.1, hkeeps.symbolName?, hkey, hkeeps.refKey]
  exact ⟨rfl, rfl⟩

theorem keeps_of_steps (h : Relation.ReflTransGen Step c c') (hx : c.Defined x) : Keeps c c' x := by
  induction h with
  | refl => exact ⟨hx, rfl, rfl⟩
  | tail _ hstep ih =>
    have hkeeps := hstep.keeps ih.defined
    exact ⟨hkeeps.defined, hkeeps.symbolName?.trans ih.symbolName?, hkeeps.refKey.trans ih.refKey⟩

end Context

/-- `Answered s q a s'`: the session `s` answers `q` with `a` and becomes `s'`. -/
inductive Answered (s : Session) : Query → Answer → Session → Prop
  | newSpace :
    Answered s .newSpace (.space s.context.newSpace.1) { s with context := s.context.newSpace.2 }
  | define {space name x c} : s.context.define space name = .ok (x, c) →
    Answered s (.define space name) (.symbol x) { s with context := c }
  | undefined {space name e} : s.context.define space name = .error e →
    Answered s (.define space name) (.refused e) s
  | narrow {base x c} : s.context.narrow base = .ok (x, c) →
    Answered s (.narrow base) (.symbol x) { s with context := c }
  | unnarrowed {base e} : s.context.narrow base = .error e → Answered s (.narrow base) (.refused e) s
  | newPackage {org comps version} :
    Answered s (.newPackage org comps version) (.package (s.intern (.ofParts org comps version)).1)
      (s.intern (.ofParts org comps version)).2
  | intern {id} : Answered s (.intern id) (.package (s.intern id).1) (s.intern id).2
  | defaultPackage : Answered s .defaultPackage (.package s.context.defaultPackage) s
  | lowered {options p m s'} : s.lower options p = (.ok m, s') →
    Answered s (.lower options p) (.lowered m) s'
  | failed {options p e s'} : s.lower options p = (.error e, s') →
    Answered s (.lower options p) (.failed e) s'

theorem Query.answered (q : Query) (s : Session) : Answered s q (q.answer s).1 (q.answer s).2 := by
  cases q with
  | newSpace => exact .newSpace
  | define space name =>
    cases h : s.context.define space name with
    | error e => simpa [answer, answer.ofSymbol, h] using .undefined h
    | ok r => simpa [answer, answer.ofSymbol, h] using .define h
  | narrow base =>
    cases h : s.context.narrow base with
    | error e => simpa [answer, answer.ofSymbol, h] using .unnarrowed h
    | ok r => simpa [answer, answer.ofSymbol, h] using .narrow h
  | newPackage org comps version => exact .newPackage
  | intern id => exact .intern
  | defaultPackage => exact .defaultPackage
  | lower options p =>
    rcases h : s.lower options p with ⟨e | m, s'⟩
    · simpa [answer, h] using .failed h
    · simpa [answer, h] using .lowered h

@[simp] theorem Query.answer_lower_snd (options : Options) (p : Package) (s : Session) :
    (answer (.lower options p) s).2 = (s.lower options p).2 := by
  rcases h : s.lower options p with ⟨_ | _, _⟩ <;> simp [answer, h]

namespace Answered

variable {s s' : Session} {q : Query} {a : Answer} {x : Symbol} {e : ContextError}

theorem of_eq (h : q.answer s = (a, s')) : Answered s q a s' := by
  have hq := q.answered s
  rwa [h] at hq

theorem steps (h : Answered s q a s') : Relation.ReflTransGen Context.Step s.context s'.context := by
  cases h with
  | newSpace => exact .single .newSpace
  | define h => exact .single (.define h)
  | narrow h => exact .single (.narrow h)
  | newPackage | intern => exact .single (.intern _)
  | undefined | unnarrowed | defaultPackage => exact .refl
  | lowered h | failed h =>
    rw [s.lower_context h]
    exact s.context.internAll_steps _

theorem symbol (h : Answered s q (.symbol x) s') : ¬ s.context.Defined x ∧ s'.context.Defined x := by
  cases h with
  | define h =>
    obtain ⟨-, hnew, hx, -⟩ := Context.define_spec h
    exact ⟨hnew, hx⟩
  | narrow h =>
    obtain ⟨-, hnew, hx, -⟩ := Context.narrow_spec h
    exact ⟨hnew, hx⟩

theorem refused (h : Answered s q (.refused e) s') : s' = s := by
  cases h <;> rfl

end Answered

theorem Session.serve_steps (s : Session) (qs : List Query) :
    Relation.ReflTransGen Context.Step s.context (s.serve qs).context := by
  induction qs generalizing s with
  | nil => exact .refl
  | cons q qs ih => exact (q.answered s).steps.trans (ih _)

/-- After any queries from the start, the key of a symbol is its own key. A symbol that is given out is
a new one: its key is itself if it is defined, and that of its base if it narrows another, whose name
and space it has. From then on its name and key stay as they are. A refusal changes nothing. -/
theorem Session.serve_symbols (qs : List Query) :
    let s := ({} : Session).serve qs
    (∀ x, s.context.refKey (s.context.refKey x) = s.context.refKey x) ∧
    (∀ (q : Query) x s', q.answer s = (.symbol x, s') →
      s.context.symbolName? x = none ∧ s'.context.symbolName? x ≠ none) ∧
    (∀ space name x s', (Query.define space name).answer s = (.symbol x, s') →
      x.space = space ∧ s'.context.symbolName? x = some name ∧ s'.context.refKey x = x) ∧
    (∀ base x s', (Query.narrow base).answer s = (.symbol x, s') →
      x.space = base.space ∧ s'.context.symbolName? x = s'.context.symbolName? base ∧
        s'.context.refKey x = s'.context.refKey base) ∧
    (∀ x, s.context.symbolName? x ≠ none → ∀ qs', let t := s.serve qs'
      t.context.symbolName? x = s.context.symbolName? x ∧ t.context.refKey x = s.context.refKey x) ∧
    ∀ (q : Query) e s', q.answer s = (.refused e, s') → s' = s := by
  intro s
  have hrooted : s.context.Rooted := Context.Reachable.rooted (({} : Session).serve_steps qs)
  refine ⟨hrooted.root, fun q x s' h => ?_, fun space name x s' h => ?_, fun base x s' h => ?_,
    fun x hx qs' => ?_, fun q e s' h => (Answered.of_eq h).refused⟩
  · simpa [Context.Defined, Option.isSome_iff_ne_none] using (Answered.of_eq h).symbol
  · cases Answered.of_eq h with
    | define hd =>
      obtain ⟨hspace, hname, -⟩ := Context.define_eq_ok hd
      exact ⟨hspace, hname, hrooted.refKey_define hd⟩
  · cases Answered.of_eq h with
    | narrow hn => exact ⟨(Context.narrow_eq_ok hn).1, Context.narrow_base hn⟩
  · have hkeeps := Context.keeps_of_steps (s.serve_steps qs') (Option.isSome_iff_ne_none.mpr hx)
    exact ⟨hkeeps.symbolName?, hkeeps.refKey⟩

def guarding : List Query :=
  [.define 0 "x", .newSpace, .newSpace, .define 1 "x", .narrow ⟨0, 0⟩, .narrow ⟨1, 0⟩,
    .lower {} (adding ⟨1, 0⟩ ⟨1, 1⟩ ⟨1, 1⟩ ⟨0, 0⟩), .narrow ⟨1, 1⟩, .define 0 "y", .define 2 "z"]

theorem guarding_symbols :
    let s := ({} : Session).serve guarding
    (∃ s', (Query.narrow ⟨1, 2⟩).answer s = (.symbol ⟨1, 3⟩, s') ∧ s.context.symbolName? ⟨1, 3⟩ = none ∧
      s'.context.refKey ⟨1, 3⟩ = s'.context.refKey ⟨1, 2⟩) ∧
    (∀ qs', (s.serve qs').context.refKey ⟨1, 2⟩ = ⟨1, 0⟩) ∧
    (Query.narrow ⟨0, 1⟩).answer s = (.refused (.unknownSymbol ⟨0, 1⟩), s) := by
  have hsymbol : ((Query.narrow ⟨1, 2⟩).answer (({} : Session).serve guarding)).1 = .symbol ⟨1, 3⟩ := by
    decide +kernel
  have hrefusal : ((Query.narrow ⟨0, 1⟩).answer (({} : Session).serve guarding)).1 =
      .refused (.unknownSymbol ⟨0, 1⟩) := by
    decide +kernel
  have hname : (({} : Session).serve guarding).context.symbolName? ⟨1, 2⟩ = some "x" := by decide +kernel
  have hkey : (({} : Session).serve guarding).context.refKey ⟨1, 2⟩ = ⟨1, 0⟩ := by decide +kernel
  obtain ⟨-, hnew, -, hnarrow, hkeep, hrefused⟩ := Session.serve_symbols guarding
  generalize ({} : Session).serve guarding = s at *
  have hanswer : (Query.narrow ⟨1, 2⟩).answer s = (.symbol ⟨1, 3⟩, ((Query.narrow ⟨1, 2⟩).answer s).2) :=
    Prod.ext hsymbol rfl
  refine ⟨⟨_, hanswer, (hnew _ _ _ hanswer).1, (hnarrow _ _ _ hanswer).2.2⟩, fun qs' => ?_, ?_⟩
  · exact ((hkeep ⟨1, 2⟩ (by simp [hname]) qs').2).trans hkey
  · exact Prod.ext hrefusal (hrefused _ _ _ (Prod.ext hrefusal rfl))

end FlowGraph

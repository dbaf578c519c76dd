import FlowGraph.Proofs.FunctionKey
import FlowGraph.Proofs.Jumps
import FlowGraph.Proofs.Narrowing

/-!
Where calls go. A call stays in the package unless an alias qualifies it, and then it goes to the
last one of the imports that claim the alias.
-/

namespace FlowGraph

open Builder

namespace Import

/-- An import claims the alias that it is given, or else the last component of its name. -/
inductive Claims (i : Import) : String → Prop
  | explicit {x : Ident} : i.aliasName = some x → x.name ≠ "" → Claims i x.name
  | component {before : List Ident} {c : Ident} :
    (∀ x, i.aliasName = some x → x.name = "") → i.comps = before ++ [c] → Claims i c.name

variable {i : Import} {a : String}

theorem given?_eq_some_iff {part : Option Ident} :
    given? part = some a ↔ ∃ x, part = some x ∧ x.name ≠ "" ∧ x.name = a := by
  simp [given?, Option.filter_eq_some_iff, Ident.isEmpty, and_assoc]

theorem given?_eq_none_iff {part : Option Ident} :
    given? part = none ↔ ∀ x, part = some x → x.name = "" := by
  simp [given?, Ident.isEmpty]

theorem effectiveAlias?_eq_some_iff : i.effectiveAlias? = some a ↔ i.Claims a := by
  unfold effectiveAlias?
  constructor
  · intro h
    cases hg : given? i.aliasName with
    | some b =>
      obtain ⟨x, hx, hne, rfl⟩ := given?_eq_some_iff.mp hg
      obtain rfl : x.name = a := by simpa [hg] using h
      exact .explicit hx hne
    | none =>
      obtain ⟨c, hc, rfl⟩ : ∃ c, i.comps.getLast? = some c ∧ c.name = a := by simpa [hg] using h
      obtain ⟨before, hbefore⟩ := List.getLast?_eq_some_iff.mp hc
      exact .component (given?_eq_none_iff.mp hg) hbefore
  · rintro (⟨hx, hne⟩ | ⟨hempty, hcomps⟩)
    · simp [given?_eq_some_iff.mpr ⟨_, hx, hne, rfl⟩]
    · simp [given?_eq_none_iff.mpr hempty, hcomps]

theorem claims_iff_of_explicit {x : Ident} (hx : i.aliasName = some x) (hne : x.name ≠ "") :
    i.Claims a ↔ a = x.name := by
  constructor
  · rintro (⟨hx', -⟩ | ⟨hempty, -⟩)
    · rw [Option.some.inj (hx'.symm.trans hx)]
    · exact absurd (hempty x hx) hne
  · rintro rfl
    exact .explicit hx hne

theorem find?_reverse_eq_some_iff {imports : List Import} :
    imports.reverse.find? (·.effectiveAlias? == some a) = some i ↔
      i.Claims a ∧ ∃ before after, imports = before ++ i :: after ∧ ∀ j ∈ after, ¬ j.Claims a := by
  simp only [List.find?_eq_some_iff_append, beq_iff_eq, Bool.not_eq_eq_eq_not, Bool.not_true,
    beq_eq_false_iff_ne, ne_eq, effectiveAlias?_eq_some_iff, and_congr_right_iff]
  intro _
  constructor
  · rintro ⟨after, before, heq, hafter⟩
    refine ⟨before.reverse, after.reverse, ?_, by simpa using hafter⟩
    rw [← List.reverse_reverse imports, heq]
    simp
  · rintro ⟨before, after, rfl, hafter⟩
    exact ⟨after.reverse, before.reverse, by simp, by simpa using hafter⟩

theorem find?_reverse_eq_none_iff {imports : List Import} :
    imports.reverse.find? (·.effectiveAlias? == some a) = none ↔ ∀ i ∈ imports, ¬ i.Claims a := by
  simp [effectiveAlias?_eq_some_iff]

end Import

/-- `Resolves p name qualifier c`: in `p`, a call of `name` under a qualifier is a call of `c`. -/
inductive Resolves (p : Package) (name : Ident) : Option Ident → Callee → Prop
  | unqualified : Resolves p name none (.ofName p.id name.name)
  | empty {a : Ident} : a.name = "" → Resolves p name (some a) (.ofName p.id name.name)
  | imported {a : Ident} {before after : List Import} {i : Import} :
    a.name ≠ "" → p.imports = before ++ i :: after → i.Claims a.name → (∀ j ∈ after, ¬ j.Claims a.name) →
    Resolves p name (some a) (.ofName i.packageId name.name)

namespace Env

variable {env env' : Env} {s : Session} {p : Package} {qualifier : Option Ident} {a name : Ident}
  {c : Callee} {e : Error}

theorem callee_congr (hpackage : env.package = env'.package)
    (h : env.imports.lookup a.name = env'.imports.lookup a.name) :
    env.callee (some a) name = env'.callee (some a) name := by
  by_cases ha : a.name = ""
  · rw [callee_empty ha, callee_empty ha, hpackage]
  · rw [callee_alias ha, callee_alias ha, h]

structure Of (env : Env) (s : Session) (p : Package) : Prop where
  package : env.package = p.id
  imports : env.imports = (s.start p).2.imports

theorem Of.lookup (h : env.Of s p) (a : String) : env.imports.lookup a =
    (p.imports.reverse.find? (·.effectiveAlias? == some a)).map (·.packageId) := by
  rw [h.imports]
  exact Session.addImports_lookup _ _ p.imports a

theorem Of.callee_eq_ok_iff (h : env.Of s p) :
    env.callee qualifier name = .ok c ↔ Resolves p name qualifier c := by
  constructor
  · intro hc
    cases qualifier with
    | none =>
      obtain rfl := Except.ok.inj hc
      exact h.package ▸ .unqualified
    | some a =>
      by_cases ha : a.name = ""
      · rw [callee_empty ha] at hc
        obtain rfl := Except.ok.inj hc
        exact h.package ▸ .empty ha
      · rw [callee_alias ha, h.lookup] at hc
        cases hi : p.imports.reverse.find? (·.effectiveAlias? == some a.name) with
        | none => simp [hi] at hc
        | some i =>
          obtain rfl : _ = c := by simpa [hi] using hc
          obtain ⟨hclaims, before, after, himports, hafter⟩ := Import.find?_reverse_eq_some_iff.mp hi
          exact .imported ha himports hclaims hafter
  · rintro (_ | ha | ⟨ha, himports, hclaims, hafter⟩)
    · rw [callee_none, h.package]
    · rw [callee_empty ha, h.package]
    · have hi := Import.find?_reverse_eq_some_iff.mpr ⟨hclaims, _, _, himports, hafter⟩
      rw [callee_alias ha, h.lookup, hi]
      rfl

theorem Of.callee_eq_error_iff (h : env.Of s p) :
    env.callee qualifier name = .error e ↔ ∃ a, qualifier = some a ∧ a.name ≠ "" ∧
      (∀ i ∈ p.imports, ¬ i.Claims a.name) ∧ e = ⟨.unresolvedImport a.name, a.span⟩ := by
  constructor
  · intro he
    cases qualifier with
    | none => cases he
    | some a =>
      by_cases ha : a.name = ""
      · simp [callee_empty ha] at he
      · rw [callee_alias ha, h.lookup] at he
        cases hi : p.imports.reverse.find? (·.effectiveAlias? == some a.name) with
        | some i => simp [hi] at he
        | none =>
          obtain rfl : _ = e := by simpa [hi] using he
          exact ⟨a, rfl, ha, Import.find?_reverse_eq_none_iff.mp hi, rfl⟩
  · rintro ⟨a, rfl, ha, hnone, rfl⟩
    rw [callee_alias ha, h.lookup, Import.find?_reverse_eq_none_iff.mpr hnone]
    rfl

theorem Of.callee_of_explicit {before after : List Import} {i : Import} {x : Ident} (h : env.Of s p)
    (h' : env'.Of s { p with imports := before ++ after }) (himports : p.imports = before ++ i :: after)
    (hx : i.aliasName = some x) (hne : x.name ≠ "") (ha : a.name ≠ x.name) :
    env.callee (some a) name = env'.callee (some a) name := by
  refine callee_congr (h.package.trans h'.package.symm) ?_
  have hi : i.effectiveAlias? ≠ some a.name := fun heq =>
    ha ((Import.claims_iff_of_explicit hx hne).mp (Import.effectiveAlias?_eq_some_iff.mp heq))
  rw [h.lookup, h'.lookup, himports]
  simp [List.find?_append, beq_false_of_ne hi]

theorem lowerExpr_of_callee (h : env.callee qualifier name = .error e) (note : Note) (es : List Expr)
    (here : Label) (b : Builder) : lowerExpr env (.call note qualifier name es) here b = .error e b := by
  rw [lowerExpr]
  apply bind_fail
  rw [h]
  rfl

end Env

/-- The calls of a graph are those of the live code. At each site, the call that ends the block carries
what the source means in the package. -/
structure CallsResolved (env : Env) (stem : String) (p : Package) (f : FunctionDef) (g : Graph) : Prop where
  live : ∀ note qualifier name es, f.Live (.expr (.call note qualifier name es)) ↔
    ∃ q l args c, SiteOf env stem f g q ∧ q.node = .expr (.call note qualifier name es) ∧
      Invokes env q l args c
  carries : ∀ q l args c, SiteOf env stem f g q → Invokes env q l args c →
    ∃ note qualifier name es next, q.node = .expr (.call note qualifier name es) ∧ q.out = some next ∧
      Resolves p name qualifier c ∧ transferAt g.blocks l = some (.call args c false next)
  origin : ∀ l args c isVirtual next, transferAt g.blocks l = some (.call args c isVirtual next) →
    isVirtual = false ∧ ∃ q, SiteOf env stem f g q ∧ q.out = some next ∧ Invokes env q l args c

theorem Site.Run.invokes {env : Env} {p : Site} (h : p.Run env) {note : Note} {qualifier : Option Ident}
    {name : Ident} {es : List Expr} (hnode : p.node = .expr (.call note qualifier name es)) :
    ∃ l args c, Invokes env p l args c := by
  obtain ⟨ps, hsplits, hrun⟩ := h.splits
  cases hsplits <;> cases hnode
  case call hcallee => exact ⟨_, _, _, .call hcallee hrun⟩

theorem Invokes.transferAt {env : Env} {bf : Builder} {p : Site} {l : Label} {args : List Slot} {c : Callee}
    (h : Invokes env p l args c) (hp : p.Settled env bf) :
    ∃ next, p.out = some next ∧ FlowGraph.transferAt bf.blocks l = some (.call args c false next) := by
  cases h with
  | @call _ _ _ es here b _ _ b₁ _ hcallee hargs =>
    have hchild := Child.settled ⟨_, .call hcallee, hargs, List.mem_singleton_self _⟩ hp
    have hlast : l < b₁.nextLabel := hchild.out_lt rfl
    refine ⟨_, rfl, hp.sealed.grows.transferAt (transferAt_close_self ?_)⟩
    simp
    lia

theorem FunctionRun.callsResolved {env : Env} {s : Session} {p : Package} {stem : String} {f : FunctionDef}
    {g : Graph} (h : FunctionRun env stem f g) (henv : env.Of s p) : CallsResolved env stem p f g where
  live note qualifier name es := by
    simpa only [exists_and_left] using h.live_iff_of_run fun q hrun hnode => hrun.invokes hnode
  carries q l args c hq hinvokes := by
    obtain ⟨b, rfl, hsettled⟩ := hq.settled
    obtain ⟨next, hout, ht⟩ := hinvokes.transferAt hsettled
    obtain ⟨hcallee, -⟩ := hinvokes
    exact ⟨_, _, _, _, next, rfl, hout, henv.callee_eq_ok_iff.mp hcallee, ht⟩
  origin _ _ _ _ _ := h.call_origin

/-- A call goes to the last import that claims its alias, or stays in the package if it has none. It
fails if no import claims the alias; and an import with an alias of its own has no part in what another
alias means. The key of what is called tells its package and name. In a lowered package there is one
entry for each import, and all calls are resolved. -/
theorem Session.lower_resolves (s : Session) (options : Options) (p : Package) :
    (∀ env : Env, env.package = p.id → env.imports = (s.start p).2.imports →
      (∀ qualifier name c, env.callee qualifier name = .ok c ↔ Resolves p name qualifier c) ∧
      (∀ qualifier name e, env.callee qualifier name = .error e ↔ ∃ a, qualifier = some a ∧ a.name ≠ "" ∧
        (∀ i ∈ p.imports, ¬ i.Claims a.name) ∧ e = ⟨.unresolvedImport a.name, a.span⟩) ∧
      (∀ qualifier name e, env.callee qualifier name = .error e → ∀ note es here b,
        lowerExpr env (.call note qualifier name es) here b = .error e b) ∧
      ∀ before i after x, p.imports = before ++ i :: after → i.aliasName = some x → x.name ≠ "" →
        ∀ env' : Env, env'.package = p.id →
          env'.imports = (s.start { p with imports := before ++ after }).2.imports →
          ∀ a name, a.name ≠ x.name → env.callee (some a) name = env'.callee (some a) name) ∧
    (∀ (env : Env) qualifier name c, env.callee qualifier name = .ok c → c.name = name.name ∧
      c.key = c.package.org ++ "/" ++ ".".intercalate c.package.comps ++ ":" ++ c.name) ∧
    ∀ m, (s.lower options p).1 = .ok m → m.imports = p.imports.map (·.packageId) ∧
      ∃ env : Env, env.package = p.id ∧ env.imports = (s.start p).2.imports ∧
        List.Forall₂ (CallsResolved env options.stem p) p.functions m.functions := by
  refine ⟨fun env hpackage himports => ?_, fun env qualifier name c hc => ?_,
    fun m hm => ⟨(lower_identities hm).2.1, ?_⟩⟩
  · have henv : env.Of s p := ⟨hpackage, himports⟩
    refine ⟨fun _ _ _ => henv.callee_eq_ok_iff, fun _ _ _ => henv.callee_eq_error_iff,
      fun _ _ _ he => Env.lowerExpr_of_callee he, ?_⟩
    intro before i after x hsplit hx hne env' hpackage' himports' a name ha
    exact henv.callee_of_explicit ⟨hpackage', himports'⟩ hsplit hx hne ha
  · obtain ⟨id, rfl, -⟩ := Env.callee_eq_ok hc
    exact ⟨rfl, by simp [Callee.ofName, ← id.name_eq, PackageId.functionKey, PackageId.key]⟩
  · obtain ⟨env, hpackage, himports, hruns⟩ := lower_start hm
    exact ⟨env, hpackage, himports, hruns.imp fun f g h => h.callsResolved ⟨hpackage, himports⟩⟩

def rebinding : Package where
  id := .new "o" ["m"] "0.0.0"
  imports := [⟨some ⟨"o", {}⟩, [⟨"p", {}⟩], none, some ⟨"a", {}⟩, {}⟩,
    ⟨some ⟨"o", {}⟩, [⟨"q", {}⟩, ⟨"a", {}⟩], none, some ⟨"", {}⟩, {}⟩,
    ⟨some ⟨"o", {}⟩, [⟨"r", {}⟩], none, some ⟨"b", {}⟩, {}⟩]
  functions := [⟨⟨"f", {}⟩, [], none, .expr (.call {} (some ⟨"a", {}⟩) ⟨"g", {}⟩
    [.call {} (some ⟨"", {}⟩) ⟨"f", {}⟩ []]), {}⟩]

theorem rebinding_resolves :
    (∃ m, (({} : Session).lower {} rebinding).1 = .ok m ∧
      m.imports = [.new "o" ["p"] "0.0.0", .new "o" ["q", "a"] "0.0.0", .new "o" ["r"] "0.0.0"] ∧
      ∃ env : Env, List.Forall₂ (CallsResolved env "bb" rebinding) rebinding.functions m.functions) ∧
    ∃ env : Env, env.package = rebinding.id ∧ env.imports = (({} : Session).start rebinding).2.imports ∧
      env.callee (some ⟨"a", {}⟩) ⟨"g", {}⟩ = .ok ⟨"g", .new "o" ["q", "a"] "0.0.0", "o/q.a:g"⟩ ∧
      (∀ b, lowerExpr env (.call {} (some ⟨"r", {}⟩) ⟨"g", {}⟩ []) 0 b = .error ⟨.unresolvedImport "r", {}⟩ b) ∧
      ∃ env' : Env,
        env'.imports = (({} : Session).start { rebinding with imports := rebinding.imports.tail }).2.imports ∧
        env.callee (some ⟨"p", {}⟩) ⟨"g", {}⟩ = env'.callee (some ⟨"p", {}⟩) ⟨"g", {}⟩ := by
  obtain ⟨hall, -, hlowered⟩ := Session.lower_resolves {} {} rebinding
  refine ⟨?_, ⟨rebinding.id, id, [], (({} : Session).start rebinding).2.imports⟩, rfl, rfl, ?_⟩
  · have hok : (({} : Session).lower {} rebinding).1.toOption.isSome = true := by decide +kernel
    cases hm : (({} : Session).lower {} rebinding).1 with
    | error e => simp [hm, Except.toOption] at hok
    | ok m =>
      obtain ⟨himports, env, -, -, hcalls⟩ := hlowered m hm
      exact ⟨m, rfl, himports.trans rfl, env, hcalls⟩
  · obtain ⟨hok, herror, hfails, hexplicit⟩ := hall ⟨rebinding.id, id, [], _⟩ rfl rfl
    have hsecond : ∀ i ∈ rebinding.imports[1]?, i.Claims "a" := by
      simp only [← Import.effectiveAlias?_eq_some_iff]
      decide
    have hthird : ∀ i ∈ rebinding.imports.drop 2, ¬ i.Claims "a" := by
      simp only [← Import.effectiveAlias?_eq_some_iff]
      decide
    have hnone : ∀ i ∈ rebinding.imports, ¬ i.Claims "r" := by
      simp only [← Import.effectiveAlias?_eq_some_iff]
      decide
    refine ⟨(hok _ _ _).mpr ?_, ?_, ⟨rebinding.id, id, [], _⟩, rfl, ?_⟩
    · exact @Resolves.imported rebinding ⟨"g", {}⟩ ⟨"a", {}⟩ (rebinding.imports.take 1) _ _ (by decide) rfl
        (hsecond _ rfl) hthird
    · exact hfails _ _ _ ((herror _ _ _).mpr ⟨_, rfl, by decide, hnone, rfl⟩) {} [] 0
    · exact hexplicit [] _ rebinding.imports.tail _ rfl rfl (by decide) _ rfl rfl _ _ (by decide)

end FlowGraph

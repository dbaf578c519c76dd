import FlowGraph.Proofs.Transfers
import FlowGraph.Proofs.Verdict
import Mathlib.Data.List.Basic

/-!
What the key of a called function tells: the name of the function, and of its package all but the
version. This holds where the parts of a package's name can be told apart.
-/

namespace FlowGraph

theorem append_cons_inj {α : Type} {a : α} {x y z w : List α} (hx : a ∉ x) (hy : a ∉ y) :
    x ++ a :: z = y ++ a :: w ↔ x = y ∧ z = w := by
  constructor
  · intro h
    rcases List.append_eq_append_iff.mp h with ⟨u, rfl, hu⟩ | ⟨u, rfl, hu⟩ <;> cases u <;> simp_all
  · rintro ⟨rfl, rfl⟩
    rfl

namespace PackageId

def PlainComps (comps : List String) : Prop :=
  ∀ c ∈ comps, c ≠ "" ∧ '.' ∉ c.toList ∧ '/' ∉ c.toList ∧ ':' ∉ c.toList

instance (comps : List String) : Decidable (PlainComps comps) :=
  inferInstanceAs (Decidable (∀ c ∈ comps, _))

/-- The parts of the identity have none of the characters that separate them in a key. -/
structure Plain (p : PackageId) : Prop where
  org : '/' ∉ p.org.toList
  comps : p.comps = [defaultName] ∨ PlainComps p.comps

instance (p : PackageId) : Decidable p.Plain :=
  decidable_of_iff ('/' ∉ p.org.toList ∧ (p.comps = [defaultName] ∨ PlainComps p.comps))
    ⟨fun h => ⟨h.1, h.2⟩, fun h => ⟨h.1, h.2⟩⟩

theorem notMem_intercalate {c : Char} {s : String} {xs : List String} (hs : c ∉ s.toList)
    (h : ∀ x ∈ xs, c ∉ x.toList) : c ∉ (s.intercalate xs).toList := by
  induction xs with
  | nil => simp
  | cons x xs ih =>
    have hx := h x List.mem_cons_self
    have hxs := ih fun y hy => h y (List.mem_cons_of_mem _ hy)
    cases xs with
    | nil => simpa using hx
    | cons y xs =>
      rw [String.intercalate_cons_cons, String.toList_append, String.toList_append]
      simp only [List.mem_append]
      rintro ((hm | hm) | hm)
      · exact hx hm
      · exact hs hm
      · exact hxs hm

variable {p q : PackageId}

theorem Plain.colon_notMem_name (h : p.Plain) : ':' ∉ p.name.toList := by
  rw [p.name_eq]
  refine notMem_intercalate (by decide) fun c hm => ?_
  rcases h.comps with hc | hc
  · obtain rfl : c = defaultName := by simpa [hc] using hm
    decide
  · exact (hc c hm).2.2.2

theorem PlainComps.nil_notMem {comps : List String} (h : PlainComps comps) :
    [] ∉ comps.map String.toList := by
  simp only [List.mem_map, not_exists, not_and]
  intro c hc hnil
  exact (h c hc).1 (String.toList_eq_nil_iff.mp hnil)

theorem PlainComps.splitOn_name (h : PlainComps p.comps) :
    p.name.toList.splitOn '.' = if p.comps = [] then [[]] else p.comps.map String.toList := by
  rw [p.name_eq]
  split
  next hnil => simp [hnil]
  next hne =>
    rw [String.toList_intercalate]
    refine List.splitOn_intercalate '.' ?_ (by simpa using hne)
    simp only [List.mem_map, forall_exists_index, and_imp, forall_apply_eq_imp_iff₂]
    exact fun c hc => (h c hc).2.1

theorem PlainComps.name_ne (h : PlainComps p.comps) : p.name ≠ defaultName := by
  intro hname
  have hsplit := h.splitOn_name
  rw [hname, show defaultName.toList.splitOn '.' = [[], []] from by decide] at hsplit
  split at hsplit
  next => cases hsplit
  next => exact h.nil_notMem (by simp [← hsplit])

theorem PlainComps.comps_eq (hp : PlainComps p.comps) (hq : PlainComps q.comps)
    (h : p.name = q.name) : p.comps = q.comps := by
  have hsplit := hp.splitOn_name
  rw [h, hq.splitOn_name] at hsplit
  split at hsplit <;> split at hsplit
  next hq' hp' => rw [hp', hq']
  next => exact absurd (by simp [← hsplit]) hp.nil_notMem
  next => exact absurd (by simp [hsplit]) hq.nil_notMem
  next => exact (List.map_inj_right fun _ _ => String.toList_inj.mp).mp hsplit.symm

theorem Plain.comps_eq (hp : p.Plain) (hq : q.Plain) (h : p.name = q.name) : p.comps = q.comps := by
  rcases hp.comps with hp' | hp' <;> rcases hq.comps with hq' | hq'
  · rw [hp', hq']
  · exact absurd (by simp [← h, p.name_eq, hp']) hq'.name_ne
  · exact absurd (by simp [h, q.name_eq, hq']) hp'.name_ne
  · exact hp'.comps_eq hq' h

theorem Plain.functionKey_inj (hp : p.Plain) (hq : q.Plain) {f g : String} :
    p.functionKey f = q.functionKey g ↔ f = g ∧ p.org = q.org ∧ p.comps = q.comps := by
  constructor
  · intro h
    have h' : p.org.toList ++ '/' :: (p.name.toList ++ ':' :: f.toList) =
        q.org.toList ++ '/' :: (q.name.toList ++ ':' :: g.toList) := by
      simpa [functionKey, key] using congrArg String.toList h
    obtain ⟨horg, hrest⟩ := (append_cons_inj hp.org hq.org).mp h'
    obtain ⟨hname, hf⟩ := (append_cons_inj hp.colon_notMem_name hq.colon_notMem_name).mp hrest
    exact ⟨String.toList_inj.mp hf, String.toList_inj.mp horg, hp.comps_eq hq (String.toList_inj.mp hname)⟩
  · rintro ⟨rfl, horg, hcomps⟩
    simp [functionKey, key, p.name_eq, q.name_eq, horg, hcomps]

end PackageId

def BasicBlock.callee? (block : BasicBlock) : Option Callee :=
  match block.terminator with
  | some ⟨_, .call _ c _ _, _, _⟩ => some c
  | _ => none

def Module.callees (m : Module) : List Callee :=
  m.functions.flatMap fun g => g.blocks.filterMap (·.callee?)

theorem transferAt_of_callee? {blocks : List BasicBlock} {c : Callee}
    (h : c ∈ blocks.filterMap (·.callee?)) :
    ∃ l args isVirtual next, transferAt blocks l = some (.call args c isVirtual next) := by
  obtain ⟨block, hblock, hc⟩ := List.mem_filterMap.mp h
  obtain ⟨l, hl⟩ := List.getElem?_of_mem hblock
  unfold BasicBlock.callee? at hc
  split at hc
  next args c' isVirtual next _ _ ht =>
    obtain rfl := Option.some.inj hc
    exact ⟨l, args, isVirtual, next, by simp [transferAt, hl, ht]⟩
  next => cases hc

section Callees

variable {env : Env} {c : Callee} {l next : Label} {args : List Slot} {isVirtual : Bool}

/-- `Invokes env p l args c`: the call at `p` ends block `l`, and calls `c` with what is in `args`. -/
inductive Invokes (env : Env) : Site → Label → List Slot → Callee → Prop
  | call {note qualifier name es here b args l b₁ c} :
    env.callee qualifier name = .ok c → ArgsRun env es here b args l b₁ →
    Invokes env (.expr (.call note qualifier name es) here b ⟨b₁.nextSlot, b₁.nextLabel⟩
      (b₁.call l note args c)) l args c

theorem Splits.invokes {p : Site} {ps : List Site} (h : Splits env p ps) (hrun : ps.Forall (·.Run env))
    (hc : (l, .call args c isVirtual next) ∈ p.closings env ps) :
    isVirtual = false ∧ p.out = some next ∧ Invokes env p l args c := by
  cases h with
  | call hcallee =>
    obtain ⟨rfl, rfl, rfl, rfl, rfl⟩ : l = _ ∧ args = _ ∧ c = _ ∧ isVirtual = false ∧ next = _ := by
      simpa [Site.closings, hcallee] using hc
    exact ⟨rfl, rfl, .call hcallee hrun⟩
  | _ => simp [Site.closings] at hc

theorem FunctionRun.call_origin {stem : String} {f : FunctionDef} {g : Graph}
    (h : FunctionRun env stem f g)
    (ht : transferAt g.blocks l = some (.call args c isVirtual next)) :
    isVirtual = false ∧ ∃ p, SiteOf env stem f g p ∧ p.out = some next ∧ Invokes env p l args c := by
  rcases h.origin ht with hret | ⟨p, ps, hp, hsplits, hrun, hc⟩
  · cases hret
  · obtain ⟨hvirtual, hinvokes⟩ := hsplits.invokes hrun hc
    exact ⟨hvirtual, p, hp, hinvokes⟩

theorem FunctionRun.callee {stem : String} {f : FunctionDef} {g : Graph} (h : FunctionRun env stem f g)
    (ht : transferAt g.blocks l = some (.call args c isVirtual next)) :
    ∃ qualifier name, env.callee qualifier name = .ok c := by
  obtain ⟨-, p, -, -, ⟨hcallee, -⟩⟩ := h.call_origin ht
  exact ⟨_, _, hcallee⟩

namespace Env

variable {qualifier : Option Ident} {a name : Ident}

theorem callee_none : env.callee none name = .ok (.ofName env.package name.name) := rfl

theorem callee_empty (h : a.name = "") :
    env.callee (some a) name = .ok (.ofName env.package name.name) := by
  simp [callee, ImportTable.resolve, Ident.isEmpty, h, bind, Except.bind, pure, Except.pure,
    CallTarget.package]

theorem callee_alias (h : a.name ≠ "") :
    env.callee (some a) name = match env.imports.lookup a.name with
      | some id => .ok (.ofName id name.name)
      | none => .error ⟨.unresolvedImport a.name, a.span⟩ := by
  simp only [callee, ImportTable.resolve, Ident.isEmpty]
  cases env.imports.lookup a.name <;>
    simp [h, bind, Except.bind, pure, Except.pure, CallTarget.package]

theorem callee_eq_ok (h : env.callee qualifier name = .ok c) :
    ∃ id, c = .ofName id name.name ∧ (id = env.package ∨ ∃ a, (a, id) ∈ env.imports) := by
  cases qualifier with
  | none =>
    obtain rfl := Except.ok.inj h
    exact ⟨_, rfl, .inl rfl⟩
  | some a =>
    by_cases ha : a.name = ""
    · rw [callee_empty ha] at h
      obtain rfl := Except.ok.inj h
      exact ⟨_, rfl, .inl rfl⟩
    · rw [callee_alias ha] at h
      split at h
      next id hlookup =>
        obtain rfl := Except.ok.inj h
        obtain ⟨l₁, l₂, hl, -⟩ := List.lookup_eq_some_iff.mp hlookup
        exact ⟨id, rfl, .inr ⟨a.name, by simp [hl]⟩⟩
      next => cases h

theorem callee_key (h : env.callee qualifier name = .ok c) : c.key = c.package.functionKey c.name := by
  obtain ⟨id, rfl, -⟩ := callee_eq_ok h
  rfl

end Env

end Callees

namespace Session

theorem addImport_mem {s : Session} {known : Preamble} {i : Import} {a : String} {id : PackageId}
    (h : (a, id) ∈ (s.addImport known i).2.imports) : (a, id) ∈ known.imports ∨ i.packageId = id := by
  unfold addImport at h
  cases hi : i.effectiveAlias? with
  | none => exact .inl (by simpa [hi] using h)
  | some b =>
    have hmem : (a = b ∧ id = i.packageId) ∨ (a, id) ∈ known.imports := by simpa [hi] using h
    exact hmem.symm.imp_right fun heq => heq.2.symm

theorem addImports_mem {s : Session} {refs : List PackageRef} {imports : List Import} {a : String}
    {id : PackageId} (h : (a, id) ∈ (s.addImports ⟨refs, []⟩ imports).2.imports) :
    ∃ i ∈ imports, i.packageId = id := by
  induction imports using List.reverseRecOn with
  | nil => cases h
  | append_singleton imports i ih =>
    rw [addImports_concat] at h
    rcases addImport_mem h with htable | hid
    · obtain ⟨j, hj, hid⟩ := ih htable
      exact ⟨j, List.mem_append_left _ hj, hid⟩
    · exact ⟨i, List.mem_append_right _ List.mem_cons_self, hid⟩

theorem lower_start {s : Session} {options : Options} {p : Package} {m : Module}
    (h : (s.lower options p).1 = .ok m) :
    ∃ env : Env, env.package = p.id ∧ env.imports = (s.start p).2.imports ∧
      List.Forall₂ (FunctionRun env options.stem) p.functions m.functions := by
  simp only [lower] at h
  split at h
  next => cases h
  next constants hc =>
    refine ⟨⟨p.id, (s.start p).1.context.refKey, constantTable (s.start p).1.context.refKey constants,
      (s.start p).2.imports⟩, rfl, rfl, ?_⟩
    split at h
    next => cases h
    next functions events hrun =>
      obtain rfl := Except.ok.inj h
      obtain ⟨-, -, hruns⟩ := lowerFunctions_agrees.of_ok hrun
      exact hruns

theorem lower_runs {s : Session} {options : Options} {p : Package} {m : Module}
    (h : (s.lower options p).1 = .ok m) :
    ∃ env : Env, env.package = p.id ∧ (∀ a id, (a, id) ∈ env.imports → ∃ i ∈ p.imports, i.packageId = id) ∧
      List.Forall₂ (FunctionRun env options.stem) p.functions m.functions := by
  obtain ⟨env, hpackage, himports, hruns⟩ := lower_start h
  exact ⟨env, hpackage, fun a id hmem => addImports_mem (himports ▸ hmem :), hruns⟩

end Session

/-- Two calls of a package have the same key exactly if they call functions of the same name in
packages of the same organisation and name. The versions may differ. -/
theorem Session.lower_functionKey_inj {s : Session} {options : Options} {p : Package} {m : Module}
    (h : (s.lower options p).1 = .ok m) (hid : p.id.Plain) (himports : ∀ i ∈ p.imports, i.packageId.Plain)
    {c c' : Callee} (hc : c ∈ m.callees) (hc' : c' ∈ m.callees) :
    c.key = c'.key ↔
      c.name = c'.name ∧ c.package.org = c'.package.org ∧ c.package.comps = c'.package.comps := by
  obtain ⟨env, hpackage, htable, hruns⟩ := lower_runs h
  have hcallees : ∀ c ∈ m.callees, c.key = c.package.functionKey c.name ∧ c.package.Plain := by
    intro c hc
    obtain ⟨g, hg, hblocks⟩ := List.mem_flatMap.mp hc
    obtain ⟨l, args, isVirtual, next, ht⟩ := transferAt_of_callee? hblocks
    obtain ⟨hlength, hrun⟩ := List.forall₂_iff_get.mp hruns
    obtain ⟨i, hi, rfl⟩ := List.getElem_of_mem hg
    obtain ⟨qualifier, name, hcallee⟩ := (hrun i (hlength ▸ hi) hi).callee ht
    refine ⟨Env.callee_key hcallee, ?_⟩
    obtain ⟨id, rfl, rfl | ⟨a, hmem⟩⟩ := Env.callee_eq_ok hcallee
    · exact hpackage ▸ hid
    · obtain ⟨i, hi, rfl⟩ := htable a id hmem
      exact himports i hi
  obtain ⟨hkey, hplain⟩ := hcallees c hc
  obtain ⟨hkey', hplain'⟩ := hcallees c' hc'
  rw [hkey, hkey']
  exact hplain.functionKey_inj hplain'

def twoVersions : Package where
  id := .anonymous
  imports := [⟨some ⟨"o", {}⟩, [⟨"p", {}⟩], some ⟨"1.0.0", {}⟩, some ⟨"a", {}⟩, {}⟩,
    ⟨some ⟨"o", {}⟩, [⟨"p", {}⟩], some ⟨"2.0.0", {}⟩, some ⟨"b", {}⟩, {}⟩,
    ⟨some ⟨"o", {}⟩, [⟨"p", {}⟩, ⟨"q", {}⟩], some ⟨"1.0.0", {}⟩, some ⟨"c", {}⟩, {}⟩]
  functions := [⟨⟨"f", {}⟩, [], none, .block (.mk [
    .expr {} (.call {} (some ⟨"a", {}⟩) ⟨"g", {}⟩ []), .expr {} (.call {} (some ⟨"b", {}⟩) ⟨"g", {}⟩ []),
    .expr {} (.call {} (some ⟨"c", {}⟩) ⟨"g", {}⟩ [])] {}), {}⟩]

theorem twoVersions_callees : ∃ m, (({} : Session).lower {} twoVersions).1 = .ok m ∧
    m.callees = [.ofName (.new "o" ["p"] "1.0.0") "g", .ofName (.new "o" ["p"] "2.0.0") "g",
      .ofName (.new "o" ["p", "q"] "1.0.0") "g"] := by
  have h : ((({} : Session).lower {} twoVersions).1.toOption.any fun m => m.callees =
      [.ofName (.new "o" ["p"] "1.0.0") "g", .ofName (.new "o" ["p"] "2.0.0") "g",
        .ofName (.new "o" ["p", "q"] "1.0.0") "g"]) = true := by
    decide +kernel
  cases hm : (({} : Session).lower {} twoVersions).1 with
  | error e => simp [hm, Except.toOption] at h
  | ok m => exact ⟨m, rfl, by simpa [hm, Except.toOption] using h⟩

theorem twoVersions_functionKey : ∃ m, (({} : Session).lower {} twoVersions).1 = .ok m ∧
    ∃ a ∈ m.callees, ∃ b ∈ m.callees, ∃ c ∈ m.callees, a.key = b.key ∧ a.key ≠ c.key := by
  obtain ⟨m, hm, hcallees⟩ := twoVersions_callees
  have hid : twoVersions.id.Plain := by decide
  have himports : ∀ i ∈ twoVersions.imports, i.packageId.Plain := by decide
  have hinj := @Session.lower_functionKey_inj {} {} twoVersions m hm hid himports
  refine ⟨m, hm, .ofName (.new "o" ["p"] "1.0.0") "g", by simp [hcallees],
    .ofName (.new "o" ["p"] "2.0.0") "g", by simp [hcallees],
    .ofName (.new "o" ["p", "q"] "1.0.0") "g", by simp [hcallees], ?_, ?_⟩
  · exact (hinj (by simp [hcallees]) (by simp [hcallees])).mpr ⟨rfl, rfl, rfl⟩
  · intro h
    have hcomps := ((hinj (by simp [hcallees]) (by simp [hcallees])).mp h).2.2
    exact absurd hcomps (by decide)

theorem twoVersions_collide : ∃ m, (({} : Session).lower {} twoVersions).1 = .ok m ∧
    twoVersions.id.Plain ∧ (∀ i ∈ twoVersions.imports, i.packageId.Plain) ∧
    (∀ c ∈ m.callees, ':' ∉ c.name.toList) ∧ (∀ f ∈ twoVersions.functions, ':' ∉ f.name.name.toList) ∧
    ∃ c ∈ m.callees, ∃ c' ∈ m.callees, c.key = c'.key ∧ c.package ≠ c'.package := by
  obtain ⟨m, hm, hcallees⟩ := twoVersions_callees
  refine ⟨m, hm, by decide, by decide, ?_⟩
  rw [hcallees]
  decide

end FlowGraph

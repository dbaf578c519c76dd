import FlowGraph.Proofs.Service
import Mathlib.Data.Finset.Card

/-!
The package identities of a session. Each is stored once, where every query that asks for it finds it,
and there are no others than have been asked for.
-/

namespace FlowGraph

def Import.part (absent : String) : Option Ident → String
  | none => absent
  | some part => if part.name = "" then absent else part.name

def Import.asked (i : Import) : PackageId :=
  .new (part "$anon" i.org) (if i.comps = [] then ["."] else i.comps.map (·.name)) (part "0.0.0" i.version)

theorem Import.getD_given? (absent : String) (x : Option Ident) :
    (given? x).getD absent = part absent x := by
  cases x with
  | none => rfl
  | some x => by_cases h : x.name = "" <;> simp [given?, part, Option.filter, Ident.isEmpty, h]

theorem Import.packageId_eq_asked (i : Import) : i.packageId = i.asked := by
  simp [packageId, asked, PackageId.ofParts, getD_given?, PackageId.anonymousOrg, PackageId.defaultName,
    PackageId.defaultVersion]

def Query.requests : Query → List PackageId
  | .newPackage org comps version =>
    [.new (org.getD "$anon") (if comps = [] then ["."] else comps) (version.getD "0.0.0")]
  | .intern id => [id]
  | .defaultPackage => [.new "$anon" ["."] "0.0.0"]
  | .lower _ p => p.id :: p.imports.map (·.asked)
  | .newSpace | .define _ _ | .narrow _ => []

def Query.granted (q : Query) : Answer → List PackageId
  | .failed _ => []
  | _ => q.requests

theorem Query.granted_package (q : Query) (r : PackageRef) : q.granted (.package r) = q.requests := rfl

theorem Query.granted_lowered (q : Query) (m : Module) : q.granted (.lowered m) = q.requests := rfl

def Answer.refs : Answer → List PackageRef
  | .package ref => [ref]
  | .lowered m => m.refs
  | _ => []

namespace Context

/-- From `c` to `c'` the identities `ids` are stored, unless they are there, and no others. -/
structure Stores (c : Context) (ids : List PackageId) (c' : Context) : Prop where
  isPrefix : c.packages <+: c'.packages
  mem_iff : ∀ id, id ∈ c'.packages ↔ id ∈ c.packages ∨ id ∈ ids
  nodup : c.packages.Nodup → c'.packages.Nodup

def Places (c : Context) : List PackageRef → List PackageId → Prop :=
  List.Forall₂ fun r id => c.package? r = some id

variable {c c' c'' : Context} {id : PackageId} {ids ids' : List PackageId}

theorem Places.exists_of_mem {refs : List PackageRef} {r : PackageRef} (h : c.Places refs ids)
    (hr : r ∈ refs) : ∃ id, c.package? r = some id := by
  induction h with
  | nil => cases hr
  | cons hfirst _ ih =>
    rcases List.mem_cons.mp hr with rfl | hr
    · exact ⟨_, hfirst⟩
    · exact ih hr

theorem ref_eq_iff (h : c.packages.Nodup) {r r' : PackageRef} {id id' : PackageId}
    (hr : c.package? r = some id) (hr' : c.package? r' = some id') :
    r = r' ↔ id.org = id'.org ∧ id.comps = id'.comps ∧ id.version = id'.version := by
  have heq : r = r' ↔ id = id' := by
    constructor
    · rintro rfl
      exact Option.some.inj (hr.symm.trans hr')
    · rintro rfl
      exact (List.getElem?_inj (List.getElem?_eq_some_iff.mp hr).1 h).mp (hr.trans hr'.symm)
  rw [heq, PackageId.eq_iff]

theorem Places.eq {refs refs' : List PackageRef} (hc : c.packages.Nodup) (h : c.Places refs ids)
    (h' : c.Places refs' ids) : refs = refs' := by
  induction h generalizing refs' with
  | nil =>
    cases h'
    rfl
  | cons hr _ ih =>
    cases h' with
    | cons hr' hrest' =>
      rw [(ref_eq_iff hc hr hr').mpr ⟨rfl, rfl, rfl⟩, ih hrest']

theorem Stores.of_eq (h : c'.packages = c.packages) (hids : ∀ id ∈ ids, id ∈ c.packages) :
    Stores c ids c' := by
  refine ⟨by rw [h], fun id => ?_, by rw [h]; exact fun h => h⟩
  rw [h]
  exact ⟨.inl, fun hid => hid.elim (fun h => h) (hids id)⟩

theorem Stores.trans (h : Stores c ids c') (h' : Stores c' ids' c'') : Stores c (ids ++ ids') c'' := by
  refine ⟨h.isPrefix.trans h'.isPrefix, fun id => ?_, fun hc => h'.nodup (h.nodup hc)⟩
  rw [h'.mem_iff, h.mem_iff, List.mem_append, or_assoc]

theorem Stores.package? (h : Stores c ids c') {r : PackageRef} (hr : c.package? r = some id) :
    c'.package? r = some id := by
  obtain ⟨rest, hrest⟩ := h.isPrefix
  rw [Context.package?, ← hrest, List.getElem?_append_left (List.getElem?_eq_some_iff.mp hr).1]
  exact hr

theorem Stores.places {refs : List PackageRef} (h : Stores c ids c') (hrefs : c.Places refs ids') :
    c'.Places refs ids' :=
  hrefs.imp fun _ _ => h.package?

theorem stores_intern (c : Context) (id : PackageId) : Stores c [id] (c.intern id).2 := by
  by_cases hid : id ∈ c.packages
  · exact .of_eq (by simp [intern, hid]) (by simpa using hid)
  · refine ⟨by simp [intern, hid], fun id' => by simp [intern, hid], fun hc => ?_⟩
    have hne : ∀ a ∈ c.packages, a ≠ id := fun a ha heq => hid (heq ▸ ha)
    simpa [intern, hid, List.nodup_append, hc] using hne

theorem package?_intern (c : Context) (id : PackageId) :
    (c.intern id).2.package? (c.intern id).1 = some id := by
  by_cases hid : id ∈ c.packages
  · simp [package?, intern, hid]
  · simp [package?, intern, hid]

theorem stores_internAll (c : Context) (ids : List PackageId) : Stores c ids (c.internAll ids).2 := by
  induction ids generalizing c with
  | nil => exact .of_eq rfl (by simp)
  | cons id ids ih => exact (c.stores_intern id).trans (ih _)

theorem places_internAll (c : Context) (ids : List PackageId) :
    (c.internAll ids).2.Places (c.internAll ids).1 ids := by
  induction ids generalizing c with
  | nil => exact .nil
  | cons id ids ih =>
    exact .cons ((stores_internAll _ ids).package? (c.package?_intern id)) (ih (c.intern id).2)

theorem internAll_of_mem (h : ∀ id ∈ ids, id ∈ c.packages) : (c.internAll ids).2 = c := by
  induction ids with
  | nil => rfl
  | cons id ids ih =>
    have hid : (c.intern id).2 = c := by simp [intern, h id List.mem_cons_self]
    simp only [internAll, hid]
    exact ih fun id hid => h id (List.mem_cons_of_mem _ hid)

theorem define_packages {space : Nat} {name : String} {x : Symbol} (h : c.define space name = .ok (x, c')) :
    c'.packages = c.packages := by
  unfold define at h
  split at h <;> cases h
  rfl

theorem narrow_packages {base x : Symbol} (h : c.narrow base = .ok (x, c')) : c'.packages = c.packages := by
  obtain ⟨name, d, -, hd, rfl⟩ := define_of_narrow h
  exact (define_packages hd :)

end Context

def Session.Based (s : Session) : Prop := [.anonymous] <+: s.context.packages

theorem Query.requests_newPackage (org : Option String) (comps : List String) (version : Option String) :
    (newPackage org comps version).requests = [.ofParts org comps version] := by
  simp [requests, PackageId.ofParts, PackageId.anonymousOrg, PackageId.defaultName, PackageId.defaultVersion]

theorem Query.requests_lower (options : Options) (p : Package) :
    (lower options p).requests = p.id :: p.imports.map (·.packageId) := by
  simp [requests, Import.packageId_eq_asked]

namespace Answered

variable {s s' : Session} {q : Query} {a : Answer}

theorem stores (h : Answered s q a s') (hs : s.Based) : s.context.Stores q.requests s'.context := by
  have hnone : ∀ id ∈ ([] : List PackageId), id ∈ s.context.packages := by simp
  cases h with
  | newSpace | undefined | unnarrowed => exact .of_eq rfl hnone
  | define h => exact .of_eq (Context.define_packages h) hnone
  | narrow h => exact .of_eq (Context.narrow_packages h) hnone
  | newPackage =>
    rw [Query.requests_newPackage]
    exact s.context.stores_intern _
  | intern => exact s.context.stores_intern _
  | defaultPackage => exact .of_eq rfl (List.forall_mem_singleton.mpr (hs.subset List.mem_cons_self))
  | lowered h | failed h =>
    rw [Query.requests_lower, s.lower_context h]
    exact s.context.stores_internAll _

theorem places (h : Answered s q a s') (hs : s.Based) : s'.context.Places a.refs (q.granted a) := by
  cases h with
  | newSpace | define | undefined | narrow | unnarrowed | failed => exact .nil
  | newPackage =>
    rw [Query.granted_package, Query.requests_newPackage]
    exact .cons (s.context.package?_intern _) .nil
  | intern => exact .cons (s.context.package?_intern _) .nil
  | defaultPackage =>
    obtain ⟨rest, hrest⟩ := hs
    refine .cons ?_ .nil
    rw [Context.package?, ← hrest]
    rfl
  | lowered h =>
    obtain ⟨-, -, hrefs⟩ := Session.lower_identities (congrArg Prod.fst h)
    rw [Query.granted_lowered, Query.requests_lower, s.lower_context h, Answer.refs, hrefs,
      (s.start_interned _).2]
    exact s.context.places_internAll _

theorem identities {m : Module} (h : Answered s q (.lowered m) s') :
    m.id :: m.imports = q.requests := by
  cases h with
  | lowered h =>
    obtain ⟨hid, himports, -⟩ := Session.lower_identities (congrArg Prod.fst h)
    rw [hid, himports, Query.requests_lower]

theorem refKey_eq (h : Answered s q a s') (hq : ∀ base, q ≠ .narrow base) :
    s'.context.refKey = s.context.refKey := by
  cases h with
  | newSpace | undefined | unnarrowed | defaultPackage => rfl
  | define h =>
    funext x
    rw [Context.refKey, (Context.define_spec h).1]
    rfl
  | narrow => exact absurd rfl (hq _)
  | newPackage | intern => exact s.context.intern_refKey _
  | lowered h | failed h =>
    rw [s.lower_context h]
    exact s.context.internAll_refKey _

end Answered

namespace Session

def transcript (s : Session) : List Query → List (Query × Answer)
  | [] => []
  | q :: qs => (q, (q.answer s).1) :: (q.answer s).2.transcript qs

variable {s : Session}

theorem Based.answer (hs : s.Based) (q : Query) : (q.answer s).2.Based :=
  List.IsPrefix.trans hs ((q.answered s).stores hs).isPrefix

theorem serve_stores (hs : s.Based) (qs : List Query) :
    s.context.Stores (qs.flatMap (·.requests)) (s.serve qs).context := by
  induction qs generalizing s with
  | nil => exact .of_eq rfl (by simp)
  | cons q qs ih =>
    rw [List.flatMap_cons]
    exact ((q.answered s).stores hs).trans (ih (hs.answer q))

theorem transcript_places (hs : s.Based) (qs : List Query) :
    ∀ x ∈ s.transcript qs, (s.serve qs).context.Places x.2.refs (x.1.granted x.2) := by
  induction qs generalizing s with
  | nil => simp [transcript]
  | cons q qs ih =>
    intro x hx
    rcases List.mem_cons.mp hx with rfl | hx
    · exact (serve_stores (hs.answer q) qs).places ((q.answered s).places hs)
    · exact ih (hs.answer q) x hx

theorem transcript_identities (qs : List Query) :
    ∀ x ∈ s.transcript qs, ∀ m, x.2 = .lowered m → m.id :: m.imports = x.1.requests := by
  induction qs generalizing s with
  | nil => simp [transcript]
  | cons q qs ih =>
    intro x hx m hm
    rcases List.mem_cons.mp hx with rfl | hx
    · have h := q.answered s
      rw [show (q.answer s).1 = .lowered m from hm] at h
      exact h.identities
    · exact ih x hx m hm

theorem serve_refKey {qs : List Query} (h : ∀ base, .narrow base ∉ qs) :
    (s.serve qs).context.refKey = s.context.refKey := by
  induction qs generalizing s with
  | nil => rfl
  | cons q qs ih =>
    have hrest := @ih (q.answer s).2 fun base hmem => h base (List.mem_cons_of_mem _ hmem)
    rw [serve_cons, hrest]
    exact (q.answered s).refKey_eq fun base hq => h base (hq ▸ List.mem_cons_self)

theorem lower_again (hs : s.Based) (hnodup : s.context.packages.Nodup) (options options' : Options)
    (p : Package) (qs : List Query) :
    let t := (s.lower options p).2.serve qs
    (t.lower options' p).2.context = t.context ∧
    ((∀ base, .narrow base ∉ qs) → (t.lower options p).1 = (s.lower options p).1) := by
  intro t
  have hbased : (s.lower options p).2.Based := Query.answer_lower_snd options p s ▸ hs.answer _
  have hstores := serve_stores hbased qs
  have hfirst := s.context.stores_internAll (p.id :: p.imports.map (·.packageId))
  rw [← s.lower_context (Prod.eta _).symm] at hfirst
  have hstored : ∀ id ∈ p.id :: p.imports.map (·.packageId), id ∈ t.context.packages :=
    fun id hid => (hstores.mem_iff id).mpr (.inl ((hfirst.mem_iff id).mpr (.inr hid)))
  have hcontext : (t.lower options' p).2.context = t.context := by
    rw [t.lower_context (Prod.eta _).symm]
    exact Context.internAll_of_mem hstored
  refine ⟨hcontext, fun hqs => ?_⟩
  have hkeys : t.context.refKey = s.context.refKey := by
    rw [serve_refKey hqs, s.lower_context (Prod.eta _).symm]
    exact s.context.internAll_refKey _
  have hrefs : (t.start p).2.refs = (s.start p).2.refs := by
    rw [(t.start_interned p).2, (s.start_interned p).2]
    have hplaces := t.context.places_internAll (p.id :: p.imports.map (·.packageId))
    rw [Context.internAll_of_mem hstored] at hplaces
    refine hplaces.eq (hstores.nodup (hfirst.nodup hnodup)) (hstores.places ?_)
    rw [s.lower_context (Prod.eta _).symm]
    exact s.context.places_internAll _
  rw [lower_fst, lower_fst, hkeys, hrefs]

/-- After any queries from the start, each identity that was handed out is stored, as it was asked for,
where the answer said. Identities are in one place just if they are equal, and there are as many as
have been asked for, the anonymous one included. To lower a package again changes nothing, and as long
as no symbol is narrowed it comes to the same. -/
theorem serve_packages (qs : List Query) :
    let s := ({} : Session).serve qs
    (∀ x ∈ ({} : Session).transcript qs,
      List.Forall₂ (fun r id => s.context.package? r = some id) x.2.refs (x.1.granted x.2) ∧
      ∀ m, x.2 = .lowered m → m.id :: m.imports = x.1.requests) ∧
    (∀ x ∈ ({} : Session).transcript qs, ∀ y ∈ ({} : Session).transcript qs, ∀ r ∈ x.2.refs, ∀ r' ∈ y.2.refs,
      ∃ id id', s.context.package? r = some id ∧ s.context.package? r' = some id' ∧
        (r = r' ↔ id.org = id'.org ∧ id.comps = id'.comps ∧ id.version = id'.version)) ∧
    s.context.packageCount = (PackageId.anonymous :: qs.flatMap (·.requests)).toFinset.card ∧
    ∀ options options' p qs', let t := (s.lower options p).2.serve qs'
      (t.lower options' p).2.context = t.context ∧
      ((∀ base, .narrow base ∉ qs') → (t.lower options p).1 = (s.lower options p).1) := by
  intro s
  have hbased : ({} : Session).Based := List.prefix_refl _
  have hstores := serve_stores hbased qs
  have hnodup : s.context.packages.Nodup := hstores.nodup (List.nodup_singleton _)
  have hplaces := transcript_places hbased qs
  refine ⟨fun x hx => ⟨hplaces x hx, transcript_identities qs x hx⟩, fun x hx y hy r hr r' hr' => ?_, ?_,
    fun options options' p qs' => lower_again ?_ hnodup options options' p qs'⟩
  · obtain ⟨id, hid⟩ := (hplaces x hx).exists_of_mem hr
    obtain ⟨id', hid'⟩ := (hplaces y hy).exists_of_mem hr'
    exact ⟨id, id', hid, hid', Context.ref_eq_iff hnodup hid hid'⟩
  · rw [Context.packageCount, ← List.toFinset_card_of_nodup hnodup]
    congr 1
    ext id
    rw [List.mem_toFinset, List.mem_toFinset, hstores.mem_iff, List.mem_cons]
    simp
  · exact List.IsPrefix.trans hbased hstores.isPrefix

end Session

def importingTwice (functions : List FunctionDef) : Package where
  id := .new "o" ["p"] "0.0.0"
  imports := [⟨some ⟨"", {}⟩, [⟨"q", {}⟩], some ⟨"", {}⟩, none, {}⟩,
    ⟨none, [⟨"q", {}⟩], none, some ⟨"a", {}⟩, {}⟩]
  functions := functions

def importing : List Query :=
  [.newPackage (some "o") ["p"] none, .lower {} (importingTwice [⟨⟨"f", {}⟩, [], none, .external, {}⟩]),
    .newPackage (some "") [] none, .intern (.new "$anon" ["q"] "0.0.0"), .defaultPackage,
    .lower {} (importingTwice [])]

theorem importing_packages :
    let s := ({} : Session).serve importing
    s.context.packageCount = 4 ∧
    (({} : Session).transcript importing).map (·.2.refs) = [[1], [], [3], [2], [0], [1, 2, 2]] ∧
    (∃ id id', s.context.package? 3 = some id ∧ s.context.package? 2 = some id' ∧
      ¬ (id.org = id'.org ∧ id.comps = id'.comps ∧ id.version = id'.version)) ∧
    let t := (s.lower {} (importingTwice [])).2.serve [.newSpace]
    (t.lower {} (importingTwice [])).2.context = t.context ∧
    (t.lower {} (importingTwice [])).1 = (s.lower {} (importingTwice [])).1 := by
  obtain ⟨-, hshared, hcount, hagain⟩ := Session.serve_packages importing
  have hrefs : (({} : Session).transcript importing).map (·.2.refs) = [[1], [], [3], [2], [0], [1, 2, 2]] := by
    decide +kernel
  have hmem {refs} (h : refs ∈ [[1], [], [3], [2], [0], [1, 2, 2]]) :
      ∃ x ∈ ({} : Session).transcript importing, x.2.refs = refs :=
    List.mem_map.mp (hrefs ▸ h)
  obtain ⟨x, hx, hxr⟩ := @hmem [3] (by simp)
  obtain ⟨y, hy, hyr⟩ := @hmem [1, 2, 2] (by simp)
  obtain ⟨id, id', hid, hid', hiff⟩ := hshared x hx y hy 3 (by simp [hxr]) 2 (by simp [hyr])
  obtain ⟨hcontext, hresult⟩ := hagain {} {} (importingTwice []) [.newSpace]
  refine ⟨hcount.trans (by decide), hrefs, ⟨id, id', hid, hid', mt hiff.mpr (by decide)⟩, hcontext,
    hresult (by simp)⟩

end FlowGraph

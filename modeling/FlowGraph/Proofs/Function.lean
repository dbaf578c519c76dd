import FlowGraph.Proofs.Outcome

/-!
The runs of lowering a function. The builder starts with the slot of the result and those of the
parameters; when the body is lowered, no block is open.
-/

namespace FlowGraph

open Builder Build

namespace Builder

@[simps stem blocks locals scopes loops]
def start (stem : String) (returnTy : Option Ty) : Builder where
  stem := stem
  locals := { vars := [.ofName "%0" returnTy .result] }

theorem start_sound (stem : String) (returnTy : Option Ty) : (start stem returnTy).Sound where
  result := ⟨_, rfl, rfl⟩
  bound := by simp
  distinct := by simp
  blocks := by simp
  scopes := ⟨by simp [List.getElem?_singleton], by simp [List.getElem?_singleton], by simp⟩
  loops := by simp

def addParams (refKey : Symbol → Symbol) : List Param → Builder → Builder
  | [], b => b
  | p :: params, b =>
    addParams refKey params (b.addBound p.name.name p.ty .argument (refKey p.symbol))

variable {refKey : Symbol → Symbol} {params : List Param} {b : Builder}

theorem addParams_steps : Steps b (b.addParams refKey params) := by
  induction params generalizing b with
  | nil => exact .refl
  | cons p params ih => exact .head (.addBound (.inl rfl)) ih

theorem addParams_blocks : (b.addParams refKey params).blocks = b.blocks := by
  induction params generalizing b with
  | nil => rfl
  | cons p params ih => exact ih

theorem addParams_loops : (b.addParams refKey params).loops = b.loops := by
  induction params generalizing b with
  | nil => rfl
  | cons p params ih => exact ih

theorem addParams_scopes : (b.addParams refKey params).scopes = b.scopes := by
  induction params generalizing b with
  | nil => rfl
  | cons p params ih => exact ih

theorem addParams_keys :
    (b.addParams refKey params).keys = (params.map fun p => refKey p.symbol).reverse ++ b.keys := by
  induction params generalizing b with
  | nil => rfl
  | cons p params ih =>
    rw [addParams, ih]
    simp [Builder.keys, Locals.bind]

theorem addParams_mem {i : Nat} {p : Param} (h : params[i]? = some p) :
    (refKey p.symbol, b.nextSlot + i) ∈ (b.addParams refKey params).locals.bindings := by
  induction params generalizing b i with
  | nil => simp at h
  | cons q params ih =>
    rw [addParams]
    cases i with
    | zero =>
      obtain rfl : q = p := by simpa using h
      have hmem : (refKey q.symbol, b.nextSlot) ∈
          (b.addBound q.name.name q.ty .argument (refKey q.symbol)).locals.bindings := by
        simp [Locals.bind]
      exact addParams_steps.grows.bindings.subset hmem
    | succ i =>
      have hmem := ih (b := b.addBound q.name.name q.ty .argument (refKey q.symbol)) (i := i)
        (by simpa using h)
      simpa [Nat.add_assoc, Nat.add_comm 1] using hmem

theorem isTemporary_of_addParams {s : Slot} (h : (b.addParams refKey params).locals.IsTemporary s) :
    b.locals.IsTemporary s := by
  induction params generalizing b with
  | nil => exact h
  | cons p params ih => exact isTemporary_of_addBound (.inl rfl) (ih h)

theorem lowerParams_run {env : Env} :
    lowerParams env params b =
      .ok (List.range' b.nextSlot params.length) (b.addParams env.refKey params) := by
  induction params generalizing b with
  | nil => rfl
  | cons p params ih =>
    rw [lowerParams, bind_run allocateBound_run, bind_run ih]
    simp [addParams, List.range'_succ]
    rfl

theorem addParams_isArgument {s : Slot} (hs : s ∈ List.range' b.nextSlot params.length) :
    ∃ v, (b.addParams refKey params).locals.vars[s]? = some v ∧ v.kind = .argument := by
  induction params generalizing b with
  | nil => simp at hs
  | cons p params ih =>
    rw [List.length_cons, List.range'_succ, List.mem_cons] at hs
    rcases hs with rfl | hs
    · have hv : (b.addBound p.name.name p.ty .argument (refKey p.symbol)).locals.vars[b.nextSlot]? =
          some (.ofName p.name.name p.ty .argument) := List.getElem?_concat_length
      rw [addParams]
      exact ⟨_, addParams_steps.grows.var hv, rfl⟩
    · refine ih ?_
      simpa using hs

end Builder

def Env.enter (env : Env) (stem : String) (f : FunctionDef) : Builder :=
  (start stem f.returnTy).addParams env.refKey f.params

namespace Env

variable (env : Env) (stem : String) (f : FunctionDef)

theorem enter_sound : (env.enter stem f).Sound := addParams_steps.sound (start_sound _ _)

theorem enter_blocks : (env.enter stem f).blocks = [] := addParams_blocks

theorem enter_scopes : (env.enter stem f).scopes = {} := addParams_scopes

theorem enter_keys : (env.enter stem f).keys = (f.params.map fun p => env.refKey p.symbol).reverse :=
  addParams_keys.trans (List.append_nil _)

theorem enter_isArgument {s : Slot} (hs : s ∈ List.range' 1 f.params.length) :
    ∃ v, (env.enter stem f).locals.vars[s]? = some v ∧ v.kind = .argument :=
  addParams_isArgument hs

theorem enter_mem {i : Nat} {p : Param} (h : f.params[i]? = some p) :
    (env.refKey p.symbol, 1 + i) ∈ (env.enter stem f).locals.bindings := addParams_mem h

theorem enter_not_isTemporary (s : Slot) : ¬ (env.enter stem f).locals.IsTemporary s := by
  intro h
  obtain ⟨v, hv, hk⟩ := isTemporary_of_addParams h
  simp only [start_locals, List.getElem?_singleton] at hv
  grind [Variable.ofName]

theorem enter_loop? : (env.enter stem f).loop? = none := by
  simp [Env.enter, Builder.loop?, addParams_loops]

end Env

inductive BodyRun (env : Env) : Body → Builder → Builder → Prop
  | leaves {body b b'} :
    StmtsRun env body.stmts b.nextLabel b.grow none b' → BodyRun env (.block body) b b'
  | fallsOff {body b last b'} :
    StmtsRun env body.stmts b.nextLabel b.grow (some last) b' →
    BodyRun env (.block body) b (b'.close last none .ret body.span)
  | expr {value b r b'} :
    ExprRun env value b.nextLabel b.grow r b' → BodyRun env (.expr value) b (b'.result r value.span)

theorem BodyRun.region {env : Env} {body : Body} {b b' : Builder} (h : BodyRun env body b b')
    (hb : b.Sound) : Region b.grow b.nextLabel b' fun _ => False := by
  have hb' : b.grow.Sound := (Step.grow b).sound hb
  have ho : b.grow.IsOpen b.nextLabel := isOpen_grow.mpr (.inr rfl)
  cases h with
  | leaves h => exact (h.region hb' ho).congr (by simp)
  | @fallsOff _ _ last b₁ h =>
    have h₁ : Region b.grow b.nextLabel b₁ (· = last) := (h.region hb' ho).congr (by grind)
    exact (h₁.leave (by simp [Transfer.sources]) (by simp [Transfer.successors])).congr (by simp)
  | expr h => exact ((h.evaluation hb' ho).result hb').congr (by simp)

theorem BodyRun.not_isOpen {env : Env} {body : Body} {b b' : Builder} (h : BodyRun env body b b')
    (hb : b.Sound) (hblocks : b.blocks = []) (l : Label) : ¬ b'.IsOpen l := by
  have hopens := (h.region hb).opens l
  rw [isOpen_grow] at hopens
  simp_all [OpenAt]

def Builder.graph (b : Builder) (env : Env) (f : FunctionDef) : Graph where
  name := f.name.name
  key := env.package.functionKey f.name.name
  span := f.span
  returnTy := f.returnTy
  params := List.range' 1 f.params.length
  locals := b.locals.vars
  blocks := b.blocks
  scopes := b.scopes.scopes

/-- `FunctionRun env stem f g`: lowering `f` gives `g`. -/
def FunctionRun (env : Env) (stem : String) (f : FunctionDef) (g : Graph) : Prop :=
  ∃ b, BodyRun env f.body (env.enter stem f) b ∧ g = b.graph env f

theorem Builder.finish_of_not_isOpen {b : Builder} (h : ∀ l, ¬ b.IsOpen l) :
    b.finish = .ok ⟨b.locals.vars, b.blocks, b.scopes.scopes⟩ := by
  have hnone : b.blocks.find? (·.isOpen) = none := by
    refine List.find?_eq_none.mpr fun block hmem hopen => ?_
    obtain ⟨l, hl⟩ := List.getElem?_of_mem hmem
    exact h l ⟨block, hl, by simpa [BasicBlock.isOpen] using hopen⟩
  rw [Builder.finish, hnone]

theorem lowerBody_agrees {env : Env} {f : FunctionDef} {b : Builder} {keys : List Symbol}
    (hb : b.Sound) (hk : b.keys = keys) (hl : b.loop? = none) :
    Agrees (lowerBody env f) b
      (match f.body with
      | .block body => discard (env.names.checkStmts false keys body.stmts)
      | .expr value => env.names.checkExpr keys value
      | .external =>
        .error ⟨.unsupportedBody f.name.name "external functions have no body to lower", f.span⟩)
      fun _ b' _ => BodyRun env f.body b b' := by
  have hb' : b.grow.Sound := (Step.grow b).sound hb
  have ho : b.grow.IsOpen b.nextLabel := isOpen_grow.mpr (.inr rfl)
  have hl' : b.grow.loop?.isSome = false := by
    rw [Builder.loop?, grow_loops, ← Builder.loop?, hl]
    rfl
  rw [lowerBody]
  cases f.body with
  | block body =>
    refine .run addBlock_run ?_
    refine Agrees.bind (lowerStmts_agrees hb' ho hk hl') ?_
    rintro out b₁ keys' ⟨hrun, -, -⟩
    cases out with
    | none => exact ⟨_, _, rfl, .leaves hrun⟩
    | some last =>
      have hlast := (hrun.region hb' ho).isOpen rfl
      exact ⟨_, _, terminate_run hlast, .fallsOff hrun⟩
  | expr value =>
    refine .run addBlock_run ?_
    refine (lowerExpr_agrees hb' ho hk).andThen ?_
    intro r b₁ _ hrun
    exact ⟨_, _, lowerResult_run (hrun.evaluation hb' ho).open_last, .expr hrun⟩
  | external => exact ⟨b, rfl⟩

theorem lowerFunction_agrees {env : Env} {stem : String} {f : FunctionDef} :
    Agrees (lowerFunction env f) { stem := stem } (env.names.checkFunction f)
      fun g _ _ => FunctionRun env stem f g := by
  have hstart : allocate "%0" f.returnTy .result { stem := stem } = .ok 0 (start stem f.returnTy) := rfl
  refine .run hstart (.run lowerParams_run ?_)
  have hb := env.enter_sound stem f
  refine (lowerBody_agrees hb (env.enter_keys stem f) (env.enter_loop? stem f)).andThen ?_
  intro _ b₁ _ hrun
  have hfinish := finish_of_not_isOpen (hrun.not_isOpen hb (env.enter_blocks stem f))
  have hparts : orFail b₁.finish b₁ = .ok ⟨b₁.locals.vars, b₁.blocks, b₁.scopes.scopes⟩ b₁ := by
    rw [hfinish]
    rfl
  have hget : (get : Build Builder) b₁ = .ok b₁ b₁ := rfl
  exact ⟨_, _, (bind_run hget).trans ((bind_run hparts).trans rfl), b₁, hrun, rfl⟩

theorem lowerFunction_run {env : Env} {stem : String} {f : FunctionDef} {g : Graph} {b : Builder}
    (h : lowerFunction env f { stem := stem } = .ok g b) : FunctionRun env stem f g := by
  obtain ⟨-, -, hrun⟩ := lowerFunction_agrees.of_ok h
  exact hrun

theorem lowerFunction_of_check {env : Env} {f : FunctionDef} (stem : String)
    (h : env.names.checkFunction f = .ok ()) :
    ∃ g b, lowerFunction env f { stem := stem } = .ok g b := by
  have hf := @lowerFunction_agrees env stem f
  rw [h] at hf
  obtain ⟨g, b, hg, -⟩ := hf
  exact ⟨g, b, hg⟩

def Env.lowersTo (env : Env) (stem : String) (f : FunctionDef) (test : Graph → Bool) : Bool :=
  match lowerFunction env f { stem := stem } with
  | .ok g _ => test g
  | .error _ _ => false

theorem Env.exists_of_lowersTo {env : Env} {stem : String} {f : FunctionDef} {test : Graph → Bool}
    (h : env.lowersTo stem f test = true) :
    ∃ g b, lowerFunction env f { stem := stem } = .ok g b ∧ test g = true := by
  unfold Env.lowersTo at h
  split at h
  next g b hg => exact ⟨g, b, hg, h⟩
  next => cases h

end FlowGraph

import FlowGraph.Lowering.Package
import FlowGraph.Proofs.Outcome
import Mathlib.Logic.Function.Basic

/-!
Lowering under other reference keys. If each key is replaced, and different ones by different ones,
then lowering does the same: it reports the same, fails with the same error or builds the same tables.
-/

namespace FlowGraph

open Build

variable {f : Symbol → Symbol} {α β : Type}

def renameKeys (f : Symbol → Symbol) (xs : List (Symbol × α)) : List (Symbol × α) :=
  xs.map fun x => (f x.1, x.2)

theorem lookup_renameKeys (hf : Function.Injective f) (xs : List (Symbol × α)) (key : Symbol) :
    (renameKeys f xs).lookup (f key) = xs.lookup key := by
  induction xs with
  | nil => rfl
  | cons x xs ih =>
    obtain ⟨k, a⟩ := x
    change ((f k, a) :: renameKeys f xs).lookup (f key) = _
    have hk : (f key == f k) = (key == k) := by simp [hf.eq_iff]
    rw [List.lookup_cons, List.lookup_cons, hk, ih]

def Builder.rename (f : Symbol → Symbol) (b : Builder) : Builder :=
  { b with locals := { b.locals with bindings := renameKeys f b.locals.bindings } }

def Env.rename (f : Symbol → Symbol) (env : Env) : Env :=
  { env with refKey := f ∘ env.refKey, constants := renameKeys f env.constants }

theorem Env.constant?_rename (hf : Function.Injective f) (env : Env) (key : Symbol) :
    (env.rename f).constant? (f key) = env.constant? key := lookup_renameKeys hf _ _

def renameResult (f : Symbol → Symbol) : EStateM.Result Error Builder α → EStateM.Result Error Builder α
  | .ok a b => .ok a (b.rename f)
  | .error e b => .error e (b.rename f)

structure Renames (f : Symbol → Symbol) (x y : Build α) : Prop where
  run : ∀ b : Builder, y (b.rename f) = renameResult f (x b)

namespace Renames

variable {x y : Build α} {l m : Label} {span : Span}

theorem pure (a : α) : Renames f (pure a) (pure a) := ⟨fun _ => rfl⟩

theorem bind {g h : α → Build β} (hx : Renames f x y) (hg : ∀ a, Renames f (g a) (h a)) :
    Renames f (x >>= g) (y >>= h) := by
  constructor
  intro b
  have hb := hx.run b
  cases hr : x b with
  | ok a b' =>
    rw [hr] at hb
    rw [bind_run hr, bind_run hb]
    exact (hg a).run b'
  | error e b' =>
    rw [hr] at hb
    rw [bind_fail hr, bind_fail hb]
    rfl

theorem fail (cause : Cause) (span : Span) : Renames f (fail cause span : Build α) (fail cause span) :=
  ⟨fun _ => rfl⟩

theorem step {g : Builder → Except Error (α × Builder)}
    (h : ∀ b : Builder, g (b.rename f) = (g b).map fun r => (r.1, r.2.rename f)) :
    Renames f (Build.step g) (Build.step g) := by
  constructor
  intro b
  unfold Build.step
  rw [h b]
  cases g b <;> rfl

theorem orFail (r : Except Error α) : Renames f (Build.orFail r) (Build.orFail r) :=
  step fun b => by cases r <;> rfl

theorem updateOpen {g : Builder → BasicBlock → BasicBlock} (hg : ∀ b : Builder, g (b.rename f) = g b)
    (l : Label) :
    Renames f (Build.step fun b => (b.updateOpen l (g b)).map ((), ·))
      (Build.step fun b => (b.updateOpen l (g b)).map ((), ·)) := by
  refine step fun b => ?_
  have hblock : (b.rename f).block? l = b.block? l := rfl
  unfold Builder.updateOpen
  rw [hblock, hg]
  cases b.block? l with
  | none => rfl
  | some block =>
    by_cases h : block.isOpen
    · simp only [h, if_true]
      rfl
    · simp only [h]
      rfl

theorem emit (l : Label) (dst : Slot) (op : Operation) (span : Span) :
    Renames f (Build.emit l dst op span) (Build.emit l dst op span) := updateOpen (fun _ => rfl) l

theorem terminate (l : Label) (dst : Option Slot) (t : Transfer) (span : Span) :
    Renames f (Build.terminate l dst t span) (Build.terminate l dst t span) :=
  updateOpen (fun _ => rfl) l

theorem goto (l target : Label) (span : Span) :
    Renames f (Build.goto l target span) (Build.goto l target span) := terminate ..

theorem addBlock : Renames f Build.addBlock Build.addBlock := ⟨fun _ => rfl⟩

theorem allocate (name : String) (ty : Option Ty) (kind : VarKind) :
    Renames f (Build.allocate name ty kind) (Build.allocate name ty kind) := ⟨fun _ => rfl⟩

theorem temporary (ty : Option Ty) : Renames f (Build.temporary ty) (Build.temporary ty) := ⟨fun _ => rfl⟩

theorem allocateBound (name : String) (ty : Option Ty) (kind : VarKind) (key : Symbol) :
    Renames f (Build.allocateBound name ty kind key) (Build.allocateBound name ty kind (f key)) :=
  ⟨fun _ => rfl⟩

theorem lookup? (hf : Function.Injective f) (key : Symbol) :
    Renames f (Build.lookup? key) (Build.lookup? (f key)) := by
  constructor
  intro b
  have hlookup : (b.rename f).locals.lookup? (f key) = b.locals.lookup? key := lookup_renameKeys hf _ _
  change EStateM.Result.ok _ _ = EStateM.Result.ok _ _
  rw [hlookup]

theorem loop? : Renames f Build.loop? Build.loop? := ⟨fun _ => rfl⟩

theorem enterScope : Renames f Build.enterScope Build.enterScope := ⟨fun _ => rfl⟩

theorem exitScope : Renames f Build.exitScope Build.exitScope := ⟨fun _ => rfl⟩

theorem pushLoop (frame : LoopFrame) : Renames f (Build.pushLoop frame) (Build.pushLoop frame) :=
  ⟨fun _ => rfl⟩

theorem popLoop : Renames f Build.popLoop Build.popLoop := by
  refine step fun b => ?_
  have hloops : (b.rename f).loops = b.loops := rfl
  unfold Builder.popLoop
  rw [hloops]
  cases b.loops <;> rfl

theorem compute (l : Label) (ty : Option Ty) (op : Operation) (span : Span) :
    Renames f (Build.compute l ty op span) (Build.compute l ty op span) :=
  (temporary ty).bind fun dst => (emit l dst op span).bind fun _ => pure dst

theorem load (l : Label) (value : Literal) (ty : Option Ty) (span : Span) :
    Renames f (Build.load l value ty span) (Build.load l value ty span) := compute ..

theorem loadName (l : Label) (name : Ident) : Renames f (Build.loadName l name) (Build.loadName l name) :=
  load ..

theorem requireOpcode (opcode : Option Opcode) (symbol : String) (span : Span) :
    Renames f (Build.requireOpcode opcode symbol span) (Build.requireOpcode opcode symbol span) := by
  cases opcode with
  | none => exact fail _ _
  | some code => exact pure code

theorem gotoFrom (fin : Option Label) (target : Label) (span : Span) :
    Renames f (FlowGraph.gotoFrom fin target span) (FlowGraph.gotoFrom fin target span) := by
  cases fin with
  | none => exact pure ()
  | some l => exact goto l target span

theorem finish {g h : Builder.Parts → Build α} (hg : ∀ parts, Renames f (g parts) (h parts)) :
    Renames f (do let b ← get; let parts ← Build.orFail b.finish; g parts)
      (do let b ← get; let parts ← Build.orFail b.finish; h parts) := by
  constructor
  intro b
  exact ((orFail b.finish).bind hg).run b

end Renames

section Lowering

variable {env : Env}

theorem lowerVar_renames (hf : Function.Injective f) (name : Ident) (symbol : Symbol) (here : Label) :
    Renames f (lowerVar env name symbol here) (lowerVar (env.rename f) name symbol here) := by
  refine (Renames.lookup? hf _).bind fun slot => ?_
  cases slot with
  | some slot => exact .pure _
  | none =>
    have hc : (env.rename f).constant? ((env.rename f).refKey symbol) =
        env.constant? (env.refKey symbol) := env.constant?_rename hf _
    simp only [hc]
    cases env.constant? (env.refKey symbol) with
    | some c => exact (Renames.load ..).bind fun _ => .pure _
    | none => exact .fail _ _

mutual

theorem lowerExpr_renames (hf : Function.Injective f) (e : Expr) (here : Label) :
    Renames f (lowerExpr env e here) (lowerExpr (env.rename f) e here) := by
  match e with
  | .literal note value => exact (Renames.load ..).bind fun _ => .pure _
  | .var note name symbol => exact lowerVar_renames hf ..
  | .binary note op lhs rhs =>
    simp only [lowerExpr]
    refine (Renames.requireOpcode ..).bind fun code => ?_
    refine (lowerExpr_renames hf lhs here).bind fun left => ?_
    refine (lowerExpr_renames hf rhs left.block).bind fun right => ?_
    exact (Renames.compute ..).bind fun _ => .pure _
  | .unary note op operand =>
    simp only [lowerExpr]
    refine (Renames.requireOpcode ..).bind fun code => ?_
    refine (lowerExpr_renames hf operand here).bind fun value => ?_
    exact (Renames.compute ..).bind fun _ => .pure _
  | .call note qualifier name args =>
    simp only [lowerExpr]
    refine (Renames.orFail (env.callee qualifier name)).bind fun callee => ?_
    refine (lowerArgs_renames hf args here).bind fun lowered => ?_
    refine Renames.addBlock.bind fun next => ?_
    refine (Renames.temporary _).bind fun slot => ?_
    exact (Renames.terminate ..).bind fun _ => .pure _
  | .index note container key =>
    simp only [lowerExpr]
    refine (lowerExpr_renames hf key here).bind fun k => ?_
    refine (lowerExpr_renames hf container k.block).bind fun base => ?_
    exact (Renames.compute ..).bind fun _ => .pure _
  | .list note elements elementTy =>
    simp only [lowerExpr]
    refine (lowerArgs_renames hf elements here).bind fun lowered => ?_
    refine (Renames.load ..).bind fun size => ?_
    exact (Renames.compute ..).bind fun _ => .pure _
  | .cast note operand target =>
    simp only [lowerExpr]
    refine (lowerExpr_renames hf operand here).bind fun value => ?_
    exact (Renames.compute ..).bind fun _ => .pure _
  | .test note operand target negated =>
    simp only [lowerExpr]
    refine (lowerExpr_renames hf operand here).bind fun value => ?_
    exact (Renames.compute ..).bind fun _ => .pure _
  | .group note inner =>
    simp only [lowerExpr]
    exact lowerExpr_renames hf inner here
  | .wildcard note => exact (Renames.temporary none).bind fun _ => .pure _
  | .field note base name =>
    simp only [lowerExpr]
    refine (lowerExpr_renames hf base here).bind fun base => ?_
    refine (Renames.loadName ..).bind fun key => ?_
    exact (Renames.compute ..).bind fun _ => .pure _
  | .mapping note fields =>
    simp only [lowerExpr]
    refine (lowerFields_renames hf fields here).bind fun lowered => ?_
    exact (Renames.compute ..).bind fun _ => .pure _
  | .ternary note cond whenTrue whenFalse =>
    simp only [lowerExpr]
    refine (lowerExpr_renames hf cond here).bind fun c => ?_
    refine (Renames.temporary _).bind fun slot => ?_
    refine Renames.addBlock.bind fun trueBlock => Renames.addBlock.bind fun falseBlock => ?_
    refine (Renames.terminate ..).bind fun _ => ?_
    refine (lowerExpr_renames hf whenTrue trueBlock).bind fun x => (Renames.emit ..).bind fun _ => ?_
    refine (lowerExpr_renames hf whenFalse falseBlock).bind fun y => (Renames.emit ..).bind fun _ => ?_
    refine Renames.addBlock.bind fun merge => ?_
    exact (Renames.goto ..).bind fun _ => (Renames.goto ..).bind fun _ => .pure _

theorem lowerArgs_renames (hf : Function.Injective f) (es : List Expr) (here : Label) :
    Renames f (lowerArgs env es here) (lowerArgs (env.rename f) es here) := by
  match es with
  | [] => exact .pure _
  | e :: es =>
    simp only [lowerArgs]
    refine (lowerExpr_renames hf e here).bind fun value => ?_
    exact (lowerArgs_renames hf es value.block).bind fun _ => .pure _

theorem lowerFields_renames (hf : Function.Injective f) (fs : List (Ident × Expr)) (here : Label) :
    Renames f (lowerFields env fs here) (lowerFields (env.rename f) fs here) := by
  match fs with
  | [] => exact .pure _
  | (name, e) :: fs =>
    simp only [lowerFields]
    refine (Renames.loadName ..).bind fun key => ?_
    refine (lowerExpr_renames hf e here).bind fun value => ?_
    exact (lowerFields_renames hf fs value.block).bind fun _ => .pure _

end

theorem lowerStore_renames (hf : Function.Injective f) (target : Expr) (value : Placed) (span : Span) :
    Renames f (lowerStore env target value span) (lowerStore (env.rename f) target value span) := by
  cases target with
  | var note name symbol =>
    refine (Renames.lookup? hf _).bind fun slot => ?_
    cases slot with
    | some slot => exact (Renames.emit ..).bind fun _ => .pure _
    | none => exact .fail _ _
  | index note container key =>
    refine (lowerExpr_renames hf container _).bind fun base => ?_
    refine (lowerExpr_renames hf key _).bind fun key => ?_
    exact (Renames.emit ..).bind fun _ => .pure _
  | field note base name =>
    refine (lowerExpr_renames hf base _).bind fun base => ?_
    refine (Renames.loadName ..).bind fun key => ?_
    exact (Renames.emit ..).bind fun _ => .pure _
  | wildcard note =>
    refine (Renames.temporary none).bind fun sink => ?_
    exact (Renames.emit ..).bind fun _ => .pure _
  | _ => exact .fail _ _

theorem lowerResult_renames (value : Placed) (span : Span) :
    Renames f (lowerResult value span) (lowerResult value span) :=
  (Renames.emit ..).bind fun _ => .terminate ..

theorem lowerJump_renames (statement : String) (target : LoopFrame → Label) (here : Label)
    (span : Span) :
    Renames f (lowerJump statement target here span) (lowerJump statement target here span) := by
  refine Renames.loop?.bind fun frame => ?_
  cases frame with
  | some frame => exact .goto ..
  | none => exact .fail _ _

theorem lowerDefine_renames (hf : Function.Injective f) (var : VarDef) (here : Label) (span : Span) :
    Renames f (lowerDefine env var here span) (lowerDefine (env.rename f) var here span) := by
  obtain ⟨name, symbol, ty, init⟩ := var
  cases init with
  | none => exact (Renames.allocateBound ..).bind fun _ => .pure _
  | some init =>
    refine (lowerExpr_renames hf init here).bind fun value => ?_
    refine (Renames.allocateBound ..).bind fun slot => ?_
    exact (Renames.emit ..).bind fun _ => .pure _

mutual

theorem lowerStmt_renames (hf : Function.Injective f) (s : Stmt) (here : Label) :
    Renames f (lowerStmt env s here) (lowerStmt (env.rename f) s here) := by
  match s with
  | .expr span value =>
    simp only [lowerStmt]
    exact (lowerExpr_renames hf value here).bind fun _ => .pure _
  | .block span body =>
    simp only [lowerStmt]
    exact lowerBlock_renames hf body here
  | .ifThen span cond body =>
    simp only [lowerStmt]
    refine (lowerExpr_renames hf cond here).bind fun c => Renames.addBlock.bind fun thenBlock => ?_
    refine (lowerBlock_renames hf body thenBlock).bind fun thenEnd => ?_
    refine Renames.addBlock.bind fun merge => (Renames.terminate ..).bind fun _ => ?_
    exact (Renames.gotoFrom ..).bind fun _ => .pure _
  | .ifElse span cond body otherwise =>
    simp only [lowerStmt]
    refine (lowerExpr_renames hf cond here).bind fun c => Renames.addBlock.bind fun thenBlock => ?_
    refine (lowerBlock_renames hf body thenBlock).bind fun thenEnd => ?_
    refine Renames.addBlock.bind fun elseBlock => (Renames.terminate ..).bind fun _ => ?_
    refine (lowerStmt_renames hf otherwise elseBlock).bind fun elseEnd => ?_
    refine Renames.addBlock.bind fun merge => ?_
    exact (Renames.gotoFrom ..).bind fun _ => (Renames.gotoFrom ..).bind fun _ => .pure _
  | .whileLoop span cond body =>
    simp only [lowerStmt]
    refine Renames.addBlock.bind fun head => (Renames.goto ..).bind fun _ => ?_
    refine (lowerExpr_renames hf cond head).bind fun c => ?_
    refine Renames.addBlock.bind fun bodyBlock => Renames.addBlock.bind fun exit => ?_
    refine (Renames.terminate ..).bind fun _ => (Renames.pushLoop _).bind fun _ => ?_
    refine (lowerBlock_renames hf body bodyBlock).bind fun bodyEnd => ?_
    exact (Renames.gotoFrom ..).bind fun _ => Renames.popLoop.bind fun _ => .pure _
  | .ret span none =>
    simp only [lowerStmt]
    exact (Renames.terminate ..).bind fun _ => .pure _
  | .ret span (some value) =>
    simp only [lowerStmt]
    refine (lowerExpr_renames hf value here).bind fun value => ?_
    exact (lowerResult_renames ..).bind fun _ => .pure _
  | .breakLoop span | .continueLoop span =>
    simp only [lowerStmt]
    exact (lowerJump_renames ..).bind fun _ => .pure _
  | .define span var =>
    simp only [lowerStmt]
    exact (lowerDefine_renames hf var here span).bind fun _ => .pure _
  | .assign span target value =>
    simp only [lowerStmt]
    refine (lowerExpr_renames hf value here).bind fun value => ?_
    exact (lowerStore_renames hf target value span).bind fun _ => .pure _
  | .update span op target value ty =>
    simp only [lowerStmt]
    refine (lowerExpr_renames hf _ here).bind fun value => ?_
    exact (lowerStore_renames hf target value span).bind fun _ => .pure _
  | .panic span error =>
    simp only [lowerStmt]
    refine (lowerExpr_renames hf error here).bind fun error => ?_
    exact (Renames.terminate ..).bind fun _ => .pure _
  | .lock span body =>
    simp only [lowerStmt]
    refine Renames.addBlock.bind fun locked => (Renames.terminate ..).bind fun _ => ?_
    refine (lowerBlock_renames hf body locked).bind fun last => ?_
    cases last with
    | none => exact .pure _
    | some last =>
      exact Renames.addBlock.bind fun next => (Renames.terminate ..).bind fun _ => .pure _
  | .foreach span var collection body => exact .fail _ _

theorem lowerBlock_renames (hf : Function.Injective f) (body : Block) (here : Label) :
    Renames f (lowerBlock env body here) (lowerBlock (env.rename f) body here) := by
  match body with
  | .mk stmts span =>
    simp only [lowerBlock]
    refine Renames.enterScope.bind fun _ => (lowerStmts_renames hf stmts here).bind fun last => ?_
    exact Renames.exitScope.bind fun _ => .pure _

theorem lowerStmts_renames (hf : Function.Injective f) (stmts : List Stmt) (here : Label) :
    Renames f (lowerStmts env stmts here) (lowerStmts (env.rename f) stmts here) := by
  match stmts with
  | [] => exact .pure _
  | s :: stmts =>
    simp only [lowerStmts]
    refine (lowerStmt_renames hf s here).bind fun next => ?_
    cases next with
    | some next => exact lowerStmts_renames hf stmts next
    | none => exact .pure _

end

theorem lowerParams_renames (params : List Param) :
    Renames f (lowerParams env params) (lowerParams (env.rename f) params) := by
  induction params with
  | nil => exact .pure _
  | cons p params ih =>
    exact (Renames.allocateBound ..).bind fun _ => ih.bind fun _ => .pure _

theorem lowerBody_renames (hf : Function.Injective f) (fn : FunctionDef) :
    Renames f (lowerBody env fn) (lowerBody (env.rename f) fn) := by
  obtain ⟨name, params, returnTy, body, span⟩ := fn
  cases body with
  | block body =>
    refine Renames.addBlock.bind fun entry => (lowerStmts_renames hf _ entry).bind fun last => ?_
    cases last with
    | some last => exact .terminate ..
    | none => exact .pure _
  | expr value =>
    refine Renames.addBlock.bind fun entry => (lowerExpr_renames hf value entry).bind fun value => ?_
    exact lowerResult_renames ..
  | external => exact .fail _ _

theorem lowerFunction_renames (hf : Function.Injective f) (fn : FunctionDef) :
    Renames f (lowerFunction env fn) (lowerFunction (env.rename f) fn) := by
  refine (Renames.allocate ..).bind fun resultSlot => ?_
  refine (lowerParams_renames fn.params).bind fun params => (lowerBody_renames hf fn).bind fun _ => ?_
  exact .finish fun parts => Renames.bind ⟨fun _ => rfl⟩ fun _ => .pure _

end Lowering

theorem Renames.ofBuild {x y : Build α} (h : Renames f x y) (stem : String) :
    Traced.ofBuild stem y = Traced.ofBuild stem x := by
  funext events
  have hx : y { stem := stem } = renameResult f (x { stem := stem }) := h.run { stem := stem }
  unfold Traced.ofBuild EStateM.run
  rw [hx]
  cases x { stem := stem } <;> rfl

theorem lowerFunctions_rename (hf : Function.Injective f) (options : Options) (env : Env)
    (functions : List FunctionDef) :
    lowerFunctions options (env.rename f) functions = lowerFunctions options env functions := by
  induction functions with
  | nil => rfl
  | cons fn functions ih =>
    simp only [lowerFunctions, lowerChecked]
    rw [(lowerFunction_renames hf fn).ofBuild, ih]

end FlowGraph

import FlowGraph.Lowering.Package
import FlowGraph.Proofs.Inversion

/-!
Code behind a statement that leaves. It is not lowered, and it is not looked at either: a package from
which it is deleted becomes the same module, or fails with the same error.
-/

namespace FlowGraph

open Build

mutual

def Stmt.prune : Stmt → Stmt
  | .block span body => .block span body.prune
  | .ifThen span cond body => .ifThen span cond body.prune
  | .ifElse span cond body otherwise => .ifElse span cond body.prune otherwise.prune
  | .whileLoop span cond body => .whileLoop span cond body.prune
  | .lock span body => .lock span body.prune
  | .foreach span var collection body => .foreach span var collection body.prune
  | s => s

def Block.prune : Block → Block
  | .mk stmts span => .mk (pruneList stmts) span

def pruneList : List Stmt → List Stmt
  | [] => []
  | s :: stmts => s.prune :: if s.leaves then [] else pruneList stmts

end

mutual

def Stmt.isPruned : Stmt → Bool
  | .block _ body | .ifThen _ _ body | .whileLoop _ _ body | .lock _ body | .foreach _ _ _ body =>
    body.isPruned
  | .ifElse _ _ body otherwise => body.isPruned && otherwise.isPruned
  | _ => true

def Block.isPruned : Block → Bool
  | .mk stmts _ => isPrunedList stmts

def isPrunedList : List Stmt → Bool
  | [] => true
  | s :: stmts => s.isPruned && (!s.leaves || stmts.isEmpty) && isPrunedList stmts

end

def Body.prune : Body → Body
  | .block body => .block body.prune
  | .expr value => .expr value
  | .external => .external

def Body.isPruned : Body → Bool
  | .block body => body.isPruned
  | .expr _ | .external => true

def FunctionDef.prune (f : FunctionDef) : FunctionDef := { f with body := f.body.prune }

def Package.prune (p : Package) : Package := { p with functions := p.functions.map (·.prune) }

def Package.isPruned (p : Package) : Bool := p.functions.all (·.body.isPruned)

mutual

theorem Stmt.leaves_prune (s : Stmt) : s.prune.leaves = s.leaves := by
  match s with
  | .block _ body | .lock _ body => simp only [Stmt.prune, Stmt.leaves, body.leaves_prune]
  | .expr .. | .ifThen .. | .ifElse .. | .whileLoop .. | .ret .. | .breakLoop .. | .continueLoop ..
  | .define .. | .assign .. | .update .. | .panic .. | .foreach .. => rfl

theorem Block.leaves_prune (body : Block) : body.prune.leaves = body.leaves := by
  match body with
  | .mk stmts _ => exact leavesList_prune stmts

theorem leavesList_prune (stmts : List Stmt) : leavesList (pruneList stmts) = leavesList stmts := by
  match stmts with
  | [] => rfl
  | s :: stmts =>
    cases h : s.leaves <;> simp [pruneList, leavesList, h, s.leaves_prune, leavesList_prune stmts]

end

mutual

theorem Stmt.isPruned_prune (s : Stmt) : s.prune.isPruned = true := by
  match s with
  | .block _ body | .ifThen _ _ body | .whileLoop _ _ body | .lock _ body | .foreach _ _ _ body =>
    simp only [Stmt.prune, Stmt.isPruned, body.isPruned_prune]
  | .ifElse _ _ body otherwise =>
    simp only [Stmt.prune, Stmt.isPruned, body.isPruned_prune, otherwise.isPruned_prune, Bool.and_self]
  | .expr .. | .ret .. | .breakLoop .. | .continueLoop .. | .define .. | .assign .. | .update ..
  | .panic .. => rfl

theorem Block.isPruned_prune (body : Block) : body.prune.isPruned = true := by
  match body with
  | .mk stmts _ => exact isPrunedList_prune stmts

theorem isPrunedList_prune (stmts : List Stmt) : isPrunedList (pruneList stmts) = true := by
  match stmts with
  | [] => rfl
  | s :: stmts =>
    cases h : s.leaves <;>
      simp [pruneList, isPrunedList, h, s.leaves_prune, s.isPruned_prune, isPrunedList_prune stmts]

end

theorem Package.isPruned_prune (p : Package) : p.prune.isPruned = true := by
  simp only [isPruned, prune, List.all_map, List.all_eq_true]
  intro f _
  cases h : f.body with
  | block body => simp [FunctionDef.prune, Body.prune, Body.isPruned, h, body.isPruned_prune]
  | expr value => simp [FunctionDef.prune, Body.prune, Body.isPruned, h]
  | external => simp [FunctionDef.prune, Body.prune, Body.isPruned, h]

theorem lowerStmt_eq_none_iff {env : Env} {s : Stmt} {here : Label} {b b' : Builder} {out : Option Label}
    (h : lowerStmt env s here b = .ok out b') : out = none ↔ s.leaves = true := by
  rw [← (lowerStmt_inv h).isNone_eq, Option.isNone_iff_eq_none]

theorem lowerStmts_of_leaves {env : Env} {s : Stmt} (h : s.leaves = true) (stmts : List Stmt)
    (here : Label) : lowerStmts env (s :: stmts) here = lowerStmts env [s] here := by
  funext b
  simp only [lowerStmts]
  cases hs : lowerStmt env s here b with
  | error e b' => rw [bind_fail hs, bind_fail hs]
  | ok out b' =>
    obtain rfl := (lowerStmt_eq_none_iff hs).mpr h
    rw [bind_run hs, bind_run hs]

mutual

theorem lowerStmt_prune (env : Env) (s : Stmt) (here : Label) :
    lowerStmt env s.prune here = lowerStmt env s here := by
  match s with
  | .block _ body | .ifThen _ _ body | .whileLoop _ _ body | .lock _ body =>
    simp only [Stmt.prune, lowerStmt, lowerBlock_prune env body]
  | .ifElse _ _ body otherwise =>
    simp only [Stmt.prune, lowerStmt, lowerBlock_prune env body, lowerStmt_prune env otherwise]
  | .foreach .. => simp only [Stmt.prune, lowerStmt, Stmt.describe]
  | .expr .. | .ret .. | .breakLoop .. | .continueLoop .. | .define .. | .assign .. | .update ..
  | .panic .. => rfl

theorem lowerBlock_prune (env : Env) (body : Block) (here : Label) :
    lowerBlock env body.prune here = lowerBlock env body here := by
  match body with
  | .mk stmts _ => simp only [Block.prune, lowerBlock, lowerStmts_prune env stmts]

theorem lowerStmts_prune (env : Env) (stmts : List Stmt) (here : Label) :
    lowerStmts env (pruneList stmts) here = lowerStmts env stmts here := by
  match stmts with
  | [] => rfl
  | s :: stmts =>
    cases h : s.leaves with
    | true =>
      rw [lowerStmts_of_leaves h]
      simp only [pruneList, h, if_true, lowerStmts, lowerStmt_prune env s]
    | false =>
      simp only [pruneList, h, Bool.false_eq_true, if_false, lowerStmts, lowerStmt_prune env s,
        lowerStmts_prune env stmts]

end

theorem lowerBody_prune (env : Env) (f : FunctionDef) : lowerBody env f.prune = lowerBody env f := by
  obtain ⟨name, params, returnTy, body, span⟩ := f
  cases body with
  | block body =>
    obtain ⟨stmts, span⟩ := body
    simp only [FunctionDef.prune, Body.prune, Block.prune, lowerBody, Block.stmts, Block.span,
      lowerStmts_prune]
  | expr value => rfl
  | external => rfl

theorem lowerFunction_prune (env : Env) (f : FunctionDef) :
    lowerFunction env f.prune = lowerFunction env f := by
  unfold lowerFunction
  rw [lowerBody_prune]
  rfl

theorem lowerFunctions_prune (options : Options) (env : Env) (functions : List FunctionDef) :
    lowerFunctions options env (functions.map (·.prune)) = lowerFunctions options env functions := by
  induction functions with
  | nil => rfl
  | cons f functions ih =>
    simp only [List.map_cons, lowerFunctions, lowerChecked, lowerFunction_prune, ih]

theorem Session.start_prune (s : Session) (p : Package) : s.start p.prune = s.start p := by
  simp only [start, Package.prune, List.length_map]

/-- Dead code does not matter. A statement that is lowered does not go on exactly if it leaves, and
without all that comes after such a statement, at any depth, the outcome is the same. -/
theorem Session.lower_prune (s : Session) (options : Options) (p : Package) :
    (∀ (env : Env) (st : Stmt) (here : Label) (b b' : Builder) (out : Option Label),
      lowerStmt env st here b = .ok out b' → (out = none ↔ st.leaves = true)) ∧
    p.prune.isPruned = true ∧ s.lower options p.prune = s.lower options p := by
  refine ⟨fun _ _ _ _ _ _ => lowerStmt_eq_none_iff, p.isPruned_prune, ?_⟩
  unfold lower
  rw [s.start_prune]
  simp only [Package.prune, lowerFunctions_prune]

def leavingLock : Stmt :=
  .lock {} (.mk [
    .block {} (.mk [.panic {} (.literal {} .nil), .breakLoop {}] {}),
    .foreach {} ⟨⟨"x", {}⟩, ⟨0, 0⟩, none, none⟩ (.literal {} .nil) (.mk [] {})] {})

def trailing : Package where
  id := .anonymous
  functions := [⟨⟨"f", {}⟩, [], none, .block (.mk [
    .ifElse {} (.literal {} .nil) (.mk [.ret {} none, .expr {} (.var {} ⟨"x", {}⟩ ⟨0, 0⟩)] {})
      (.block {} (.mk [leavingLock, .continueLoop {}] {}))] {}), {}⟩]

theorem trailing_prune :
    (∃ b', lowerStmt ⟨.anonymous, id, [], []⟩ leavingLock 0 { stem := "bb", blocks := [.empty "bb" 0] } =
      .ok none b' ∧ leavingLock.leaves = true) ∧
    trailing.isPruned = false ∧ trailing.prune.isPruned = true ∧
    (({} : Session).lower {} trailing).1.isOk = true ∧
    ({} : Session).lower {} trailing.prune = ({} : Session).lower {} trailing := by
  obtain ⟨hleaves, hpruned, hlower⟩ := Session.lower_prune {} {} trailing
  have hrun : ∃ b', lowerStmt ⟨.anonymous, id, [], []⟩ leavingLock 0
      { stem := "bb", blocks := [.empty "bb" 0] } = .ok none b' := ⟨_, rfl⟩
  obtain ⟨b', hb'⟩ := hrun
  exact ⟨⟨b', hb', (hleaves _ _ _ _ _ _ hb').mp rfl⟩, rfl, hpruned, by decide +kernel, hlower⟩

end FlowGraph

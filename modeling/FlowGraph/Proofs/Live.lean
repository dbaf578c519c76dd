import FlowGraph.Proofs.Site

/-!
The code of a function that is lowered: all of it but what comes after a statement that leaves. The
sites of a run are just the places of this code, and its statements can be listed.
-/

namespace FlowGraph

inductive Node where
  | expr (e : Expr)
  | args (es : List Expr)
  | fields (fs : List (Ident × Expr))
  | store (target : Expr)
  | stmt (s : Stmt)
  | block (body : Block)
  | stmts (ss : List Stmt)

/-- The parts of a piece of the source that are lowered, in order. An update evaluates its target as
part of an operation, and then stores into it. -/
def Node.parts : Node → List Node
  | .expr (.binary _ _ lhs rhs) => [.expr lhs, .expr rhs]
  | .expr (.unary _ _ x) | .expr (.cast _ x _) | .expr (.test _ x _ _) | .expr (.group _ x)
  | .expr (.field _ x _) => [.expr x]
  | .expr (.call _ _ _ es) | .expr (.list _ es _) => [.args es]
  | .expr (.index _ container key) => [.expr key, .expr container]
  | .expr (.mapping _ fs) => [.fields fs]
  | .expr (.ternary _ cond whenTrue whenFalse) => [.expr cond, .expr whenTrue, .expr whenFalse]
  | .args (e :: es) => [.expr e, .args es]
  | .fields ((_, e) :: fs) => [.expr e, .fields fs]
  | .store (.index _ container key) => [.expr container, .expr key]
  | .store (.field _ base _) => [.expr base]
  | .stmt (.expr _ e) | .stmt (.ret _ (some e)) | .stmt (.panic _ e) => [.expr e]
  | .stmt (.block _ body) | .stmt (.lock _ body) => [.block body]
  | .stmt (.ifThen _ cond body) | .stmt (.whileLoop _ cond body) => [.expr cond, .block body]
  | .stmt (.ifElse _ cond body otherwise) => [.expr cond, .block body, .stmt otherwise]
  | .stmt (.define _ var) => var.init.toList.map .expr
  | .stmt (.assign _ target value) => [.expr value, .store target]
  | .stmt (.update span op target value ty) => [.expr (.binary ⟨ty, span⟩ op target value), .store target]
  | .block (.mk ss _) => [.stmts ss]
  | .stmts (s :: ss) => if s.leaves then [.stmt s] else [.stmt s, .stmts ss]
  | _ => []

abbrev Node.Within : Node → Node → Prop := Relation.ReflTransGen fun m n => n ∈ m.parts

def Node.isLoop : Node → Bool
  | .stmt (.whileLoop _ _ _) => true
  | _ => false

abbrev Node.Near : Node → Node → Prop :=
  Relation.ReflTransGen fun m n => m.isLoop = false ∧ n ∈ m.parts

def Body.node? : Body → Option Node
  | .block body => some (.stmts body.stmts)
  | .expr value => some (.expr value)
  | .external => none

def FunctionDef.Live (f : FunctionDef) (n : Node) : Prop := ∃ m ∈ f.body.node?, m.Within n

def Site.node : Site → Node
  | .expr e _ _ _ _ => .expr e
  | .args es _ _ _ _ _ => .args es
  | .fields fs _ _ _ _ _ => .fields fs
  | .store target _ _ _ _ _ => .store target
  | .stmt s _ _ _ _ => .stmt s
  | .block body _ _ _ _ => .block body
  | .stmts ss _ _ _ _ => .stmts ss

theorem Site.Run.splits {env : Env} {p : Site} (h : p.Run env) :
    ∃ ps, Splits env p ps ∧ ps.Forall (·.Run env) := by
  refine Site.Run.induct (fun p ps hsplits hparts => ?_) h
  exact ⟨ps, hsplits, hparts.imp fun _ => And.left⟩

theorem Splits.nodes {env : Env} {p : Site} {ps : List Site} (h : Splits env p ps)
    (hrun : ps.Forall (·.Run env)) : ps.map (·.node) = p.node.parts := by
  cases h with
  | declare hi | define hi => simp [Site.node, Node.parts, hi]
  | next =>
    have hleaves := StmtRun.isNone_eq hrun.1
    simp [Site.node, Node.parts, ← hleaves]
  | leave =>
    have hleaves := StmtRun.isNone_eq hrun
    simp [Site.node, Node.parts, ← hleaves]
  | _ => rfl

theorem Child.node {env : Env} {p q : Site} (h : Child env p q) : q.node ∈ p.node.parts := by
  obtain ⟨ps, hsplits, hrun, hq⟩ := h
  rw [← hsplits.nodes hrun]
  exact List.mem_map_of_mem hq

theorem Part.within {env : Env} {p q : Site} (h : Part env p q) : p.node.Within q.node := by
  induction h with
  | refl => exact .refl
  | tail _ hchild ih => exact ih.tail hchild.node

theorem Site.Run.exists_of_path {env : Env} {S : Node → Prop} {p : Site} {n : Node} (h : p.Run env)
    (hn : Relation.ReflTransGen (fun m n => S m ∧ n ∈ m.parts) p.node n) :
    ∃ q, Relation.ReflTransGen (fun p q => S p.node ∧ Child env p q) p q ∧ q.Run env ∧ q.node = n := by
  induction hn with
  | refl => exact ⟨p, .refl, h, rfl⟩
  | tail _ hstep ih =>
    obtain ⟨hS, hmem⟩ := hstep
    obtain ⟨q, hq, hrun, rfl⟩ := ih
    obtain ⟨ps, hsplits, hruns⟩ := hrun.splits
    rw [← hsplits.nodes hruns] at hmem
    obtain ⟨r, hr, rfl⟩ := List.mem_map.mp hmem
    have hrrun := List.forall_iff_forall_mem.mp hruns r hr
    exact ⟨r, hq.tail ⟨hS, ps, hsplits, hruns, hr⟩, hrrun, rfl⟩

theorem Site.Run.part_of_within {env : Env} {p : Site} {n : Node} (h : p.Run env)
    (hn : p.node.Within n) : ∃ q, Part env p q ∧ q.node = n := by
  have hpath := @exists_of_path env (fun _ => True) p n h (by simpa using hn)
  obtain ⟨q, hq, -, heq⟩ := hpath
  exact ⟨q, by simpa using hq, heq⟩

theorem Root.node {body : Body} {b b' : Builder} {p : Site} (h : Root body b b' p) :
    body.node? = some p.node := by
  cases h <;> rfl

/-- The live code of a function is what was lowered. -/
theorem FunctionRun.live_iff {env : Env} {stem : String} {f : FunctionDef} {g : Graph}
    (h : FunctionRun env stem f g) {n : Node} :
    f.Live n ↔ ∃ p, SiteOf env stem f g p ∧ p.node = n := by
  constructor
  · rintro ⟨m, hm, hn⟩
    obtain ⟨b, hbody, hg⟩ := h
    obtain ⟨root, hroot, hrun⟩ := hbody.root
    obtain rfl : root.node = m := Option.some.inj (hroot.node.symm.trans hm)
    obtain ⟨q, hq, rfl⟩ := hrun.part_of_within hn
    exact ⟨q, ⟨b, root, hroot, hrun, hg, hq⟩, rfl⟩
  · rintro ⟨p, ⟨b, root, hroot, -, -, hpart⟩, rfl⟩
    exact ⟨root.node, hroot.node, hpart.within⟩

theorem FunctionRun.live_iff_of_run {env : Env} {stem : String} {f : FunctionDef} {g : Graph} {n : Node}
    {P : Site → Prop} (h : FunctionRun env stem f g) (hP : ∀ p : Site, p.Run env → p.node = n → P p) :
    f.Live n ↔ ∃ p, SiteOf env stem f g p ∧ p.node = n ∧ P p := by
  rw [h.live_iff]
  constructor
  · rintro ⟨p, hp, hnode⟩
    obtain ⟨b, -, hrun, -⟩ := hp.context
    exact ⟨p, hp, hnode, hP p hrun hnode⟩
  · rintro ⟨p, hp, hnode, -⟩
    exact ⟨p, hp, hnode⟩

mutual

def Stmt.inner : Stmt → List Stmt
  | .block _ body | .ifThen _ _ body | .whileLoop _ _ body | .lock _ body => body.inner
  | .ifElse _ _ body otherwise => body.inner ++ otherwise :: otherwise.inner
  | _ => []

def Block.inner : Block → List Stmt
  | .mk stmts _ => innerList stmts

def innerList : List Stmt → List Stmt
  | [] => []
  | s :: stmts => s :: s.inner ++ if s.leaves then [] else innerList stmts

end

def Node.stmt? : Node → Option Stmt
  | .stmt s => some s
  | _ => none

def Node.statements : Node → List Stmt
  | .stmt s => s :: s.inner
  | .block body => body.inner
  | .stmts ss => innerList ss
  | _ => []

def FunctionDef.statements (f : FunctionDef) : List Stmt := f.body.node?.toList.flatMap Node.statements

theorem Node.statements_eq (n : Node) : n.statements = n.stmt?.toList ++ n.parts.flatMap Node.statements := by
  cases n with
  | expr e => cases e <;> rfl
  | args es => cases es <;> rfl
  | fields fs => cases fs <;> rfl
  | store target => cases target <;> rfl
  | stmt s =>
    cases s with
    | ret _ value => cases value <;> rfl
    | define _ var => cases h : var.init <;> simp [statements, stmt?, parts, Stmt.inner, h]
    | _ => simp [statements, stmt?, parts, Stmt.inner]
  | block body =>
    cases body
    simp [statements, stmt?, parts, Block.inner]
  | stmts ss =>
    cases ss with
    | nil => rfl
    | cons s ss => cases h : s.leaves <;> simp [statements, stmt?, parts, innerList, h]

theorem Node.mem_statements_of_within {n m : Node} {s : Stmt} (h : n.Within m) (hs : s ∈ m.statements) :
    s ∈ n.statements := by
  induction h with
  | refl => exact hs
  | tail _ hpart ih =>
    apply ih
    rw [statements_eq]
    exact List.mem_append_right _ (List.mem_flatMap_of_mem hpart hs)

mutual

theorem Stmt.within_of_mem_inner {s t : Stmt} (h : t ∈ s.inner) : (Node.stmt s).Within (.stmt t) := by
  match s with
  | .block _ body | .lock _ body =>
    exact .head (b := .block body) (by simp [Node.parts]) (body.within_of_mem_inner h)
  | .ifThen _ _ body | .whileLoop _ _ body =>
    exact .head (b := .block body) (by simp [Node.parts]) (body.within_of_mem_inner h)
  | .ifElse _ _ body otherwise =>
    rcases List.mem_append.mp h with h | h
    · exact .head (b := .block body) (by simp [Node.parts]) (body.within_of_mem_inner h)
    · refine .head (b := .stmt otherwise) (by simp [Node.parts]) ?_
      rcases List.mem_cons.mp h with rfl | h
      · exact .refl
      · exact otherwise.within_of_mem_inner h

theorem Block.within_of_mem_inner {body : Block} {t : Stmt} (h : t ∈ body.inner) :
    (Node.block body).Within (.stmt t) := by
  match body with
  | .mk stmts _ => exact .head (b := .stmts stmts) (by simp [Node.parts]) (within_of_mem_innerList h)

theorem within_of_mem_innerList {stmts : List Stmt} {t : Stmt} (h : t ∈ innerList stmts) :
    (Node.stmts stmts).Within (.stmt t) := by
  match stmts with
  | s :: stmts =>
    simp only [innerList, List.cons_append, List.mem_cons, List.mem_append] at h
    have hfirst : Node.stmt s ∈ (Node.stmts (s :: stmts)).parts := by
      cases hs : s.leaves <;> simp [Node.parts, hs]
    rcases h with rfl | h | h
    · exact .single hfirst
    · exact .head hfirst (s.within_of_mem_inner h)
    · cases hs : s.leaves with
      | true => simp [hs] at h
      | false =>
        rw [hs] at h
        exact .head (b := .stmts stmts) (by simp [Node.parts, hs]) (within_of_mem_innerList h)

end

theorem Node.mem_statements_iff {n : Node} {s : Stmt} : s ∈ n.statements ↔ n.Within (.stmt s) := by
  constructor
  · intro h
    cases n with
    | stmt s' =>
      rcases List.mem_cons.mp h with rfl | h
      · exact .refl
      · exact Stmt.within_of_mem_inner h
    | block body => exact Block.within_of_mem_inner h
    | stmts ss => exact within_of_mem_innerList h
    | _ => cases h
  · intro h
    exact mem_statements_of_within h List.mem_cons_self

theorem FunctionDef.mem_statements_iff {f : FunctionDef} {s : Stmt} :
    s ∈ f.statements ↔ f.Live (.stmt s) := by
  cases h : f.body.node? <;> simp [statements, Live, h, Node.mem_statements_iff]

theorem Splits.statements {env : Env} {p : Site} {ps : List Site} (h : Splits env p ps)
    (hrun : ps.Forall (·.Run env)) :
    p.node.statements = p.node.stmt?.toList ++ ps.flatMap (·.node.statements) := by
  rw [p.node.statements_eq, ← h.nodes hrun, List.flatMap_map]

end FlowGraph

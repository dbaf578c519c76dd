import FlowGraph.Proofs.Eagerness
import FlowGraph.Proofs.Merge

/-!
The scopes of a graph. They are the blocks of the source, numbered in its order, and each block has the
one around it as its parent; and whatever a statement puts down itself is in the scope of the block that
directly contains the statement.
-/

namespace FlowGraph

open Builder

mutual

def Stmt.scopes (parent next : ScopeId) : Stmt → List Scope
  | .block _ body | .ifThen _ _ body | .whileLoop _ _ body | .lock _ body => body.scopes parent next
  | .ifElse _ _ body otherwise =>
    body.scopes parent next ++ otherwise.scopes parent (next + (body.scopes parent next).length)
  | _ => []

def Block.scopes (parent next : ScopeId) : Block → List Scope
  | .mk stmts _ => ⟨next, some parent⟩ :: scopesList next (next + 1) stmts

def scopesList (parent next : ScopeId) : List Stmt → List Scope
  | [] => []
  | s :: stmts => s.scopes parent next ++
    if s.leaves then [] else scopesList parent (next + (s.scopes parent next).length) stmts

end

def Node.scopes (parent next : ScopeId) : Node → List Scope
  | .stmt s => s.scopes parent next
  | .block body => body.scopes parent next
  | .stmts ss => scopesList parent next ss
  | _ => []

def FunctionDef.scopes (f : FunctionDef) : List Scope :=
  { id := 0 } :: f.body.node?.toList.flatMap (·.scopes 0 1)

/-- A piece of the source at its place: in `scope`, which is that of the innermost block around it, and
before the scope `next` is opened. -/
structure Spot where
  node : Node
  scope : ScopeId
  next : ScopeId

def Spot.scopes (s : Spot) : List Scope := s.node.scopes s.scope s.next

def spread (scope : ScopeId) : ScopeId → List Node → List Spot
  | _, [] => []
  | next, n :: ns => ⟨n, scope, next⟩ :: spread scope (next + (n.scopes scope next).length) ns

def Spot.opened : Spot → List Scope
  | ⟨.block _, scope, next⟩ => [⟨next, some scope⟩]
  | _ => []

def Spot.parts : Spot → List Spot
  | ⟨.block body, _, next⟩ => spread next (next + 1) (Node.block body).parts
  | ⟨n, scope, next⟩ => spread scope next n.parts

theorem Spot.scopes_eq (s : Spot) : s.scopes = s.opened ++ s.parts.flatMap Spot.scopes := by
  obtain ⟨n, scope, next⟩ := s
  cases n with
  | expr e => cases e <;> rfl
  | args es => cases es <;> rfl
  | fields fs => cases fs <;> rfl
  | store target => cases target <;> rfl
  | stmt s =>
    cases s with
    | ret _ value => cases value <;> rfl
    | define _ var =>
      cases h : var.init <;>
        simp [scopes, opened, parts, Node.parts, Node.scopes, Stmt.scopes, spread, h]
    | _ => simp [scopes, opened, parts, Node.parts, Node.scopes, Stmt.scopes, spread]
  | block body =>
    cases body
    simp [scopes, opened, parts, Node.parts, Node.scopes, Block.scopes, spread]
  | stmts ss =>
    cases ss with
    | nil => rfl
    | cons s ss =>
      cases h : s.leaves <;>
        simp [scopes, opened, parts, Node.parts, Node.scopes, scopesList, spread, h]

def Node.isBlock : Node → Bool
  | .block _ => true
  | _ => false

theorem Spot.parts_eq {s : Spot} (hs : s.node.isBlock = false) :
    s.parts = spread s.scope s.next s.node.parts := by
  obtain ⟨n, scope, next⟩ := s
  cases n with
  | block => cases hs
  | _ => rfl

theorem Spot.opened_eq {s : Spot} (hs : s.node.isBlock = false) : s.opened = [] := by
  obtain ⟨n, scope, next⟩ := s
  cases n with
  | block => cases hs
  | _ => rfl

theorem Spot.eq_of_mem_opened {s : Spot} {c k : ScopeId} (h : ⟨k, some c⟩ ∈ s.opened) :
    ∃ body, s = ⟨.block body, c, k⟩ := by
  obtain ⟨n, scope, next⟩ := s
  cases n with
  | block body =>
    simp only [opened, List.mem_singleton, Scope.mk.injEq, Option.some.injEq] at h
    exact ⟨body, by rw [h.1, h.2]⟩
  | _ => cases h

theorem scope_of_mem_spread {c next : ScopeId} {ns : List Node} {s : Spot} (h : s ∈ spread c next ns) :
    s.scope = c := by
  induction ns generalizing next with
  | nil => cases h
  | cons n ns ih =>
    rcases List.mem_cons.mp h with rfl | h
    · rfl
    · exact ih h

def Action.scope : Action → ScopeId
  | .instruction i => i.scope
  | .terminator t => t.scope

def strayAt (c : ScopeId) (blocks : List BasicBlock) (l : Label) : Nat :=
  (actionsAt blocks l).countP (·.scope != c)

structure Stamp (b b' : Builder) : Prop where
  scopes : b'.scopes = b.scopes
  stray : ∀ l, strayAt b.scopes.current b'.blocks l ≤ strayAt b.scopes.current b.blocks l

namespace Stamp

variable {b b₁ : Builder} {l target : Label} {span : Span}

theorem refl (b : Builder) : Stamp b b := ⟨rfl, fun _ => Nat.le_refl _⟩

theorem same (h : Stamp b b₁) {b₂ : Builder} (hs : b₂.scopes = b₁.scopes) (hb : b₂.blocks = b₁.blocks) :
    Stamp b b₂ := ⟨hs.trans h.scopes, by simpa only [hb] using h.stray⟩

theorem grow (h : Stamp b b₁) : Stamp b b₁.grow := ⟨h.scopes, by simpa [strayAt] using h.stray⟩

theorem append (h : Stamp b b₁) {dst : Slot} {op : Operation} : Stamp b (b₁.append l dst op span) where
  scopes := h.scopes
  stray m := by
    refine Nat.le_trans ?_ (h.stray m)
    by_cases hm : m = l
    · subst hm
      cases hb : b₁.blocks[m]? <;>
        simp [strayAt, actionsAt, Builder.append, hb, BasicBlock.actions, BasicBlock.append,
          Action.scope, h.scopes]
    · rw [strayAt, actionsAt_congr (getElem?_append hm)]
      exact Nat.le_refl _

theorem addTemporary (h : Stamp b b₁) {ty : Option Ty} : Stamp b (b₁.addTemporary ty) := h.same rfl rfl

theorem addBound (h : Stamp b b₁) {name : String} {ty : Option Ty} {kind : VarKind} {key : Symbol} :
    Stamp b (b₁.addBound name ty kind key) := h.same rfl rfl

theorem compute (h : Stamp b b₁) {ty : Option Ty} {op : Operation} : Stamp b (b₁.compute l ty op span) :=
  h.addTemporary.append

theorem close (h : Stamp b b₁) {dst : Option Slot} {t : Transfer} : Stamp b (b₁.close l dst t span) where
  scopes := h.scopes
  stray m := by
    refine Nat.le_trans ?_ (h.stray m)
    by_cases hm : m = l
    · subst hm
      cases hb : b₁.blocks[m]? <;>
        simp [strayAt, actionsAt, Builder.close, hb, BasicBlock.actions, BasicBlock.close,
          Action.scope, h.scopes]
    · rw [strayAt, actionsAt_congr (getElem?_close hm)]
      exact Nat.le_refl _

theorem gotoFrom (h : Stamp b b₁) {fin : Option Label} : Stamp b (b₁.gotoFrom fin target span) := by
  cases fin with
  | none => exact h
  | some l => exact h.close

end Stamp

def Stamped : Builder → List Site → Builder → Prop
  | b, [], b' => Stamp b b'
  | b, q :: ps, b' => Stamp b q.first ∧ Stamped q.last ps b'

theorem Splits.stamped {env : Env} {p : Site} {ps : List Site} (h : Splits env p ps)
    (hp : p.node.isBlock = false) : Stamped p.first ps p.last := by
  have hr := @Stamp.refl
  cases h with
  | literal | constant | storeWildcard => exact (hr _).compute
  | «variable» | argsNil | fieldsNil | nil => exact hr _
  | wildcard => exact (hr _).addTemporary
  | declare => exact (hr _).addBound
  | binary | index => exact ⟨hr _, hr _, (hr _).compute⟩
  | unary | cast | test | mapping => exact ⟨hr _, (hr _).compute⟩
  | call => exact ⟨hr _, (hr _).grow.addTemporary.close⟩
  | list | field => exact ⟨hr _, (hr _).compute.compute⟩
  | group | expr | block | leave => exact ⟨hr _, hr _⟩
  | ternary =>
    exact ⟨hr _, (hr _).addTemporary.grow.grow.close, (hr _).append, (hr _).append.grow.close.close⟩
  | argsCons | assign | update | next => exact ⟨hr _, hr _, hr _⟩
  | fieldsCons => exact ⟨(hr _).compute, hr _, hr _⟩
  | storeVariable => exact (hr _).append
  | storeIndex => exact ⟨hr _, hr _, (hr _).append⟩
  | storeField => exact ⟨hr _, (hr _).compute.append⟩
  | ifThen => exact ⟨hr _, (hr _).grow, (hr _).grow.close.gotoFrom⟩
  | ifElse => exact ⟨hr _, (hr _).grow, (hr _).grow.close, (hr _).grow.gotoFrom.gotoFrom⟩
  | whileLoop =>
    exact ⟨(hr _).grow.close, (hr _).grow.grow.close.same rfl rfl, (hr _).gotoFrom.same rfl rfl⟩
  | ret | breakLoop | continueLoop => exact (hr _).close
  | retValue => exact ⟨hr _, (hr _).append.close⟩
  | define => exact ⟨hr _, (hr _).addBound.append⟩
  | panic => exact ⟨hr _, (hr _).close⟩
  | lockLeft => exact ⟨(hr _).grow.close, hr _⟩
  | lock => exact ⟨(hr _).grow.close, (hr _).grow.close⟩
  | scope => cases hp

def ScopeTree.add (t : ScopeTree) (n : Node) : ScopeTree :=
  ⟨t.scopes ++ n.scopes t.current t.scopes.length, t.current⟩

def Site.spot (p : Site) : Spot := ⟨p.node, p.first.scopes.current, p.first.scopes.scopes.length⟩

section Placing

variable {env : Env} {p q : Site} {ps : List Site} {b b' : Builder}

theorem Stamped.scopes (h : Stamped b ps b')
    (hps : ∀ q ∈ ps, q.last.scopes = q.first.scopes.add q.node) :
    ps.map Site.spot = spread b.scopes.current b.scopes.scopes.length (ps.map (·.node)) ∧
      b'.scopes = ⟨b.scopes.scopes ++ (ps.map Site.spot).flatMap Spot.scopes, b.scopes.current⟩ := by
  induction ps generalizing b with
  | nil => exact ⟨rfl, by simp [Stamp.scopes h]⟩
  | cons q ps ih =>
    obtain ⟨hlink, hrest⟩ := h
    have hq := hps q List.mem_cons_self
    obtain ⟨hspots, hscopes⟩ := ih hrest fun r hr => hps r (List.mem_cons_of_mem _ hr)
    rw [hlink.scopes] at hq
    rw [hq] at hspots hscopes
    constructor
    · simp [spread, hspots, Site.spot, hlink.scopes, ScopeTree.add]
    · simp [hscopes, ScopeTree.add, Spot.scopes, Site.spot, hlink.scopes]

theorem Splits.spots (h : Splits env p ps) (hrun : ps.Forall (·.Run env))
    (hps : ∀ q ∈ ps, q.last.scopes = q.first.scopes.add q.node) : ps.map Site.spot = p.spot.parts := by
  cases hp : p.node.isBlock with
  | false => rw [((h.stamped hp).scopes hps).1, h.nodes hrun, Spot.parts_eq hp, Site.spot]
  | true =>
    cases h with
    | scope => simp [Site.spot, Site.node, Site.first, Spot.parts, Node.parts, spread, ScopeTree.enter]
    | _ => cases hp

theorem Site.Run.scopes (h : p.Run env) : p.last.scopes = p.first.scopes.add p.node := by
  refine Site.Run.induct (fun p ps hsplits hparts => ?_) h
  have hrun : ps.Forall (·.Run env) := hparts.imp fun _ => And.left
  have hps : ∀ q ∈ ps, q.last.scopes = q.first.scopes.add q.node :=
    List.forall_iff_forall_mem.mp (hparts.imp fun _ => And.right)
  cases hp : p.node.isBlock with
  | false =>
    have heq : p.node.scopes p.first.scopes.current p.first.scopes.scopes.length =
        (ps.map Site.spot).flatMap Spot.scopes := by
      rw [hsplits.spots hrun hps]
      exact p.spot.scopes_eq.trans (by rw [Spot.opened_eq hp, List.nil_append])
    rw [((hsplits.stamped hp).scopes hps).2, ScopeTree.add, heq]
  | true =>
    cases hsplits with
    | @scope stmts _ _ b _ b₁ =>
      have hb₁ : b₁.scopes = b.enterScope.scopes.add (.stmts stmts) := hps _ List.mem_cons_self
      simp [Site.first, Site.last, Site.node, hb₁, ScopeTree.add, ScopeTree.enter, ScopeTree.exit,
        Node.scopes, Block.scopes]
    | _ => cases hp

theorem Child.scope_eq (h : Child env p q) (hp : p.node.isBlock = false) :
    q.spot.scope = p.spot.scope := by
  obtain ⟨ps, hsplits, hrun, hq⟩ := h
  have hall := List.forall_iff_forall_mem.mp hrun
  have hmem : q.spot ∈ p.spot.parts := by
    rw [← hsplits.spots hrun fun q hq => (hall q hq).scopes]
    exact List.mem_map_of_mem hq
  rw [Spot.parts_eq hp] at hmem
  exact scope_of_mem_spread hmem

theorem Site.Run.exists_of_mem_scopes {c k : ScopeId} (h : p.Run env) :
    ⟨k, some c⟩ ∈ p.spot.scopes → ∃ q body, Part env p q ∧ q.spot = ⟨.block body, c, k⟩ := by
  refine Site.Run.induct (fun p ps hsplits hparts hmem => ?_) h
  have hrun : ps.Forall (·.Run env) := hparts.imp fun _ => And.left
  have hall := List.forall_iff_forall_mem.mp hparts
  rw [p.spot.scopes_eq, ← hsplits.spots hrun fun q hq => (hall q hq).1.scopes] at hmem
  rcases List.mem_append.mp hmem with hmem | hmem
  · obtain ⟨body, hspot⟩ := Spot.eq_of_mem_opened hmem
    exact ⟨p, body, .refl, hspot⟩
  · obtain ⟨spot, hspot, hmem⟩ := List.mem_flatMap.mp hmem
    obtain ⟨q, hq, rfl⟩ := List.mem_map.mp hspot
    obtain ⟨r, body, hr, heq⟩ := (hall q hq).2 hmem
    exact ⟨r, body, .head ⟨ps, hsplits, hrun, hq⟩ hr, heq⟩

end Placing

section Emission

variable {env : Env} {p q : Site} {ps : List Site} {b b' bf : Builder} {l : Label} {n : Nat} {a : Action}
  {actions : List Action}

theorem Stamp.scope_eq (h : Stamp b b') (hb : actionsAt b.blocks l <+: actions)
    (hb' : actionsAt b'.blocks l <+: actions) (ha : actions[n]? = some a)
    (hle : (actionsAt b.blocks l).length ≤ n) (hlt : n < (actionsAt b'.blocks l).length) :
    a.scope = b.scopes.current := by
  obtain ⟨rest, hrest⟩ := List.prefix_of_prefix_length_le hb hb' (by lia)
  obtain ⟨later, rfl⟩ := hb'
  rw [List.getElem?_append_left hlt, ← hrest, List.getElem?_append_right hle] at ha
  have hstray := h.stray l
  rw [strayAt, strayAt, ← hrest, List.countP_append] at hstray
  have hzero : rest.countP (·.scope != b.scopes.current) = 0 := by lia
  have := List.countP_eq_zero.mp hzero a (List.mem_of_getElem? ha)
  simpa using this

theorem Stamped.scope_eq_or (h : Stamped b ps b') (hb : actionsAt b.blocks l <+: actions)
    (hb' : actionsAt b'.blocks l <+: actions)
    (hps : ∀ q ∈ ps, actionsAt q.first.blocks l <+: actions ∧ actionsAt q.last.blocks l <+: actions ∧
      q.last.scopes.current = q.first.scopes.current)
    (ha : actions[n]? = some a) (hle : (actionsAt b.blocks l).length ≤ n)
    (hlt : n < (actionsAt b'.blocks l).length) :
    a.scope = b.scopes.current ∨ ∃ q ∈ ps, q.Emits l n := by
  induction ps generalizing b with
  | nil => exact .inl (Stamp.scope_eq h hb hb' ha hle hlt)
  | cons q ps ih =>
    obtain ⟨hlink, hrest⟩ := h
    obtain ⟨hfirst, hlast, hcurrent⟩ := hps q List.mem_cons_self
    by_cases hbefore : n < (actionsAt q.first.blocks l).length
    · exact .inl (hlink.scope_eq hb hfirst ha hle hbefore)
    · by_cases hafter : n < (actionsAt q.last.blocks l).length
      · exact .inr ⟨q, List.mem_cons_self, Nat.le_of_not_lt hbefore, hafter⟩
      · have htail := ih hrest hlast (fun r hr => hps r (List.mem_cons_of_mem _ hr))
          (Nat.le_of_not_lt hafter)
        rw [hcurrent, hlink.scopes] at htail
        exact htail.imp_right fun ⟨r, hr, hemits⟩ => ⟨r, List.mem_cons_of_mem _ hr, hemits⟩

theorem Site.Settled.scope_eq_or (h : p.Settled env bf) (hp : p.node.isBlock = false)
    (hsplits : Splits env p ps) (hrun : ps.Forall (·.Run env))
    (ha : (actionsAt bf.blocks l)[n]? = some a) (hn : p.Emits l n) :
    a.scope = p.spot.scope ∨ ∃ q ∈ ps, q.Emits l n := by
  refine (hsplits.stamped hp).scope_eq_or (h.grows.actionsAt_isPrefix l)
    (h.sealed.grows.actionsAt_isPrefix l) (fun q hq => ?_) ha hn.1 hn.2
  have hq' : q.Settled env bf := Child.settled ⟨ps, hsplits, hrun, hq⟩ h
  refine ⟨hq'.grows.actionsAt_isPrefix l, hq'.sealed.grows.actionsAt_isPrefix l, ?_⟩
  rw [hq'.run.scopes, ScopeTree.add]

theorem Site.isBlock_node (hp : p.isStmt = false) : p.node.isBlock = false := by
  cases p <;> first | rfl | cases hp

theorem Site.Run.scope_eq (h : p.Run env) (ha : (actionsAt bf.blocks l)[n]? = some a) :
    p.Settled env bf → p.isStmt = false → p.Emits l n → a.scope = p.spot.scope := by
  refine Site.Run.induct (fun p ps hsplits hparts h hp hn => ?_) h
  have hrun : ps.Forall (·.Run env) := hparts.imp fun _ => And.left
  have hblock := Site.isBlock_node hp
  rcases h.scope_eq_or hblock hsplits hrun ha hn with hscope | ⟨q, hq, hemits⟩
  · exact hscope
  · have hchild : Child env p q := ⟨ps, hsplits, hrun, hq⟩
    rw [← hchild.scope_eq hblock]
    exact (List.forall_iff_forall_mem.mp hparts q hq).2 (hchild.settled h) (hchild.isStmt hp) hemits

/-- The action is put down by this very statement, and not by one of the statements within it. -/
structure Site.Authors (env : Env) (p : Site) (l : Label) (n : Nat) : Prop where
  stmt : p.node.stmt?.isSome
  emits : p.Emits l n
  own : ∃ ps, Splits env p ps ∧ ps.Forall (·.Run env) ∧ ∀ q ∈ ps, q.isStmt = true → ¬ q.Emits l n

theorem Splits.emits_of_stmt?_eq_none (h : Splits env p ps) (hp : p.isStmt = true)
    (hnode : p.node.stmt? = none) (hn : p.Emits l n) : ∃ q ∈ ps, q.isStmt = true ∧ q.Emits l n := by
  cases h <;> cases hp <;> cases hnode
  case scope => exact ⟨_, List.mem_cons_self, rfl, hn⟩
  case nil => exact absurd hn.2 (Nat.not_lt.mpr hn.1)
  case next s stmts here b l' b₁ out b₂ =>
    by_cases hfirst : n < (actionsAt b₁.blocks l).length
    · exact ⟨_, List.mem_cons_self, rfl, hn.1, hfirst⟩
    · exact ⟨_, List.mem_cons_of_mem _ List.mem_cons_self, rfl, Nat.le_of_not_lt hfirst, hn.2⟩
  case leave => exact ⟨_, List.mem_cons_self, rfl, hn⟩

theorem Site.Run.author (h : p.Run env) :
    p.isStmt = true → p.Emits l n → ∃ q, Part env p q ∧ q.Authors env l n := by
  refine Site.Run.induct (fun p ps hsplits hparts hp hn => ?_) h
  have hrun : ps.Forall (·.Run env) := hparts.imp fun _ => And.left
  by_cases hinner : ∃ q ∈ ps, q.isStmt = true ∧ q.Emits l n
  · obtain ⟨q, hq, hstmt, hemits⟩ := hinner
    obtain ⟨r, hr, hauthor⟩ := (List.forall_iff_forall_mem.mp hparts q hq).2 hstmt hemits
    exact ⟨r, .head ⟨ps, hsplits, hrun, hq⟩ hr, hauthor⟩
  · -- then the site is a statement, since the others leave all of it to their parts
    have hown : ∀ q ∈ ps, q.isStmt = true → ¬ q.Emits l n :=
      fun q hq hstmt hemits => hinner ⟨q, hq, hstmt, hemits⟩
    refine ⟨p, .refl, ?_, hn, ps, hsplits, hrun, hown⟩
    by_contra hnode
    exact hinner (hsplits.emits_of_stmt?_eq_none hp (by simpa using hnode) hn)

theorem Site.Settled.scope_eq_of_authors (h : p.Settled env bf) (hauthor : p.Authors env l n)
    (ha : (actionsAt bf.blocks l)[n]? = some a) : a.scope = p.spot.scope := by
  obtain ⟨hstmt, hemits, ps, hsplits, hrun, hown⟩ := hauthor
  have hblock : p.node.isBlock = false := by
    cases hnode : p.node <;> simp [hnode, Node.stmt?, Node.isBlock] at hstmt ⊢
  rcases h.scope_eq_or hblock hsplits hrun ha hemits with hscope | ⟨q, hq, hemits'⟩
  · exact hscope
  · -- the action belongs to an expression of the statement
    have hexpr : q.isStmt = false := Bool.eq_false_iff.mpr fun hq' => hown q hq hq' hemits'
    have hchild : Child env p q := ⟨ps, hsplits, hrun, hq⟩
    rw [← hchild.scope_eq hblock]
    have hq' := hchild.settled h
    exact hq'.run.scope_eq ha hq' hexpr hemits'

end Emission

def Site.Closes (p : Site) (l : Label) : Prop := (l = p.here ∨ ¬ p.Avoids l) ∧ p.out ≠ some l

section Closing

variable {env : Env} {p : Site} {ps : List Site} {bf : Builder} {l : Label} {n : Nat} {t : Transfer}
  {u : Terminator}

theorem Splits.closes (h : Splits env p ps) (hp : p.Settled env bf) (hps : ∀ q ∈ ps, q.Settled env bf)
    (hc : (l, t) ∈ p.closings env ps) :
    p.Closes l ∧ (∀ q ∈ ps, ¬ q.Closes l) ∧ ∀ t', (l, t') ∈ p.closings env ps → t' = t := by
  -- the parts come one after another, and each of them goes on in a block of its own
  have hhere := hp.isOpen.lt
  have hle := fun q hq => (hps q hq).run.keeps.nextLabel_le
  have hlt := fun q hq m => (hps q hq).out_lt (l := m)
  have hplace := fun q hq m => (hps q hq).out_place (l := m)
  cases h with
  | call hf | breakLoop hf | continueLoop hf =>
    simp [Site.closings, hf, Site.Closes, Site.Avoids, Site.first, Site.last, Site.here, Site.out,
      Builder.call] at hhere hle hlt hplace hc ⊢
    grind
  | ternary | ifThen | ifElse | whileLoop | ret | retValue | panic | lockLeft | lock =>
    simp [Site.closings, Site.Closes, Site.Avoids, Site.first, Site.last, Site.here, Site.out,
      Builder.fork, Builder.join, Builder.enterLoop, Builder.result, nextLabel_gotoFrom]
      at hhere hle hlt hplace hc ⊢
    grind
  | _ => simp [Site.closings] at hc

theorem transferAt_of_isPrefix {blocks : List BasicBlock} {actions : List Action}
    (h : actionsAt blocks l <+: actions) (ha : actions[n]? = some (.terminator u))
    (hn : n < (actionsAt blocks l).length) : transferAt blocks l = some u.transfer := by
  obtain ⟨later, rfl⟩ := h
  rw [List.getElem?_append_left hn] at ha
  obtain ⟨block, hl, hu⟩ := terminator_mem_actionsAt.mp (List.mem_of_getElem? ha)
  exact transferAt_eq_some_iff.mpr ⟨block, u, hl, hu, rfl⟩

theorem Site.Settled.closes_of_transferAt (h : p.Settled env bf)
    (hlast : transferAt p.last.blocks l = some t) (hfirst : transferAt p.first.blocks l ≠ some t) :
    p.Closes l := by
  refine ⟨?_, fun hout => ?_⟩
  · by_contra hl
    obtain ⟨hne, havoid⟩ := not_or.mp hl
    rw [transferAt_congr (h.keeps hne (not_not.mp havoid))] at hlast
    exact hfirst hlast
  · rw [transferAt_of_openAt (h.region.isOpen hout)] at hlast
    cases hlast

theorem Site.Settled.emits_iff_closes (h : p.Settled env bf)
    (ha : (actionsAt bf.blocks l)[n]? = some (.terminator u)) : p.Emits l n ↔ p.Closes l := by
  constructor
  · rintro ⟨hle, hlt⟩
    have hlast := transferAt_of_isPrefix (h.sealed.grows.actionsAt_isPrefix l) ha hlt
    refine h.closes_of_transferAt hlast fun hfirst => ?_
    -- a block that is closed gets no more code
    rw [h.region.steps.grows.actionsAt_eq hfirst] at hlt
    exact Nat.not_lt.mpr hle hlt
  · rintro ⟨hplace, hout⟩
    obtain ⟨t, ht⟩ := h.closed hplace hout
    refine ⟨Nat.le_of_not_lt fun hlt => ?_, ?_⟩
    · have hfirst := transferAt_of_isPrefix (h.grows.actionsAt_isPrefix l) ha hlt
      rw [h.transferAt_first hplace] at hfirst
      cases hfirst
    · rw [← h.sealed.grows.actionsAt_eq ht]
      exact (List.getElem?_eq_some_iff.mp ha).1

theorem Site.Settled.closing (h : p.Settled env bf) (hsplits : Splits env p ps)
    (hrun : ps.Forall (·.Run env)) (hc : (l, t) ∈ p.closings env ps) :
    ∃ u, .terminator u ∈ actionsAt bf.blocks l ∧ u.transfer = t ∧ u.scope = p.spot.scope := by
  have hps : ∀ q ∈ ps, q.Settled env bf := fun q hq => Child.settled ⟨ps, hsplits, hrun, hq⟩ h
  obtain ⟨⟨hplace, hout⟩, hparts, hunique⟩ := hsplits.closes h hps hc
  obtain ⟨t', hlast⟩ := h.closed hplace hout
  have heq : t' = t := by
    rcases hsplits.linked.origin hlast with hold | hown | ⟨q, hq, hqlast, hqfirst⟩
    · simp [h.transferAt_first hplace] at hold
    · exact hunique t' hown
    · exact absurd ((hps q hq).closes_of_transferAt hqlast hqfirst) (hparts q hq)
  obtain ⟨block, u, hl, hu, ht⟩ := transferAt_eq_some_iff.mp (h.sealed.grows.transferAt hlast)
  have hmem := terminator_mem_actionsAt.mpr ⟨block, hl, hu⟩
  refine ⟨u, hmem, ht.trans heq, ?_⟩
  obtain ⟨n, ha⟩ := List.mem_iff_getElem?.mp hmem
  have hemits := (h.emits_iff_closes ha).mpr ⟨hplace, hout⟩
  have hblock : p.node.isBlock = false := by
    cases hsplits with
    | scope => cases hc
    | _ => rfl
  rcases h.scope_eq_or hblock hsplits hrun ha hemits with hscope | ⟨q, hq, hqemits⟩
  · exact hscope
  · exact absurd (((hps q hq).emits_iff_closes ha).mp hqemits) (hparts q hq)

end Closing

/-- `LiesAt env root p s`: the way from `root` down to `p` leads to `s` in the source. The body of the
function is in scope 0. -/
inductive LiesAt (env : Env) (root : Site) : Site → Spot → Prop
  | root : LiesAt env root root ⟨root.node, 0, 1⟩
  | part {p s ps q t} : LiesAt env root p s → Splits env p ps → ps.Forall (·.Run env) →
    (q, t) ∈ ps.zip s.parts → LiesAt env root q t

def SpotOf (env : Env) (stem : String) (f : FunctionDef) (g : Graph) (p : Site) (s : Spot) : Prop :=
  ∃ b root, Root f.body (env.enter stem f) b root ∧ root.Run env ∧ g = b.graph env f ∧
    LiesAt env root p s

section Roots

variable {env : Env} {stem : String} {f : FunctionDef} {g : Graph} {root p q : Site} {s : Spot}
  {b bf : Builder} {l : Label} {n : Nat} {a : Action}

theorem Splits.zip_parts {ps : List Site} (h : Splits env p ps) (hrun : ps.Forall (·.Run env)) :
    ps.zip p.spot.parts = ps.map fun q => (q, q.spot) := by
  have hall := List.forall_iff_forall_mem.mp hrun
  rw [← h.spots hrun fun q hq => (hall q hq).scopes]
  simpa using List.zip_map' (f := id) (g := Site.spot) (l := ps)

theorem LiesAt.part_spot (h : LiesAt env root p s) (hroot : root.spot = ⟨root.node, 0, 1⟩) :
    Part env root p ∧ p.spot = s := by
  induction h with
  | root => exact ⟨.refl, hroot⟩
  | part _ hsplits hrun hmem ih =>
    obtain ⟨hpart, rfl⟩ := ih
    rw [hsplits.zip_parts hrun] at hmem
    obtain ⟨q, hq, heq⟩ := List.mem_map.mp hmem
    cases heq
    exact ⟨hpart.tail ⟨_, hsplits, hrun, hq⟩, rfl⟩

theorem Part.liesAt (h : Part env root p) (hroot : root.spot = ⟨root.node, 0, 1⟩) :
    LiesAt env root p p.spot := by
  induction h with
  | refl => exact hroot ▸ .root
  | tail _ hchild ih =>
    obtain ⟨ps, hsplits, hrun, hq⟩ := hchild
    refine .part ih hsplits hrun ?_
    rw [hsplits.zip_parts hrun]
    exact List.mem_map_of_mem hq

theorem Root.spot (h : Root f.body (env.enter stem f) b root) : root.spot = ⟨root.node, 0, 1⟩ := by
  simp [Site.spot, h.first_eq, Env.enter_scopes]

theorem Root.stamp {body : Body} (h : Root body b bf p) : Stamp p.last bf := by
  cases h with
  | leaves => exact .refl _
  | fallsOff => exact (Stamp.refl _).close
  | expr => exact (Stamp.refl _).append.close

theorem Root.returns {body : Block} (h : Root (.block body) b bf p) (hp : p.Settled env bf)
    (ha : (actionsAt bf.blocks l)[n]? = some a) (hn : (actionsAt p.last.blocks l).length ≤ n) :
    ∃ t, a = .terminator t ∧ t.transfer = .ret := by
  cases h with
  | leaves => exact absurd (List.getElem?_eq_some_iff.mp ha).1 (Nat.not_lt.mpr hn)
  | @fallsOff _ _ last b' =>
    have hopen : b'.IsOpen last := hp.region.isOpen rfl
    have hlength : (actionsAt b'.blocks l).length ≤ n := hn
    rw [actionsAt_close hopen, List.getElem?_append_right hlength] at ha
    have hmem := List.mem_of_getElem? ha
    simp only [List.mem_ite_nil_right, List.mem_singleton] at hmem
    exact ⟨_, hmem.2, rfl⟩

theorem SpotOf.siteOf (h : SpotOf env stem f g p s) : SiteOf env stem f g p ∧ p.spot = s := by
  obtain ⟨b, root, hroot, hrun, hg, hlies⟩ := h
  obtain ⟨hpart, hspot⟩ := hlies.part_spot hroot.spot
  exact ⟨⟨b, root, hroot, hrun, hg, hpart⟩, hspot⟩

theorem SiteOf.spotOf (h : SiteOf env stem f g p) : SpotOf env stem f g p p.spot := by
  obtain ⟨b, root, hroot, hrun, hg, hpart⟩ := h
  exact ⟨b, root, hroot, hrun, hg, hpart.liesAt hroot.spot⟩

theorem BodyRun.scopes (h : BodyRun env f.body (env.enter stem f) bf) : bf.scopes = ⟨f.scopes, 0⟩ := by
  obtain ⟨root, hroot, hrun⟩ := h.root
  rw [hroot.stamp.scopes, hrun.scopes, hroot.first_eq]
  simp [ScopeTree.add, Env.enter_scopes, FunctionDef.scopes, hroot.node]

theorem FunctionRun.scopes_eq (h : FunctionRun env stem f g) : g.scopes = f.scopes := by
  obtain ⟨b, hbody, rfl⟩ := h
  exact congrArg ScopeTree.scopes hbody.scopes

theorem FunctionRun.live_iff_spotOf {m : Node} (h : FunctionRun env stem f g) :
    f.Live m ↔ ∃ p s, SpotOf env stem f g p s ∧ s.node = m := by
  rw [h.live_iff]
  constructor
  · rintro ⟨p, hsite, hnode⟩
    exact ⟨p, p.spot, hsite.spotOf, hnode⟩
  · rintro ⟨p, s, hspot, hnode⟩
    obtain ⟨hsite, rfl⟩ := hspot.siteOf
    exact ⟨p, hsite, hnode⟩

theorem SpotOf.scope_eq (h : SpotOf env stem f g p s) (hauthor : p.Authors env l n)
    (ha : (actionsAt g.blocks l)[n]? = some a) : a.scope = s.scope := by
  obtain ⟨hsite, rfl⟩ := h.siteOf
  obtain ⟨b, rfl, hp⟩ := hsite.settled
  exact hp.scope_eq_of_authors hauthor ha

theorem SpotOf.closing {ps : List Site} {t : Transfer} (h : SpotOf env stem f g p s)
    (hsplits : Splits env p ps) (hrun : ps.Forall (·.Run env)) (hc : (l, t) ∈ p.closings env ps) :
    ∃ u, .terminator u ∈ actionsAt g.blocks l ∧ u.transfer = t ∧ u.scope = s.scope := by
  obtain ⟨hsite, rfl⟩ := h.siteOf
  obtain ⟨b, rfl, hp⟩ := hsite.settled
  exact hp.closing hsplits hrun hc

theorem FunctionRun.getElem?_scopes_iff {c k : ScopeId} (h : FunctionRun env stem f g) :
    g.scopes[k]? = some ⟨k, some c⟩ ↔ ∃ p body, SpotOf env stem f g p ⟨.block body, c, k⟩ := by
  constructor
  · intro hk
    have hscope := List.mem_of_getElem? hk
    rw [h.scopes_eq, FunctionDef.scopes] at hscope
    obtain ⟨b, hbody, rfl⟩ := h
    obtain ⟨root, hroot, hrun⟩ := hbody.root
    have hmem : ⟨k, some c⟩ ∈ root.spot.scopes := by
      simpa [hroot.node, hroot.spot, Spot.scopes] using hscope
    obtain ⟨q, body, hpart, hspot⟩ := hrun.exists_of_mem_scopes hmem
    exact ⟨q, body, hspot ▸ SiteOf.spotOf ⟨b, root, hroot, hrun, rfl, hpart⟩⟩
  · rintro ⟨p, body, hplace⟩
    obtain ⟨hsite, hspot⟩ := hplace.siteOf
    obtain ⟨b, rfl, hp⟩ := hsite.settled
    obtain ⟨hnode, rfl, rfl⟩ := Spot.mk.inj hspot
    obtain ⟨later, hlater⟩ := hp.sealed.grows.scopes
    obtain ⟨stmts, span⟩ := body
    rw [hp.run.scopes, ScopeTree.add, hnode] at hlater
    simp [Builder.graph, ← hlater, Node.scopes, Block.scopes]

theorem BodyRun.author (h : BodyRun env f.body (env.enter stem f) bf)
    (ha : (actionsAt bf.blocks l)[n]? = some a) :
    (∃ p s, SpotOf env stem f (bf.graph env f) p s ∧ p.Authors env l n) ∨
      a.scope = 0 ∧ ∀ body, f.body = .block body → ∃ t, a = .terminator t ∧ t.transfer = .ret := by
  have hscopes := h.scopes
  obtain ⟨root, hroot, hrun⟩ := h.root
  have hsettled := hroot.settled hrun (env.enter_sound stem f)
  by_cases hlast : n < (actionsAt root.last.blocks l).length
  · have hemits : root.Emits l n := by
      refine ⟨?_, hlast⟩
      rw [hroot.first_eq, actionsAt_grow]
      simp [actionsAt, env.enter_blocks]
    cases hstmt : root.isStmt with
    | true =>
      obtain ⟨p, hpart, hauthor⟩ := hrun.author hstmt hemits
      exact .inl ⟨p, p.spot, ⟨bf, root, hroot, hrun, rfl, hpart.liesAt hroot.spot⟩, hauthor⟩
    | false =>
      right
      refine ⟨?_, fun body hbody => ?_⟩
      · rw [hrun.scope_eq ha hsettled hstmt hemits, hroot.spot]
      · rw [hbody] at hroot
        cases hroot <;> cases hstmt
  · right
    have hbehind := Nat.le_of_not_lt hlast
    refine ⟨?_, fun body hbody => ?_⟩
    · have hlt := (List.getElem?_eq_some_iff.mp ha).1
      have hbefore := hsettled.sealed.grows.actionsAt_isPrefix l
      rw [hroot.stamp.scope_eq hbefore List.prefix_rfl ha hbehind hlt, ← hroot.stamp.scopes, hscopes]
    · rw [hbody] at hroot
      exact hroot.returns hsettled ha hbehind

end Roots

/-- The scopes of a graph are the blocks of its source: after the one of the function comes one for each
live block, in the order of the source, within that of the block around it. Whatever a statement puts
down itself is in the scope that the statement is in, the branches and jumps of a conditional or a loop
too; and what is put down without a statement is in scope 0: the value of an expression body, or the
return at the end of a body. -/
theorem lowerFunction_scopes {env : Env} {stem : String} {f : FunctionDef} {g : Graph} {b : Builder}
    (h : lowerFunction env f { stem := stem } = .ok g b) :
    g.scopes = f.scopes ∧
    (∀ n, f.Live n ↔ ∃ p s, SpotOf env stem f g p s ∧ s.node = n) ∧
    (∀ c k, g.scopes[k]? = some ⟨k, some c⟩ ↔ ∃ p body, SpotOf env stem f g p ⟨.block body, c, k⟩) ∧
    (∀ l n a, (actionsAt g.blocks l)[n]? = some a →
      (∀ p s, SpotOf env stem f g p s → p.Authors env l n → a.scope = s.scope) ∧
      ((∃ p s, SpotOf env stem f g p s ∧ p.Authors env l n) ∨
        a.scope = 0 ∧ ∀ body, f.body = .block body → ∃ t, a = .terminator t ∧ t.transfer = .ret)) ∧
    ∀ p s ps l t, SpotOf env stem f g p s → Splits env p ps → ps.Forall (·.Run env) →
      (l, t) ∈ p.closings env ps →
      ∃ u, .terminator u ∈ actionsAt g.blocks l ∧ u.transfer = t ∧ u.scope = s.scope := by
  have hrun := lowerFunction_run h
  refine ⟨hrun.scopes_eq, fun n => hrun.live_iff_spotOf, fun c k => hrun.getElem?_scopes_iff,
    fun l n a ha => ⟨fun p s hspot hauthor => hspot.scope_eq hauthor ha, ?_⟩,
    fun p s ps l t hspot => hspot.closing⟩
  obtain ⟨b', hbody, rfl⟩ := hrun
  exact hbody.author ha

def nesting : FunctionDef where
  name := ⟨"f", {}⟩
  params := [⟨⟨"x", {}⟩, ⟨0, 0⟩, none, {}⟩]
  body := .block (.mk [
    .ifElse {} (.var {} ⟨"x", {}⟩ ⟨0, 0⟩)
      (.mk [.block {} (.mk [.expr {} (.call {} none ⟨"f", {}⟩ [])] {})] {})
      (.ifThen {} (.var {} ⟨"x", {}⟩ ⟨0, 0⟩) (.mk [.ret {} none, .block {} (.mk [] {})] {})),
    .whileLoop {} (.var {} ⟨"x", {}⟩ ⟨0, 0⟩) (.mk [
      .lock {} (.mk [.breakLoop {}] {}), .block {} (.mk [] {})] {}),
    .panic {} (.var {} ⟨"x", {}⟩ ⟨0, 0⟩)] {})

theorem nesting_scopes : ∃ g b,
    lowerFunction ⟨.anonymous, id, [], []⟩ nesting { stem := "bb" } = .ok g b ∧
    g.scopes = [⟨0, none⟩, ⟨1, some 0⟩, ⟨2, some 1⟩, ⟨3, some 0⟩, ⟨4, some 0⟩, ⟨5, some 4⟩] ∧
    transferAt g.blocks 10 = some (.goto 9) ∧
    ∃ p s, SpotOf ⟨.anonymous, id, [], []⟩ "bb" nesting g p s ∧ p.Authors ⟨.anonymous, id, [], []⟩ 10 0 ∧
      s.scope = 5 := by
  have hlowers : Env.lowersTo ⟨.anonymous, id, [], []⟩ "bb" nesting (fun g =>
      transferAt g.blocks 10 = some (.goto 9) ∧
        (actionsAt g.blocks 10).map Action.scope = [5]) = true := by
    decide +kernel
  obtain ⟨g, b, hg, htest⟩ := Env.exists_of_lowersTo hlowers
  obtain ⟨hjump, hactions⟩ := of_decide_eq_true htest
  obtain ⟨a, ha, hfive⟩ := List.map_eq_singleton_iff.mp hactions
  obtain ⟨hscopes, -, -, hall, -⟩ := lowerFunction_scopes hg
  obtain ⟨hscope, hauthor⟩ := hall 10 0 a (by rw [ha]; rfl)
  refine ⟨g, b, hg, hscopes, hjump, ?_⟩
  obtain ⟨p, s, hspot, hp⟩ | ⟨hzero, -⟩ := hauthor
  · exact ⟨p, s, hspot, hp, (hscope p s hspot hp).symm.trans hfive⟩
  · cases hzero.symm.trans hfive

end FlowGraph

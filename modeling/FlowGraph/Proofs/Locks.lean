import FlowGraph.Proofs.Confinement
import FlowGraph.Proofs.Definedness
import Mathlib.Algebra.Ring.Int.Defs

/-!
Locks are given back. Where the bodies of locks are left at their ends only, each block has a level: the
number of locks that are held wherever control enters it. A lock raises the level for its body, nothing
else changes it, and a function returns at level zero.
-/

namespace FlowGraph

open Builder

mutual

def Stmt.jumps : Stmt → Bool
  | .breakLoop _ | .continueLoop _ => true
  | .block _ body | .ifThen _ _ body | .lock _ body => body.jumps
  | .ifElse _ _ body otherwise => body.jumps || otherwise.jumps
  | _ => false

def Block.jumps : Block → Bool
  | .mk stmts _ => jumpsList stmts

def jumpsList : List Stmt → Bool
  | [] => false
  | s :: stmts => s.jumps || !s.leaves && jumpsList stmts

end

def Node.jumps : Node → Bool
  | .stmt s => s.jumps
  | .block body => body.jumps
  | .stmts ss => jumpsList ss
  | _ => false

theorem Node.jumps_of_part {n m : Node} (hm : m ∈ n.parts) (hn : n.isLoop = false) (h : m.jumps = true) :
    n.jumps = true := by
  cases n with
  | expr e => cases e <;> simp_all [parts] <;> grind [jumps]
  | args es => cases es <;> grind [parts, jumps]
  | fields fs => cases fs <;> grind [parts, jumps]
  | store target => cases target <;> simp_all [parts] <;> grind [jumps]
  | stmt s =>
    cases s with
    | ret _ value => cases value <;> simp_all [parts, jumps]
    | define _ var => cases hi : var.init <;> simp_all [parts, jumps]
    | _ => simp_all [parts, isLoop, jumps, Stmt.jumps] <;> grind [jumps]
  | block body =>
    cases body
    simp_all [parts, jumps, Block.jumps]
  | stmts ss => cases ss <;> grind [parts, jumps, jumpsList]

def Stmt.isReturn : Stmt → Bool
  | .ret _ _ => true
  | _ => false

/-- There is no way out of the block but at its end, or by a panic. -/
def Block.IsTight (body : Block) : Prop := body.jumps = false ∧ ∀ s ∈ body.inner, s.isReturn = false

instance (body : Block) : Decidable body.IsTight := inferInstanceAs (Decidable (_ ∧ _))

def Transfer.delta : Transfer → Int
  | .lock _ => 1
  | .unlock _ => -1
  | _ => 0

theorem Transfer.delta_nonneg_or (t : Transfer) : 0 ≤ t.delta ∨ ∃ m, t = .unlock m := by
  cases t <;> simp [delta]

/-- The levels of the blocks: an edge changes the level as it takes or gives back a lock, and a return
is at level zero. -/
structure Leveled (ls : List Nat) (b : Builder) : Prop where
  length_eq : ls.length = b.nextLabel
  edges : ∀ l t m, transferAt b.blocks l = some t → m ∈ t.successors →
    ∃ c d, ls[l]? = some c ∧ ls[m]? = some d ∧ (d : Int) = c + t.delta
  returns : ∀ l, transferAt b.blocks l = some .ret → ls[l]? = some 0

theorem level_mono {ls ls' : List Nat} {l : Label} {d : Nat} (h : ls <+: ls') (hl : ls[l]? = some d) :
    ls'[l]? = some d := by
  obtain ⟨rest, rfl⟩ := h
  rw [List.getElem?_append_left (List.getElem?_eq_some_iff.mp hl).1, hl]

theorem level_snoc {ls : List Nat} {l : Label} {c d : Nat} (hl : ls[l]? = some d) :
    (ls ++ [c])[l]? = some d := level_mono (List.prefix_append ls [c]) hl

namespace Leveled

variable {ls : List Nat} {b b₁ : Builder} {l m : Label} {c d : Nat} {span : Span}

theorem grow (h : Leveled ls b) (d : Nat) : Leveled (ls ++ [d]) b.grow where
  length_eq := by simp [h.length_eq]
  edges l t m ht hm := by
    obtain ⟨c, d, hl, hm, he⟩ := h.edges l t m (by simpa using ht) hm
    exact ⟨c, d, level_snoc hl, level_snoc hm, he⟩
  returns l ht := level_snoc (h.returns l (by simpa using ht))

theorem level_new (h : Leveled ls b) (d : Nat) : (ls ++ [d])[b.nextLabel]? = some d := by
  simp [← h.length_eq]

theorem same (h : Leveled ls b) (hn : b₁.nextLabel = b.nextLabel)
    (ht : ∀ l, transferAt b₁.blocks l = transferAt b.blocks l) : Leveled ls b₁ :=
  ⟨h.length_eq.trans hn.symm, by simpa only [ht] using h.edges, by simpa only [ht] using h.returns⟩

theorem close (h : Leveled ls b) {dst : Option Slot} {t : Transfer} (hl : ls[l]? = some c)
    (ht : ∀ m ∈ t.successors, ∃ d, ls[m]? = some d ∧ (d : Int) = c + t.delta)
    (hret : t = .ret → c = 0) : Leveled ls (b.close l dst t span) where
  length_eq := by simp [h.length_eq]
  edges k u m hu hm := by
    rcases transferAt_of_close hu with hold | ⟨rfl, rfl⟩
    · exact h.edges k u m hold hm
    · obtain ⟨d, hd, he⟩ := ht m hm
      exact ⟨c, d, hl, hd, he⟩
  returns k hu := by
    rcases transferAt_of_close hu with hold | ⟨rfl, rfl⟩
    · exact h.returns k hold
    · rw [hl, hret rfl]

theorem goto (h : Leveled ls b) (hl : ls[l]? = some d) (hm : ls[m]? = some d) :
    Leveled ls (b.close l none (.goto m) span) :=
  h.close hl (by simp [Transfer.successors, Transfer.delta, hm]) nofun

theorem gotoFrom (h : Leveled ls b) {fin : Option Label} (hl : ∀ l, fin = some l → ls[l]? = some d)
    (hm : ls[m]? = some d) : Leveled ls (b.gotoFrom fin m span) := by
  cases fin with
  | none => exact h
  | some l => exact h.goto (hl l rfl) hm

theorem branch (h : Leveled ls b) {cond : Slot} {k : Label} (hl : ls[l]? = some d) (hk : ls[k]? = some d)
    (hm : ls[m]? = some d) : Leveled ls (b.close l none (.branch cond k m) span) :=
  h.close hl (by simp [Transfer.successors, Transfer.delta, hk, hm]) nofun

theorem ret (h : Leveled ls b) (hl : ls[l]? = some 0) : Leveled ls (b.close l none .ret span) :=
  h.close hl (by simp [Transfer.successors]) fun _ => rfl

theorem panic (h : Leveled ls b) {s : Slot} (hl : ls[l]? = some d) :
    Leveled ls (b.close l none (.panic s) span) :=
  h.close hl (by simp [Transfer.successors]) nofun

theorem lock (h : Leveled ls b) (hl : ls[l]? = some d) (hm : ls[m]? = some (d + 1)) :
    Leveled ls (b.close l none (.lock m) span) :=
  h.close hl (by simp [Transfer.successors, Transfer.delta, hm]) nofun

theorem unlock (h : Leveled ls b) (hl : ls[l]? = some (d + 1)) (hm : ls[m]? = some d) :
    Leveled ls (b.close l none (.unlock m) span) :=
  h.close hl (by simp [Transfer.successors, Transfer.delta, hm]) nofun

theorem level_exit (h : Leveled ls b) (d : Nat) : (ls ++ [d] ++ [d])[b.nextLabel + 1]? = some d := by
  simp [← h.length_eq]

theorem enterLoop (h : Leveled ls b) {cond : Placed} {head : Label} (hl : ls[cond.block]? = some d) :
    Leveled (ls ++ [d] ++ [d]) (b.enterLoop head cond span) := by
  have hbranch : Leveled (ls ++ [d] ++ [d]) (b.grow.grow.close cond.block none
      (.branch cond.slot b.nextLabel (b.nextLabel + 1)) span) :=
    ((h.grow d).grow d).branch (level_snoc (level_snoc hl)) (level_snoc (h.level_new d)) (h.level_exit d)
  exact hbranch.same rfl fun _ => rfl

theorem pad (h : Leveled ls b) {n : Nat} (hle : b.nextLabel ≤ n) (hl : ls[l]? = some d) :
    ∃ ls', ls <+: ls' ∧ ls'.length = n ∧
      ∀ m, m = l ∨ (b.nextLabel ≤ m ∧ m < n) → ls'[m]? = some d := by
  have hlen := h.length_eq
  refine ⟨ls ++ List.replicate (n - b.nextLabel) d, List.prefix_append _ _, ?_, ?_⟩
  · simp
    lia
  · rintro m (rfl | ⟨hge, hlt⟩)
    · exact level_mono (List.prefix_append _ _) hl
    · rw [List.getElem?_append_right (by lia), List.getElem?_replicate_of_lt (by lia)]

end Leveled

def Site.Rises (p : Site) (ls : List Nat) (d : Nat) : Prop :=
  ∃ ls', ls <+: ls' ∧ Leveled ls' p.last ∧ ∀ l, p.out = some l → ls'[l]? = some d

theorem Site.Rises.new {p : Site} {ls ls' : List Nat} {d : Nat} {b : Builder} (hle : ls <+: ls')
    (h : Leveled ls' b) (hlast : Leveled (ls' ++ [d]) p.last) (hout : p.out = some b.nextLabel) :
    p.Rises ls d := by
  refine ⟨ls' ++ [d], hle.trans (List.prefix_append _ _), hlast, fun l hl => ?_⟩
  obtain rfl := Option.some.inj (hout.symm.trans hl)
  exact h.level_new d

section Expressions

variable {env : Env} {p : Site} {ps : List Site} {l : Label} {t : Transfer} {ls : List Nat} {d : Nat}

theorem Splits.delta_of_plain (h : Splits env p ps) (hp : p.isStmt = false)
    (hc : (l, t) ∈ p.closings env ps) : t.delta = 0 ∧ t ≠ .ret := by
  cases h <;> cases hp <;> simp [Site.closings] at hc
  case call hcallee =>
    simp [hcallee] at hc
    simp [hc, Transfer.delta]
  case ternary =>
    rcases hc with ⟨-, rfl⟩ | ⟨-, rfl⟩ | ⟨-, rfl⟩ <;> simp [Transfer.delta]

theorem Site.Run.delta_of_plain (h : p.Run env) (hp : p.isStmt = false)
    (hlast : transferAt p.last.blocks l = some t) (hfirst : transferAt p.first.blocks l = none) :
    t.delta = 0 ∧ t ≠ .ret := by
  rcases h.origin hlast with hold | ⟨q, qs, hpart, hsplits, -, hc⟩
  · simp [hfirst] at hold
  · exact hsplits.delta_of_plain (hpart.isStmt hp) hc

theorem Site.Run.closed_of_plain (h : p.Run env) (hp : p.isStmt = false) (ho : p.first.IsOpen p.here)
    (ht : transferAt p.last.blocks l = some t) :
    transferAt p.first.blocks l = some t ∨
      (l = p.here ∨ (p.first.nextLabel ≤ l ∧ l < p.last.nextLabel)) ∧ t.delta = 0 ∧ t ≠ .ret := by
  have hconf : Confined p.first p.here p.last (fun l => p.out = some l) fun _ => False :=
    h.confines _ ho (by simp [Site.JumpsTo, hp])
  have hlt : l < p.last.nextLabel := Nat.lt_of_not_le fun hge => by simp [transferAt_of_le hge] at ht
  by_cases hl : l = p.here ∨ p.first.nextLabel ≤ l
  · have hfirst : transferAt p.first.blocks l = none := by
      rcases hl with rfl | hge
      · exact transferAt_of_openAt ho
      · exact transferAt_of_le hge
    exact .inr ⟨hl.imp_right fun hge => ⟨hge, hlt⟩, h.delta_of_plain hp ht hfirst⟩
  · rw [← transferAt_congr (hconf.keeps l (by lia) (by lia))]
    exact .inl ht

theorem Site.Run.rises_of_plain (h : p.Run env) (hp : p.isStmt = false) (ho : p.first.IsOpen p.here)
    (hls : Leveled ls p.first) (hd : ls[p.here]? = some d) : p.Rises ls d := by
  have hconf : Confined p.first p.here p.last (fun l => p.out = some l) fun _ => False :=
    h.confines _ ho (by simp [Site.JumpsTo, hp])
  obtain ⟨ls', hle, hlength, hnew⟩ := hls.pad hconf.nextLabel_le hd
  refine ⟨ls', hle, ⟨hlength, fun l t m ht hm => ?_, fun l ht => ?_⟩, fun l hl => ?_⟩
  · rcases h.closed_of_plain hp ho ht with hold | ⟨hl, hdelta, -⟩
    · obtain ⟨c, d, hc, hd, he⟩ := hls.edges l t m hold hm
      exact ⟨c, d, level_mono hle hc, level_mono hle hd, he⟩
    · have hm' := (hconf.edges l t m (hl.imp_right And.left) ht hm).resolve_right id
      exact ⟨d, d, hnew l hl, hnew m (.inr hm'), by simp [hdelta]⟩
  · rcases h.closed_of_plain hp ho ht with hold | ⟨-, -, hne⟩
    · exact level_mono hle (hls.returns l hold)
    · exact absurd rfl hne
  · exact hnew l ((hconf.place l hl).imp_right fun hge => ⟨hge, hconf.lt hl⟩)

end Expressions

/-- What is asked of code at level `d`: the bodies of its locks are tight, there is no return but at
level zero, and its jumps go to blocks of that level. -/
structure Site.Legal (p : Site) (ls : List Nat) (d : Nat) : Prop where
  tight : ∀ span body, .lock span body ∈ p.node.statements → body.IsTight
  returns : d ≠ 0 → ∀ s ∈ p.node.statements, s.isReturn = false
  jumps : p.node.jumps = true → ∀ frame ∈ p.first.loop?,
    ls[frame.onBreak]? = some d ∧ ls[frame.onContinue]? = some d

def Site.Levels (p : Site) : Prop :=
  ∀ ls d, Leveled ls p.first → ls[p.here]? = some d → p.Legal ls d → p.Rises ls d

section Statements

variable {env : Env} {p q : Site} {ps : List Site} {ls ls' : List Nat} {d : Nat}

theorem Site.Legal.of_plain (hp : p.isStmt = false) : p.Legal ls d := by
  cases p <;> cases hp <;> exact ⟨nofun, nofun, nofun⟩

theorem Site.Legal.zero {span : Span} {value : Option Expr} (h : p.Legal ls d)
    (hp : p.node = .stmt (.ret span value)) : d = 0 := by
  by_contra hne
  have := h.returns hne (.ret span value) (by simp [hp, Node.statements])
  cases this

theorem Child.mem_statements (h : Child env p q) {s : Stmt} (hs : s ∈ q.node.statements) :
    s ∈ p.node.statements := Node.mem_statements_of_within (.single h.node) hs

theorem Site.Legal.part (h : p.Legal ls d) (hq : Child env p q) (hloop : p.isLoop = false)
    (hle : ls <+: ls') : q.Legal ls' d where
  tight span body hs := h.tight span body (hq.mem_statements hs)
  returns hd s hs := h.returns hd s (hq.mem_statements hs)
  jumps hj frame hf := by
    have hjumps := h.jumps (Node.jumps_of_part hq.node hloop hj) frame
    rw [Builder.loop?, hq.loops hloop] at hf
    exact (hjumps hf).imp (level_mono hle) (level_mono hle)

theorem Site.Legal.loopBody (h : p.Legal ls d) (hq : Child env p q) {frame : LoopFrame}
    (hf : q.first.loop? = some frame) (hb : ls'[frame.onBreak]? = some d)
    (hc : ls'[frame.onContinue]? = some d) : q.Legal ls' d where
  tight span body hs := h.tight span body (hq.mem_statements hs)
  returns hd s hs := h.returns hd s (hq.mem_statements hs)
  jumps _ frame' hf' := by
    obtain rfl := Option.some.inj (hf.symm.trans hf')
    exact ⟨hb, hc⟩

theorem Site.Legal.lockBody {span : Span} {body : Block} (h : p.Legal ls d)
    (hp : p.node = .stmt (.lock span body)) (hq : Child env p q) (hnode : q.node = .block body) (d' : Nat) :
    q.Legal ls' d' := by
  have htight := h.tight span body (by simp [hp, Node.statements])
  refine ⟨fun span body hs => h.tight span body (hq.mem_statements hs), fun _ s hs => ?_, fun hj => ?_⟩
  · rw [hnode] at hs
    exact htight.2 s hs
  · rw [hnode] at hj
    exact absurd hj (by simp [Node.jumps, htight.1])

theorem Splits.levels (h : Splits env p ps) (hp : p.isStmt = true)
    (hparts : ps.Forall fun q => q.Run env ∧ q.Levels) : p.Levels := by
  intro ls d hls hd hlegal
  have hruns : ps.Forall (·.Run env) := hparts.imp fun _ => And.left
  have hchild : ∀ q ∈ ps, Child env p q := fun q hq => ⟨ps, h, hruns, hq⟩
  cases h <;> cases hp
  case expr => exact hparts.2 ls d hls hd (.of_plain rfl)
  case block | leave =>
    exact hparts.2 ls d hls hd (hlegal.part (hchild _ List.mem_cons_self) rfl List.prefix_rfl)
  case scope stmts span here b out b₁ =>
    have hls' : Leveled ls b.enterScope := hls.same rfl fun _ => rfl
    obtain ⟨ls₁, hle, h₁, hout⟩ :=
      hparts.2 ls d hls' hd (hlegal.part (hchild _ List.mem_cons_self) rfl List.prefix_rfl)
    exact ⟨ls₁, hle, h₁.same rfl fun _ => rfl, hout⟩
  case nil => exact ⟨ls, List.prefix_rfl, hls, fun l hl => Option.some.inj hl ▸ hd⟩
  case declare =>
    exact ⟨ls, List.prefix_rfl, hls.same rfl fun _ => rfl, fun l hl => Option.some.inj hl ▸ hd⟩
  case define =>
    obtain ⟨ls₁, hle, h₁, hr⟩ := hparts.2 ls d hls hd (.of_plain rfl)
    exact ⟨ls₁, hle, h₁.same (by simp [Site.last]) (by simp [Site.last]), hr⟩
  case assign | update =>
    obtain ⟨⟨-, hvalue⟩, -, hstore⟩ := hparts
    obtain ⟨ls₁, hle₁, h₁, hr⟩ := hvalue ls d hls hd (.of_plain rfl)
    obtain ⟨ls₂, hle₂, h₂, hout⟩ := hstore ls₁ d h₁ (hr _ rfl) (.of_plain rfl)
    exact ⟨ls₂, hle₁.trans hle₂, h₂, hout⟩
  case next =>
    obtain ⟨⟨-, hs⟩, -, hstmts⟩ := hparts
    obtain ⟨ls₁, hle₁, h₁, hr⟩ := hs ls d hls hd (hlegal.part (hchild _ (by simp)) rfl List.prefix_rfl)
    obtain ⟨ls₂, hle₂, h₂, hout⟩ := hstmts ls₁ d h₁ (hr _ rfl) (hlegal.part (hchild _ (by simp)) rfl hle₁)
    exact ⟨ls₂, hle₁.trans hle₂, h₂, hout⟩
  case ret =>
    obtain rfl := hlegal.zero rfl
    exact ⟨ls, List.prefix_rfl, hls.ret hd, by simp [Site.out]⟩
  case retValue =>
    obtain rfl := hlegal.zero rfl
    obtain ⟨ls₁, hle, h₁, hr⟩ := hparts.2 ls 0 hls hd (.of_plain rfl)
    exact ⟨ls₁, hle, (h₁.same (by simp [Site.last]) (by simp [Site.last])).ret (hr _ rfl), by simp [Site.out]⟩
  case panic =>
    obtain ⟨ls₁, hle, h₁, hr⟩ := hparts.2 ls d hls hd (.of_plain rfl)
    exact ⟨ls₁, hle, h₁.panic (hr _ rfl), by simp [Site.out]⟩
  case breakLoop hf =>
    exact ⟨ls, List.prefix_rfl, hls.goto hd (hlegal.jumps rfl _ hf).1, by simp [Site.out]⟩
  case continueLoop hf =>
    exact ⟨ls, List.prefix_rfl, hls.goto hd (hlegal.jumps rfl _ hf).2, by simp [Site.out]⟩
  case lockLeft =>
    obtain ⟨ls₁, hle, h₁, -⟩ := hparts.2 _ (d + 1)
      ((hls.grow (d + 1)).lock (level_snoc hd) (hls.level_new _)) (hls.level_new _)
      (hlegal.lockBody rfl (hchild _ (by simp)) rfl _)
    exact ⟨ls₁, (List.prefix_append _ _).trans hle, h₁, by simp [Site.out]⟩
  case lock =>
    obtain ⟨ls₁, hle, h₁, hlast⟩ := hparts.2 _ (d + 1)
      ((hls.grow (d + 1)).lock (level_snoc hd) (hls.level_new _)) (hls.level_new _)
      (hlegal.lockBody rfl (hchild _ (by simp)) rfl _)
    exact .new ((List.prefix_append _ _).trans hle) h₁
      ((h₁.grow d).unlock (level_snoc (hlast _ rfl)) (h₁.level_new d)) rfl
  case ifThen =>
    obtain ⟨⟨-, hcond⟩, -, hbody⟩ := hparts
    obtain ⟨ls₁, hle₁, h₁, hc⟩ := hcond ls d hls hd (.of_plain rfl)
    have hle₁' := hle₁.trans (List.prefix_append ls₁ [d])
    obtain ⟨ls₂, hle₂, h₂, hend⟩ := hbody (ls₁ ++ [d]) d (h₁.grow d) (h₁.level_new d)
      (hlegal.part (hchild _ (by simp)) rfl hle₁')
    have hstart := level_mono hle₂ (h₁.level_new d)
    have hc₂ := level_mono hle₂ (level_snoc (hc _ rfl))
    refine .new (hle₁'.trans hle₂) h₂ ?_ rfl
    exact ((h₂.grow d).branch (level_snoc hc₂) (level_snoc hstart) (h₂.level_new d)).gotoFrom
      (fun l hl => level_snoc (hend l hl)) (h₂.level_new d)
  case ifElse =>
    obtain ⟨⟨-, hcond⟩, ⟨-, hbody⟩, -, helse⟩ := hparts
    obtain ⟨ls₁, hle₁, h₁, hc⟩ := hcond ls d hls hd (.of_plain rfl)
    have hle₁' := hle₁.trans (List.prefix_append ls₁ [d])
    obtain ⟨ls₂, hle₂, h₂, hend⟩ := hbody (ls₁ ++ [d]) d (h₁.grow d) (h₁.level_new d)
      (hlegal.part (hchild _ (by simp)) rfl hle₁')
    have hstart := level_mono hle₂ (h₁.level_new d)
    have hc₂ := level_mono hle₂ (level_snoc (hc _ rfl))
    have hle₂' := (hle₁'.trans hle₂).trans (List.prefix_append ls₂ [d])
    obtain ⟨ls₃, hle₃, h₃, hend'⟩ := helse (ls₂ ++ [d]) d
      ((h₂.grow d).branch (level_snoc hc₂) (level_snoc hstart) (h₂.level_new d)) (h₂.level_new d)
      (hlegal.part (hchild _ (by simp)) rfl hle₂')
    refine .new (hle₂'.trans hle₃) h₃ ?_ rfl
    exact ((h₃.grow d).gotoFrom (fun l hl => level_snoc (hend' l hl)) (h₃.level_new d)).gotoFrom
      (fun l hl => level_snoc (level_mono hle₃ (level_snoc (hend l hl)))) (h₃.level_new d)
  case whileLoop =>
    obtain ⟨⟨-, hcond⟩, -, hbody⟩ := hparts
    obtain ⟨ls₁, hle₁, h₁, hc⟩ := hcond (ls ++ [d]) d
      ((hls.grow d).goto (level_snoc hd) (hls.level_new d)) (hls.level_new d) (.of_plain rfl)
    have hgrow : ls₁ <+: ls₁ ++ [d] ++ [d] := (List.prefix_append _ _).trans (List.prefix_append _ _)
    have hhead := level_mono (hle₁.trans hgrow) (hls.level_new d)
    have hexit := h₁.level_exit d
    obtain ⟨ls₂, hle₂, h₂, hend⟩ := hbody _ d (h₁.enterLoop (hc _ rfl)) (level_snoc (h₁.level_new d))
      (hlegal.loopBody (hchild _ (by simp)) rfl hexit hhead)
    refine ⟨ls₂, (List.prefix_append _ _).trans ((hle₁.trans hgrow).trans hle₂), ?_, fun l hl => ?_⟩
    · exact (h₂.gotoFrom hend (level_mono hle₂ hhead)).same rfl fun _ => rfl
    · exact Option.some.inj hl ▸ level_mono hle₂ hexit

theorem Site.Run.levels_of_plain (h : p.Run env) (hp : p.Ready) (hstmt : p.isStmt = false) : p.Levels :=
  fun _ _ hls hd _ => h.rises_of_plain hstmt hp.isOpen hls hd

theorem Site.Run.levels_of_stmt (h : p.Run env) : p.Ready → p.isStmt = true → p.Levels := by
  refine Site.Run.induct (fun p ps hsplits hparts hp hstmt => ?_) h
  have hruns : ps.Forall (·.Run env) := hparts.imp fun _ => And.left
  have hready := List.forall_iff_forall_mem.mp (hsplits.context hruns ⟨hp, (Frame.refl _).sealed⟩)
  rw [List.forall_iff_forall_mem] at hparts
  refine hsplits.levels hstmt (List.forall_iff_forall_mem.mpr fun q hq => ?_)
  obtain ⟨hrun, hlevels⟩ := hparts q hq
  refine ⟨hrun, ?_⟩
  cases hq' : q.isStmt with
  | true => exact hlevels (hready q hq).toReady hq'
  | false => exact hrun.levels_of_plain (hready q hq).toReady hq'

theorem Site.Run.levels (h : p.Run env) (hp : p.Ready) : p.Levels := by
  cases hstmt : p.isStmt with
  | true => exact h.levels_of_stmt hp hstmt
  | false => exact h.levels_of_plain hp hstmt

end Statements

theorem Root.here_eq {body : Body} {b bf : Builder} {p : Site} (h : Root body b bf p) :
    p.here = b.nextLabel := by
  cases h <;> rfl

theorem Root.leveled {body : Body} {b bf : Builder} {p : Site} {ls : List Nat} (h : Root body b bf p)
    (hls : Leveled ls p.last) (hout : ∀ l, p.out = some l → ls[l]? = some 0) : Leveled ls bf := by
  cases h with
  | leaves => exact hls
  | fallsOff => exact hls.ret (hout _ rfl)
  | expr => exact (hls.same (by simp [Site.last]) (by simp [Site.last])).ret (hout _ rfl)

theorem BodyRun.leveled {env : Env} {stem : String} {f : FunctionDef} {b : Builder}
    (h : BodyRun env f.body (env.enter stem f) b)
    (hlocks : ∀ span body, f.Live (.stmt (.lock span body)) → body.IsTight) :
    ∃ ls, Leveled ls b ∧ ls[0]? = some 0 := by
  obtain ⟨root, hroot, hrun⟩ := h.root
  have hready := (hroot.context hrun (env.enter_sound stem f)).toReady
  have hstart : Leveled [0] root.first := by
    have hnone := hroot.transferAt_first (env.enter_blocks stem f)
    refine ⟨?_, fun l t m ht => by simp [hnone] at ht, fun l ht => by simp [hnone] at ht⟩
    rw [hroot.first_eq, nextLabel_grow, nextLabel, env.enter_blocks]
    rfl
  have hhere : root.here = 0 := by
    rw [hroot.here_eq, nextLabel, env.enter_blocks, List.length_nil]
  have hlegal : root.Legal [0] 0 := by
    refine ⟨fun span body hs => hlocks span body ?_, fun hne => absurd rfl hne, fun _ frame hf => ?_⟩
    · exact ⟨root.node, hroot.node, Node.mem_statements_iff.mp hs⟩
    · have hnone : root.first.loop? = none := by
        rw [hroot.first_eq]
        exact env.enter_loop? stem f
      cases hnone.symm.trans hf
  obtain ⟨ls, hle, hls, hout⟩ := hrun.levels hready [0] 0 hstart (by simp [hhere]) hlegal
  have hzero := level_mono (l := 0) hle rfl
  exact ⟨ls, hroot.leveled hls hout, hzero⟩

namespace Graph

def held (g : Graph) (path : List Label) : Int :=
  (path.map fun l => ((transferAt g.blocks l).map (·.delta)).getD 0).sum

variable {g : Graph} {b : Builder} {ls : List Nat} {path : List Label} {l : Label}

theorem held_snoc :
    g.held (path ++ [l]) = g.held path + ((transferAt g.blocks l).map (·.delta)).getD 0 := by
  simp [held]

theorem IsPath.level (h : g.IsPath (path ++ [l])) (hg : g.blocks = b.blocks) (hls : Leveled ls b)
    (hzero : ls[0]? = some 0) : ∃ d : Nat, ls[l]? = some d ∧ g.held path = d := by
  induction path using List.reverseRecOn generalizing l with
  | nil =>
    obtain rfl : l = 0 := by simpa using h.1
    exact ⟨0, hzero, rfl⟩
  | append_singleton path k ih =>
    obtain ⟨hpath, hsucc⟩ := h.init (by simp)
    obtain ⟨c, hc, hheld⟩ := ih hpath
    obtain ⟨t, ht, hm⟩ := mem_successors_iff.mp (hsucc k (by simp))
    obtain ⟨c', d, hc', hd, he⟩ := hls.edges k t l (hg ▸ ht) hm
    obtain rfl := Option.some.inj (hc.symm.trans hc')
    refine ⟨d, hd, ?_⟩
    rw [held_snoc, ht, hheld]
    exact he.symm

theorem IsPath.held_nonneg (h : g.IsPath path) (hg : g.blocks = b.blocks) (hls : Leveled ls b)
    (hzero : ls[0]? = some 0) : 0 ≤ g.held path := by
  rcases List.eq_nil_or_concat path with rfl | ⟨path, l, rfl⟩
  · exact Int.le_refl 0
  · rw [List.concat_eq_append] at h ⊢
    obtain ⟨c, hc, hheld⟩ := h.level hg hls hzero
    rw [held_snoc, hheld]
    cases ht : transferAt g.blocks l with
    | none => exact Int.natCast_nonneg c
    | some t =>
      rcases t.delta_nonneg_or with hdelta | ⟨m, rfl⟩
      · exact Int.add_nonneg (Int.natCast_nonneg c) hdelta
      · obtain ⟨c', d, hc', -, he⟩ := hls.edges l _ m (hg ▸ ht) List.mem_cons_self
        obtain rfl := Option.some.inj (hc.symm.trans hc')
        exact he ▸ Int.natCast_nonneg d

end Graph

/-- Locks are balanced. If no live lock has a live return in its body, nor a live jump of a loop outside
of it, then along every path from block 0 no lock is given back that was not taken, all paths to a block
hold as many locks there, and where the function returns none is held. -/
theorem lowerFunction_locks {env : Env} {stem : String} {f : FunctionDef} {g : Graph} {b : Builder}
    (h : lowerFunction env f { stem := stem } = .ok g b)
    (hlocks : ∀ span body, f.Live (.stmt (.lock span body)) → body.IsTight) :
    (∀ path, g.IsPath path → 0 ≤ g.held path) ∧
    (∀ path path' l, g.IsPath (path ++ [l]) → g.IsPath (path' ++ [l]) → g.held path = g.held path') ∧
    ∀ path l, g.IsPath (path ++ [l]) → transferAt g.blocks l = some .ret → g.held path = 0 := by
  obtain ⟨b', hbody, rfl⟩ := lowerFunction_run h
  obtain ⟨ls, hls, hzero⟩ := hbody.leveled hlocks
  refine ⟨fun path hpath => hpath.held_nonneg rfl hls hzero, fun path path' l hpath hpath' => ?_,
    fun path l hpath hret => ?_⟩
  · obtain ⟨d, hd, hheld⟩ := hpath.level rfl hls hzero
    obtain ⟨d', hd', hheld'⟩ := hpath'.level rfl hls hzero
    obtain rfl := Option.some.inj (hd.symm.trans hd')
    exact hheld.trans hheld'.symm
  · obtain ⟨d, hd, hheld⟩ := hpath.level rfl hls hzero
    obtain rfl := Option.some.inj (hd.symm.trans (hls.returns l hret))
    exact hheld

def nestedLocks : FunctionDef where
  name := ⟨"f", {}⟩
  params := [⟨⟨"x", {}⟩, ⟨0, 0⟩, none, {}⟩]
  body := .block (.mk [
    .whileLoop {} (.var {} ⟨"x", {}⟩ ⟨0, 0⟩) (.mk [
      .lock {} (.mk [
        .whileLoop {} (.var {} ⟨"x", {}⟩ ⟨0, 0⟩) (.mk [.breakLoop {}] {}),
        .lock {} (.mk [.expr {} (.call {} none ⟨"f", {}⟩ [])] {}),
        .ifThen {} (.var {} ⟨"x", {}⟩ ⟨0, 0⟩) (.mk [.panic {} (.var {} ⟨"x", {}⟩ ⟨0, 0⟩)] {})] {}),
      .continueLoop {}] {})] {})

theorem nestedLocks_held :
    (∀ span body, nestedLocks.Live (.stmt (.lock span body)) → body.IsTight) ∧
    ∃ g b, lowerFunction ⟨.anonymous, id, [], []⟩ nestedLocks { stem := "bb" } = .ok g b ∧
      g.IsPath [0, 1, 2, 4, 5, 6, 7, 8, 9] ∧ (∀ path, g.IsPath path → 0 ≤ g.held path) ∧
      (∀ path, g.IsPath (path ++ [9]) → g.held path = 2) ∧
      transferAt g.blocks 3 = some .ret ∧ ∀ path, g.IsPath (path ++ [3]) → g.held path = 0 := by
  have hlocks : ∀ span body, nestedLocks.Live (.stmt (.lock span body)) → body.IsTight := by
    intro span body hlive
    have hmem := FunctionDef.mem_statements_iff.mpr hlive
    simp [nestedLocks, FunctionDef.statements, Body.node?, Node.statements, Block.stmts, innerList,
      Stmt.inner, Block.inner, Stmt.leaves, Block.leaves, leavesList] at hmem
    rcases hmem with ⟨-, rfl⟩ | ⟨-, rfl⟩ <;> decide
  have hlowers : Env.lowersTo ⟨.anonymous, id, [], []⟩ "bb" nestedLocks (fun g =>
      g.IsPath ([0, 1, 2, 4, 5, 6, 7, 8] ++ [9]) ∧ g.held [0, 1, 2, 4, 5, 6, 7, 8] = 2 ∧
        transferAt g.blocks 3 = some .ret) = true := by
    decide +kernel
  obtain ⟨g, b, hg, htest⟩ := Env.exists_of_lowersTo hlowers
  obtain ⟨hpath, hheld, hret⟩ := of_decide_eq_true htest
  obtain ⟨hnonneg, hsame, hzero⟩ := lowerFunction_locks hg hlocks
  exact ⟨hlocks, g, b, hg, hpath, hnonneg, fun path h => (hsame path _ 9 h hpath).trans hheld, hret,
    fun path h => hzero path 3 h hret⟩

end FlowGraph

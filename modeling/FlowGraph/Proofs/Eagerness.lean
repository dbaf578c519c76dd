import FlowGraph.Proofs.Definedness
import FlowGraph.Proofs.Jumps

/-!
Both operands of an operator are evaluated, also those of a logical one. The code of a site is entered
at its start only, and the code of an expression is left at its end only; so a path goes through the
left operand first and through the right one next, whatever the value of the left one is.
-/

namespace FlowGraph

open Builder

namespace Site

def Emits (p : Site) (l : Label) (n : Nat) : Prop :=
  (actionsAt p.first.blocks l).length ≤ n ∧ n < (actionsAt p.last.blocks l).length

def value? : Site → Option Slot
  | .expr _ _ _ r _ => some r.slot
  | _ => none

/-- From where the site begins, these blocks lead through its code to where it ends. -/
structure Crosses (p : Site) (way : List Label) : Prop where
  inside : ∀ l ∈ way, ¬ p.Avoids l
  last : (p.here :: way).getLast? = p.out

end Site

namespace BlocksGrow

variable {xs ys : List BasicBlock} {l : Label}

theorem actionsAt_isPrefix (h : BlocksGrow xs ys) (l : Label) : actionsAt xs l <+: actionsAt ys l := by
  cases hl : xs[l]? with
  | none => simp [actionsAt, hl]
  | some block =>
    obtain ⟨block', hl', hg⟩ := h l block hl
    rw [actionsAt_eq hl, actionsAt_eq hl']
    cases ht : block.terminator with
    | some t => exact (hg.closed (by simp [ht])) ▸ List.prefix_rfl
    | none =>
      obtain ⟨rest, hrest⟩ := hg.instructions
      simp [BasicBlock.actions, ht, ← hrest]

theorem getElem?_eq (h : BlocksGrow xs ys) {t : Transfer} (ht : transferAt xs l = some t) :
    ys[l]? = xs[l]? := by
  obtain ⟨block, u, hl, hu, -⟩ := transferAt_eq_some_iff.mp ht
  obtain ⟨block', hl', hg⟩ := h l block hl
  obtain rfl := hg.closed (by simp [hu])
  exact hl'.trans hl.symm

end BlocksGrow

theorem Builder.Grows.actionsAt_isPrefix {b b' : Builder} (h : b.Grows b') (l : Label) :
    actionsAt b.blocks l <+: actionsAt b'.blocks l := h.blocks.actionsAt_isPrefix l

theorem Builder.Grows.actionsAt_eq {b b' : Builder} {l : Label} {t : Transfer} (h : b.Grows b')
    (ht : FlowGraph.transferAt b.blocks l = some t) : actionsAt b'.blocks l = actionsAt b.blocks l :=
  actionsAt_congr (h.blocks.getElem?_eq ht)

theorem Graph.IsPath.upTo {g : Graph} {path rest : List Label} {l : Label}
    (h : g.IsPath (path ++ l :: rest)) : g.IsPath (path ++ [l]) := by
  rw [List.append_cons] at h
  obtain ⟨hhead, hchain⟩ := h
  refine ⟨?_, hchain.left_of_append⟩
  rwa [List.head?_append_of_ne_nil _ (by simp)] at hhead

section Paths

variable {env : Env} {bf : Builder} {p q : Site} {l m : Label} {n : Nat}

theorem Site.Settled.keeps (h : p.Settled env bf) (hne : l ≠ p.here) (havoid : p.Avoids l) :
    p.last.blocks[l]? = p.first.blocks[l]? := by
  rcases havoid with hlt | hge
  · exact h.region.keeps l hlt hne
  · rw [List.getElem?_eq_none hge, List.getElem?_eq_none (Nat.le_trans h.region.nextLabel_le hge)]

theorem Site.Settled.place (h : p.Settled env bf) (hn : p.Emits l n) : l = p.here ∨ ¬ p.Avoids l := by
  by_contra hl
  obtain ⟨hne, havoid⟩ := not_or.mp hl
  obtain ⟨hle, hlt⟩ := hn
  rw [actionsAt_congr (h.keeps hne (not_not.mp havoid))] at hlt
  lia

theorem Site.Settled.entered (h : p.Settled env bf) {t : Transfer} (ht : transferAt bf.blocks l = some t)
    (hm : m ∈ t.successors) (hin : ¬ p.Avoids m) : l = p.here ∨ ¬ p.Avoids l := by
  have hlast := h.shut l t m ht hm hin
  by_contra hl
  obtain ⟨hne, havoid⟩ := not_or.mp hl
  rw [transferAt_congr (h.keeps hne (not_not.mp havoid))] at hlast
  exact hin (.inl (h.sound.transferAt_lt hlast hm))

/-- On every path to a block that is added at a site, the site is entered where it begins, and is not
left again. -/
theorem Site.Settled.enters (h : p.Settled env bf) {g : Graph} (hg : g.blocks = bf.blocks)
    {path : List Label} (hpath : g.IsPath (path ++ [l])) (hl : ¬ p.Avoids l) :
    ∃ before way, path ++ [l] = before ++ p.here :: way ∧ ∀ m ∈ way, ¬ p.Avoids m := by
  induction path using List.reverseRecOn generalizing l with
  | nil =>
    obtain rfl : l = 0 := by simpa using hpath.1
    exact absurd (.inl (Nat.zero_lt_of_lt h.isOpen.lt)) hl
  | append_singleton path k ih =>
    obtain ⟨hinit, hedge⟩ := hpath.init (by simp)
    obtain ⟨t, ht, hm⟩ := Graph.mem_successors_iff.mp (hedge k (by simp))
    rcases h.entered (hg ▸ ht) hm hl with rfl | hk
    · exact ⟨path, [l], by simp, by simpa using hl⟩
    · obtain ⟨before, way, heq, hway⟩ := ih hinit hk
      refine ⟨before, way ++ [l], by simp [heq], fun m hm => ?_⟩
      rcases List.mem_append.mp hm with hm | hm
      · exact hway m hm
      · rwa [List.mem_singleton.mp hm]

theorem Splits.successors_ne_nil {ps : List Site} {t : Transfer} (h : Splits env p ps)
    (hp : p.isStmt = false) (hc : (l, t) ∈ p.closings env ps) : t.successors ≠ [] := by
  cases h with
  | call hcallee =>
    simp only [Site.closings, hcallee, List.mem_singleton, Prod.mk.injEq] at hc
    simp [hc.2, Transfer.successors]
  | ternary =>
    simp only [Site.closings, List.mem_cons, Prod.mk.injEq, List.not_mem_nil, or_false] at hc
    rcases hc with ⟨-, rfl⟩ | ⟨-, rfl⟩ | ⟨-, rfl⟩ <;> simp [Transfer.successors]
  | _ => simp [Site.closings, Site.isStmt] at hc hp

theorem Site.Settled.transferAt_first (h : p.Settled env bf) (hl : l = p.here ∨ ¬ p.Avoids l) :
    transferAt p.first.blocks l = none := by
  rcases hl with rfl | hl
  · exact transferAt_of_openAt h.isOpen
  · exact transferAt_of_le (Nat.le_of_not_lt fun hlt => hl (.inl hlt))

theorem Site.Settled.closed (h : p.Settled env bf) (hl : l = p.here ∨ ¬ p.Avoids l)
    (hout : p.out ≠ some l) : ∃ t, transferAt p.last.blocks l = some t := by
  have hlt : l < p.last.nextLabel := by
    rcases hl with rfl | hl
    · exact Nat.lt_of_lt_of_le h.isOpen.lt h.region.nextLabel_le
    · exact Nat.lt_of_not_le fun hle => hl (.inr hle)
  refine exists_transferAt hlt fun hopen => ?_
  rcases (h.region.opens l).mp hopen with ⟨hold, hne⟩ | hend
  · exact hl.resolve_left hne (.inl hold.lt)
  · exact hout hend

theorem Site.Settled.onward (h : p.Settled env bf) (hp : p.isStmt = false)
    (hl : l = p.here ∨ ¬ p.Avoids l) (hout : p.out ≠ some l) :
    ∃ t, transferAt bf.blocks l = some t ∧ t.successors ≠ [] ∧ ∀ m ∈ t.successors, ¬ p.Avoids m := by
  obtain ⟨t, hlast⟩ := h.closed hl hout
  have hnew : transferAt p.first.blocks l ≠ some t := by simp [h.transferAt_first hl]
  refine ⟨t, h.sealed.grows.transferAt hlast, ?_, fun m hm => ?_⟩
  · obtain ⟨q, ps, hpart, hsplits, -, hc⟩ := (h.run.origin hlast).resolve_left hnew
    exact hsplits.successors_ne_nil (hpart.isStmt hp) hc
  · have hend := (h.region.sound h.sound).transferAt_lt hlast hm
    rcases h.run.targets hlast hnew hm with hge | ⟨q, hnear, -, hjump⟩
    · exact fun havoid => havoid.elim (Nat.not_lt.mpr hge) (Nat.not_le.mpr hend)
    · have := hnear.part.isStmt hp
      simp [Site.isStmt_of_jump? hjump] at this

theorem Site.Settled.leads (h : p.Settled env bf) (hp : p.isStmt = false) {g : Graph}
    (hg : g.blocks = bf.blocks) {path : List Label} (hl : l = p.here ∨ ¬ p.Avoids l)
    (hpath : (l :: path).IsChain fun l m => m ∈ g.successors l) :
    (∃ way rest, path = way ++ rest ∧ (∀ m ∈ way, ¬ p.Avoids m) ∧ (l :: way).getLast? = p.out) ∨
      (∀ m ∈ path, ¬ p.Avoids m) ∧ ∃ m ∈ (l :: path).getLast?, g.successors m ≠ [] := by
  induction path generalizing l with
  | nil =>
    by_cases hout : p.out = some l
    · exact .inl ⟨[], [], rfl, by simp, hout.symm⟩
    obtain ⟨t, ht, hne, -⟩ := h.onward hp hl hout
    obtain ⟨m, hm⟩ := List.exists_mem_of_ne_nil _ hne
    have hedge := Graph.mem_successors_iff.mpr ⟨t, hg ▸ ht, hm⟩
    exact .inr ⟨by simp, l, rfl, List.ne_nil_of_mem hedge⟩
  | cons m path ih =>
    by_cases hout : p.out = some l
    · exact .inl ⟨[], m :: path, rfl, by simp, hout.symm⟩
    obtain ⟨t, ht, -, hin⟩ := h.onward hp hl hout
    obtain ⟨hedge, hpath⟩ := List.isChain_cons_cons.mp hpath
    obtain ⟨t', ht', hm⟩ := Graph.mem_successors_iff.mp hedge
    obtain rfl : t = t' := Option.some.inj (ht.symm.trans (hg ▸ ht'))
    rcases ih (.inr (hin m hm)) hpath with ⟨way, rest, rfl, hway, hlast⟩ | ⟨hall, hlast⟩
    · refine .inl ⟨m :: way, rest, rfl, List.forall_mem_cons.mpr ⟨hin m hm, hway⟩, ?_⟩
      rwa [List.getLast?_cons_cons]
    · refine .inr ⟨List.forall_mem_cons.mpr ⟨hin m hm, hall⟩, ?_⟩
      rwa [List.getLast?_cons_cons]

theorem Site.Settled.crossed (h : p.Settled env bf) {g : Graph} (hg : g.blocks = bf.blocks)
    {path : List Label} (hpath : g.IsPath (path ++ [l])) (hl : p.out = some l) :
    ∃ before way, path ++ [l] = before ++ p.here :: way ∧ p.Crosses way := by
  rcases h.out_place hl with rfl | hge
  · exact ⟨path, [], rfl, by simp, hl.symm⟩
  · have hin : ¬ p.Avoids l := fun havoid => havoid.elim (Nat.not_lt.mpr hge) (Nat.not_le.mpr (h.out_lt hl))
    obtain ⟨before, way, heq, hway⟩ := h.enters hg hpath hin
    refine ⟨before, way, heq, hway, ?_⟩
    have hlast := congrArg List.getLast? heq
    rw [hl]
    simpa [List.getLast?_append] using hlast.symm

theorem Site.Settled.behind (hp : p.Settled env bf) (hq : q.Settled env bf) (hnext : p.out = some q.here)
    {g : Graph} (hg : g.blocks = bf.blocks) {path : List Label} (hpath : g.IsPath (path ++ [l]))
    (hn : q.Emits l n) :
    ∃ before xs ys, path ++ [l] = before ++ p.here :: (xs ++ ys) ∧ p.Crosses xs ∧ ∀ m ∈ ys, ¬ q.Avoids m := by
  rcases hq.place hn with rfl | hl
  · obtain ⟨before, xs, heq, hxs⟩ := hp.crossed hg hpath hnext
    exact ⟨before, xs, [], by simpa using heq, hxs, by simp⟩
  · obtain ⟨path', ys, heq, hys⟩ := hq.enters hg hpath hl
    obtain ⟨before, xs, heq', hxs⟩ := hp.crossed hg (heq ▸ hpath).upTo hnext
    refine ⟨before, xs, ys, ?_, hxs, hys⟩
    rw [heq, List.append_cons, heq', List.append_assoc, List.cons_append]

theorem Site.Settled.both (hp : p.Settled env bf) (hq : q.Settled env bf) (hnext : p.out = some q.here)
    (hps : p.isStmt = false) (hqs : q.isStmt = false) {g : Graph} (hg : g.blocks = bf.blocks)
    {path : List Label} (hpath : (p.here :: path).IsChain fun l m => m ∈ g.successors l)
    (hdone : (∃ m ∈ path, p.Avoids m ∧ q.Avoids m) ∨ ∃ m ∈ (p.here :: path).getLast?, g.successors m = []) :
    ∃ xs ys zs, path = xs ++ ys ++ zs ∧ p.Crosses xs ∧ q.Crosses ys := by
  rcases hp.leads hps hg (.inl rfl) hpath with ⟨xs, rest, rfl, hxs, hlast⟩ | ⟨hall, m, hm, hne⟩
  · obtain ⟨before, heq⟩ := List.getLast?_eq_some_iff.mp (hlast.trans hnext)
    have hsplit : p.here :: (xs ++ rest) = before ++ q.here :: rest := by
      rw [List.append_cons, ← heq, List.cons_append]
    rw [hsplit] at hpath hdone
    rcases hq.leads hqs hg (.inl rfl) hpath.right_of_append with
      ⟨ys, zs, rfl, hys, hlast'⟩ | ⟨hall, m, hm, hne⟩
    · exact ⟨xs, ys, zs, by simp, ⟨hxs, hlast⟩, hys, hlast'⟩
    · rw [List.getLast?_append_of_ne_nil _ (by simp)] at hdone
      rcases hdone with ⟨m', hm', hpm, hqm⟩ | ⟨m', hm', hnil⟩
      · exact (List.mem_append.mp hm').elim (fun h => absurd hpm (hxs m' h)) fun h => absurd hqm (hall m' h)
      · obtain rfl := Option.mem_unique hm hm'
        exact absurd hnil hne
  · rcases hdone with ⟨m', hm', hpm, -⟩ | ⟨m', hm', hnil⟩
    · exact absurd hpm (hall m' hm')
    · obtain rfl := Option.mem_unique hm hm'
      exact absurd hnil hne

theorem Site.Settled.emits_iff {r : Site} {a : Action} (hq : q.Settled env bf) (hr : r.Settled env bf)
    (hfirst : p.first = q.first) (hnext : r.first = q.last)
    (hlast : ∀ m, actionsAt p.last.blocks m = actionsAt r.last.blocks m ++ if m = l then [a] else []) :
    p.Emits m n ↔ q.Emits m n ∨ r.Emits m n ∨ m = l ∧ n = (actionsAt r.last.blocks l).length := by
  have hle := (hq.region.steps.grows.actionsAt_isPrefix m).length_le
  have hle' := (hr.region.steps.grows.actionsAt_isPrefix m).length_le
  rw [hnext] at hle'
  simp only [Site.Emits, hfirst, hnext, hlast, List.length_append]
  by_cases hm : m = l
  · subst hm
    simp
    lia
  · simp [hm]
    lia

end Paths

/-- How an operator is evaluated at `p`, with its operands at `q` and `r`: the code of `r` goes on where
that of `q` ends, behind both the instruction `i` puts their values together in block `l`, and there is
no more code to it. -/
structure Eager (g : Graph) (code : Opcode) (p q r : Site) (l : Label) (i : Instruction) : Prop where
  start : q.here = p.here
  next : q.out = some r.here ∧ r.first = q.last
  out : r.out = some l ∧ p.out = some l
  operands : ∃ x y, q.value? = some x ∧ r.value? = some y ∧ i.op = .binary code x y
  value : p.value? = some i.dst
  combines : (actionsAt g.blocks l)[(actionsAt r.last.blocks l).length]? = some (.instruction i)
  emits : ∀ m n, p.Emits m n ↔ q.Emits m n ∨ r.Emits m n ∨ m = l ∧ n = (actionsAt r.last.blocks l).length
  behind : ∀ path m n, g.IsPath (path ++ [m]) → r.Emits m n → ∃ before xs ys,
    path ++ [m] = before ++ p.here :: (xs ++ ys) ∧ q.Crosses xs ∧ ∀ m ∈ ys, ¬ r.Avoids m
  /-- A path that gets past the operator, or to the end of the function, goes through both operands. -/
  both : ∀ before path, g.IsPath (before ++ p.here :: path) →
    ((∃ m ∈ path, p.Avoids m) ∨ ∃ m ∈ (p.here :: path).getLast?, g.successors m = []) →
    ∃ xs ys zs, path = xs ++ ys ++ zs ∧ q.Crosses xs ∧ r.Crosses ys

theorem Site.Settled.eager {env : Env} {bf : Builder} {p : Site} {note : Note} {op : BinOp}
    {lhs rhs : Expr} {code : Opcode} {g : Graph} (h : p.Settled env bf) (hg : g.blocks = bf.blocks)
    (hnode : p.node = .expr (.binary note op lhs rhs)) (hcode : op.opcode? = some code) :
    ∃ q r l i, Child env p q ∧ q.node = .expr lhs ∧ Child env p r ∧ r.node = .expr rhs ∧
      Eager g code p q r l i := by
  obtain ⟨ps, hsplits, hrun⟩ := h.run.splits
  have hsettled : ∀ q ∈ ps, Child env p q ∧ q.Settled env bf := fun q hq =>
    have hchild : Child env p q := ⟨ps, hsplits, hrun, hq⟩
    ⟨hchild, hchild.settled h⟩
  have hbounds := (hsplits.linked.bounds fun q hq =>
    (List.forall_iff_forall_mem.mp hrun q hq).keeps.nextLabel_le).2
  cases hsplits <;> cases hnode
  case binary here b code' left b₁ right b₂ hcode' =>
  obtain rfl : code = code' := Option.some.inj (hcode.symm.trans hcode')
  obtain ⟨hleft, hl⟩ := hsettled (.expr lhs here b left b₁) (by simp)
  obtain ⟨hright, hr⟩ := hsettled (.expr rhs left.block b₁ right b₂) (by simp)
  refine ⟨_, _, right.block, ⟨b₂.nextSlot, .binary code left.slot right.slot, b₂.scopes.current, note.span⟩,
    hleft, rfl, hright, rfl, ?_⟩
  have hopen : b₂.IsOpen right.block := hr.region.isOpen rfl
  have hactions : ∀ m, actionsAt (b₂.compute right.block note.ty (.binary code left.slot right.slot)
      note.span).blocks m = _ := fun m => actionsAt_append hopen
  refine ⟨rfl, ⟨rfl, rfl⟩, ⟨rfl, rfl⟩, ⟨_, _, rfl, rfl, rfl⟩, rfl, ?_, ?_, ?_, ?_⟩
  · obtain ⟨rest, hrest⟩ := h.sealed.grows.actionsAt_isPrefix right.block
    rw [hg, ← hrest, Site.last, Site.last, hactions]
    simp
  · exact fun m n => hl.emits_iff hr rfl rfl hactions
  · exact fun path m n hpath hn => hl.behind hr rfl hg hpath hn
  · intro before path hpath hdone
    refine hl.both hr rfl rfl rfl hg hpath.2.right_of_append (hdone.imp_left ?_)
    rintro ⟨m, hm, havoid⟩
    have hq := hbounds (.expr lhs here b left b₁) (by simp)
    have hr := hbounds (.expr rhs left.block b₁ right b₂) (by simp)
    refine ⟨m, hm, ?_⟩
    simp only [Site.Avoids] at havoid ⊢
    lia

/-- The logical operators evaluate both of their operands. Every conjunction and disjunction that is
live is lowered, to the code of its operands and one instruction behind it; what is done for the right
operand is done behind the left one, on any path past the operator, and without a branch before it. -/
theorem lowerFunction_eager {env : Env} {stem : String} {f : FunctionDef} {g : Graph} {b : Builder}
    (h : lowerFunction env f { stem := stem } = .ok g b) {note : Note} {op : BinOp} {lhs rhs : Expr}
    {code : Opcode} (hop : op = .and ∧ code = .and ∨ op = .or ∧ code = .or) :
    (f.Live (.expr (.binary note op lhs rhs)) ↔
      ∃ p, SiteOf env stem f g p ∧ p.node = .expr (.binary note op lhs rhs)) ∧
    ∀ p, SiteOf env stem f g p → p.node = .expr (.binary note op lhs rhs) →
      ∃ q r l i, Child env p q ∧ q.node = .expr lhs ∧ Child env p r ∧ r.node = .expr rhs ∧
        Eager g code p q r l i := by
  refine ⟨(lowerFunction_run h).live_iff, fun p hp hnode => ?_⟩
  obtain ⟨b', rfl, hsettled⟩ := hp.settled
  refine hsettled.eager rfl hnode ?_
  rcases hop with ⟨rfl, rfl⟩ | ⟨rfl, rfl⟩ <;> rfl

def nestedLogic : Expr :=
  .binary {} .and (.call {} none ⟨"g", {}⟩ [])
    (.binary {} .or (.var {} ⟨"x", {}⟩ ⟨0, 0⟩) (.call {} none ⟨"h", {}⟩ []))

def deciding : FunctionDef where
  name := ⟨"f", {}⟩
  params := [⟨⟨"x", {}⟩, ⟨0, 0⟩, none, {}⟩]
  body := .block (.mk [.whileLoop {} nestedLogic (.mk [] {})] {})

theorem deciding_eager : ∃ g b p q r l i,
    lowerFunction ⟨.anonymous, id, [], []⟩ deciding { stem := "bb" } = .ok g b ∧
    g.predecessors = [[], [0, 4], [1], [2], [3], [3]] ∧
    SiteOf ⟨.anonymous, id, [], []⟩ "bb" deciding g p ∧ p.node = .expr nestedLogic ∧
    Eager g .and p q r l i := by
  have hlowers : Env.lowersTo ⟨.anonymous, id, [], []⟩ "bb" deciding (fun g => g.predecessors =
      [[], [0, 4], [1], [2], [3], [3]]) = true := by
    decide +kernel
  obtain ⟨g, b, hg, hpreds⟩ := Env.exists_of_lowersTo hlowers
  have hlogic : deciding.Live (.expr nestedLogic) :=
    ⟨_, rfl, .head (b := .stmt _) List.mem_cons_self (.single List.mem_cons_self)⟩
  obtain ⟨hlive, hall⟩ := lowerFunction_eager hg (.inl ⟨rfl, rfl⟩)
  obtain ⟨p, hp, hnode⟩ := hlive.mp hlogic
  obtain ⟨q, r, l, i, -, -, -, -, heager⟩ := hall p hp hnode
  exact ⟨g, b, p, q, r, l, i, hg, of_decide_eq_true hpreds, hp, hnode, heager⟩

def callingBoth : FunctionDef where
  name := ⟨"f", {}⟩
  params := []
  body := .expr (.binary {} .and (.call {} none ⟨"g", {}⟩ []) (.call {} none ⟨"h", {}⟩ []))

theorem callingBoth_unbranched : ∃ g b p r,
    lowerFunction ⟨.anonymous, id, [], []⟩ callingBoth { stem := "bb" } = .ok g b ∧
    SiteOf ⟨.anonymous, id, [], []⟩ "bb" callingBoth g p ∧
    p.node = .expr (.binary {} .and (.call {} none ⟨"g", {}⟩ []) (.call {} none ⟨"h", {}⟩ [])) ∧
    Child ⟨.anonymous, id, [], []⟩ p r ∧ r.node = .expr (.call {} none ⟨"h", {}⟩ []) ∧
    g.IsPath [0, 1] ∧ r.Emits 1 0 ∧
    ∀ l ∈ [0, 1], ∀ c yes no, transferAt g.blocks l ≠ some (.branch c yes no) := by
  have hlowers : Env.lowersTo ⟨.anonymous, id, [], []⟩ "bb" callingBoth (fun g => g.IsPath [0, 1]) = true := by
    decide +kernel
  obtain ⟨g, b, hg, hpath⟩ := Env.exists_of_lowersTo hlowers
  obtain ⟨bf, hbody, rfl⟩ := lowerFunction_run hg
  obtain ⟨root, hroot, hrun⟩ := hbody.root
  have hsite : SiteOf ⟨.anonymous, id, [], []⟩ "bb" callingBoth (bf.graph _ _) root :=
    ⟨bf, root, hroot, hrun, rfl, .refl⟩
  obtain ⟨ps, hsplits, hruns⟩ := hrun.splits
  have hchild : ∀ r ∈ ps, Child _ root r := fun r hr => ⟨ps, hsplits, hruns, hr⟩
  cases hroot
  cases hsplits
  obtain ⟨hl, hr⟩ := hruns
  cases hl with
  | call hcallee hargs =>
    cases hargs
    cases hr with
    | call hcallee' hargs =>
      cases hargs
      refine ⟨_, b, _, _, hg, hsite, rfl, hchild _ (List.mem_cons_of_mem _ List.mem_cons_self), rfl,
        of_decide_eq_true hpath, ⟨Nat.le_refl 0, Nat.zero_lt_one⟩, ?_⟩
      intro l hl c yes no ht
      rcases List.mem_pair.mp hl with rfl | rfl <;> cases ht

end FlowGraph

import FlowGraph.Proofs.Live

/-!
What lowering leaves behind in a function besides ordinary code: a variable for each definition, and for
each value that is returned a move into the slot of the result. These are the marks of the source, and a
run leaves just those of its live statements, in their order. Everything else that it puts down has
nothing to do with the slot of the result.
-/

namespace FlowGraph

open Builder

inductive Mark where
  | declared (var : VarDef)
  | returned

def Stmt.mark? : Stmt → Option Mark
  | .define _ var => some (.declared var)
  | .ret _ (some _) => some .returned
  | _ => none

def Site.mark? : Site → Option Mark
  | .stmt s _ _ _ _ => s.mark?
  | _ => none

def Node.marks (n : Node) : List Mark := n.statements.filterMap Stmt.mark?

def Body.marks : Body → List Mark
  | .block body => (Node.stmts body.stmts).marks
  | .expr _ => [.returned]
  | .external => []

def FunctionDef.marks (f : FunctionDef) : List Mark := f.body.marks

theorem Splits.marks {env : Env} {p : Site} {ps : List Site} (h : Splits env p ps)
    (hrun : ps.Forall (·.Run env)) :
    p.node.marks = ps.flatMap (·.node.marks) ++ p.mark?.toList := by
  have hsplit : p.node.marks = p.mark?.toList ++ ps.flatMap (·.node.marks) := by
    rw [Node.marks, h.statements hrun, List.filterMap_append, List.filterMap_flatMap]
    cases p with
    | stmt s => cases hs : s.mark? <;> simp [Site.node, Site.mark?, Node.stmt?, Node.marks, hs]
    | _ => rfl
  rw [hsplit]
  -- A statement that leaves a mark has no statements within it, so its mark may as well come last.
  cases h with
  | retValue | declare | define => rfl
  | _ => exact (List.append_nil _).symm

namespace Builder

def Supplies (b : Builder) (s : Slot) : Prop :=
  (∃ key, b.locals.lookup? key = some s) ∨ b.nextSlot ≤ s

theorem Sound.lookup_ne_zero {b : Builder} (hb : b.Sound) {key : Symbol} {s : Slot}
    (h : b.locals.lookup? key = some s) : s ≠ 0 := by
  rintro rfl
  obtain ⟨v, hv, hk⟩ := hb.result
  obtain ⟨v', hv', hk'⟩ := hb.bound key 0 (Locals.lookup?_mem h)
  obtain rfl := Option.some.inj (hv.symm.trans hv')
  simp [hk] at hk'

theorem Supplies.ne_zero {b : Builder} {s : Slot} (h : b.Supplies s) (hb : b.Sound) : s ≠ 0 := by
  rcases h with ⟨key, hkey⟩ | hle
  · exact hb.lookup_ne_zero hkey
  · exact Nat.ne_of_gt (Nat.lt_of_lt_of_le hb.zero_lt hle)

theorem Supplies.before {b b₁ : Builder} {s : Slot} (h : b₁.Supplies s)
    (hbind : b₁.locals.bindings = b.locals.bindings) (hle : b.nextSlot ≤ b₁.nextSlot) : b.Supplies s := by
  rcases h with ⟨key, hkey⟩ | hs
  · refine .inl ⟨key, ?_⟩
    rw [← hkey, Locals.lookup?, Locals.lookup?, hbind]
  · exact .inr (Nat.le_trans hle hs)

end Builder

def Site.values : Site → List Slot
  | .expr _ _ _ r _ => [r.slot]
  | .args _ _ _ slots _ _ => slots
  | .fields _ _ _ entries _ _ => entries.flatMap MapEntry.sources
  | _ => []

theorem Splits.supplies {env : Env} {p : Site} {ps : List Site} (h : Splits env p ps)
    (hparts : ps.Forall fun q => (q.Run env ∧ q.Ready) ∧ ∀ s ∈ q.values, q.first.Supplies s) :
    ∀ s ∈ p.values, p.first.Supplies s := by
  intro s hs
  cases h with
  | literal | constant | wildcard =>
    obtain rfl := List.mem_singleton.mp hs
    exact .inr (Nat.le_refl _)
  | «variable» hslot =>
    obtain rfl := List.mem_singleton.mp hs
    exact .inl ⟨_, hslot⟩
  | group => exact hparts.2 s hs
  | binary | index =>
    obtain rfl := List.mem_singleton.mp hs
    obtain ⟨⟨⟨h₁, hq₁⟩, -⟩, ⟨h₂, hq₂⟩, -⟩ := hparts
    exact .inr (Nat.le_trans (h₁.region hq₁).nextSlot_le (h₂.region hq₂).nextSlot_le)
  | unary | cast | test | mapping | call =>
    obtain rfl := List.mem_singleton.mp hs
    obtain ⟨⟨h₁, hq₁⟩, -⟩ := hparts
    exact .inr (h₁.region hq₁).nextSlot_le
  | list | field =>
    obtain rfl := List.mem_singleton.mp hs
    obtain ⟨⟨h₁, hq₁⟩, -⟩ := hparts
    exact .inr (Nat.le_succ_of_le (h₁.region hq₁).nextSlot_le)
  | ternary =>
    obtain rfl := List.mem_singleton.mp hs
    obtain ⟨⟨⟨h₁, hq₁⟩, -⟩, -⟩ := hparts
    exact .inr (h₁.region hq₁).nextSlot_le
  | argsCons =>
    obtain ⟨⟨⟨h₁, hq₁⟩, hv₁⟩, -, hv₂⟩ := hparts
    have e₁ := ExprRun.evaluation h₁ hq₁.sound hq₁.isOpen
    rcases List.mem_cons.mp hs with rfl | hs
    · exact hv₁ _ (List.mem_singleton_self _)
    · exact (hv₂ s hs).before e₁.bindings e₁.nextSlot_le
  | @fieldsCons name _ _ here b =>
    obtain ⟨⟨⟨h₁, hq₁⟩, hv₁⟩, -, hv₂⟩ := hparts
    have e₁ := ExprRun.evaluation h₁ hq₁.sound hq₁.isOpen
    have hle : b.nextSlot ≤ (b.loadName here name).nextSlot := by simp [loadName]
    simp only [Site.values, List.flatMap_cons, MapEntry.sources, List.cons_append, List.nil_append,
      List.mem_cons] at hs
    rcases hs with rfl | rfl | hs
    · exact .inr (Nat.le_refl _)
    · exact (hv₁ _ (List.mem_singleton_self _)).before rfl hle
    · exact (hv₂ s hs).before e₁.bindings (Nat.le_trans hle e₁.nextSlot_le)
  | _ => cases hs

theorem Site.Run.supplies {env : Env} {p : Site} (h : p.Run env) :
    p.Ready → ∀ s ∈ p.values, p.first.Supplies s :=
  Site.Run.inductReady (fun _ _ hsplits _ hparts => hsplits.supplies hparts) h

theorem Site.Run.values_ne_zero {env : Env} {p : Site} (h : p.Run env) (hp : p.Ready) :
    ∀ s ∈ p.values, s ≠ 0 := fun s hs => (h.supplies hp s hs).ne_zero hp.sound

theorem Site.Run.slot_ne_zero {env : Env} {e : Expr} {here : Label} {b b' : Builder} {r : Placed}
    (h : (Site.expr e here b r b').Run env) (hp : (Site.expr e here b r b').Ready) : r.slot ≠ 0 :=
  h.values_ne_zero hp _ (List.mem_singleton_self _)

theorem Splits.operand_ne_zero {env : Env} {p : Site} {ps : List Site} (h : Splits env p ps)
    (hparts : ps.Forall fun q => q.Run env ∧ q.Ready) : ps.Forall fun q => ∀ s ∈ q.operand?, s ≠ 0 := by
  cases h with
  | assign | update =>
    obtain ⟨⟨hrun, hq⟩, -⟩ := hparts
    exact ⟨by simp [Site.operand?], by simpa [Site.operand?] using hrun.slot_ne_zero hq⟩
  | _ => simp [Site.operand?]

theorem getElem?_snoc {α : Type} {xs : List α} {x y : α} {i : Nat} (h : (xs ++ [x])[i]? = some y) :
    xs[i]? = some y ∨ i = xs.length ∧ y = x := by
  grind

namespace Builder

/-- `MarkedStep m b b'`: one action of a builder, which leaves the mark `m`, if any. By `turn` only the
place in the nesting of the source changes. -/
inductive MarkedStep : Option Mark → Builder → Builder → Prop
  | grow (b) : MarkedStep none b b.grow
  | addTemporary (b ty) : MarkedStep none b (b.addTemporary ty)
  | append {b l dst op span} :
    b.IsOpen l → dst ≠ 0 → (∀ s ∈ op.sources, s ≠ 0) → MarkedStep none b (b.append l dst op span)
  | close {b l dst transfer span} :
    b.IsOpen l → (∀ s ∈ dst, s ≠ 0) → (∀ s ∈ transfer.sources, s ≠ 0) →
    MarkedStep none b (b.close l dst transfer span)
  | turn {b b'} : b'.blocks = b.blocks → b'.locals = b.locals → MarkedStep none b b'
  | declare {b var key} :
    MarkedStep (some (.declared var)) b (b.addBound var.name.name var.ty .declared key)
  | result {b r span} :
    b.IsOpen r.block → r.slot ≠ 0 → MarkedStep (some .returned) b (b.result r span)

inductive MarkedSteps : List Mark → Builder → Builder → Prop
  | refl (b) : MarkedSteps [] b b
  | tail {ms m b b₁ b₂} : MarkedSteps ms b b₁ → MarkedStep m b₁ b₂ → MarkedSteps (ms ++ m.toList) b b₂

theorem MarkedStep.vars {m : Option Mark} {b b' : Builder} (h : MarkedStep m b b') :
    b.locals.vars <+: b'.locals.vars := by
  cases h with
  | turn _ hlocals => exact hlocals ▸ List.prefix_rfl
  | result => exact List.prefix_rfl
  | _ => simp

namespace MarkedSteps

variable {b b₁ b₂ : Builder} {ms ms' : List Mark} {l target : Label} {span : Span}

theorem trans (h : MarkedSteps ms b b₁) (h' : MarkedSteps ms' b₁ b₂) : MarkedSteps (ms ++ ms') b b₂ := by
  induction h' with
  | refl => simpa using h
  | tail _ hstep ih => simpa using (ih h).tail hstep

theorem congr (h : MarkedSteps ms b b₁) (he : ms = ms') : MarkedSteps ms' b b₁ := he ▸ h

theorem vars (h : MarkedSteps ms b b₁) : b.locals.vars <+: b₁.locals.vars := by
  induction h with
  | refl => exact List.prefix_rfl
  | tail _ hstep ih => exact ih.trans hstep.vars

theorem nextSlot_ne_zero (h : MarkedSteps ms b b₁) (hb : 0 < b.nextSlot) : b₁.nextSlot ≠ 0 :=
  Nat.ne_of_gt (Nat.lt_of_lt_of_le hb h.vars.length_le)

theorem step (h : MarkedSteps ms b b₁) (hstep : MarkedStep none b₁ b₂) : MarkedSteps ms b b₂ := by
  simpa using h.tail hstep

theorem grow (h : MarkedSteps ms b b₁) : MarkedSteps ms b b₁.grow := h.step (.grow _)

theorem addTemporary (h : MarkedSteps ms b b₁) (ty : Option Ty) : MarkedSteps ms b (b₁.addTemporary ty) :=
  h.step (.addTemporary _ ty)

theorem enterScope (h : MarkedSteps ms b b₁) : MarkedSteps ms b b₁.enterScope := h.step (.turn rfl rfl)

theorem exitScope (h : MarkedSteps ms b b₁) : MarkedSteps ms b b₁.exitScope := h.step (.turn rfl rfl)

theorem pushLoop (h : MarkedSteps ms b b₁) (frame : LoopFrame) : MarkedSteps ms b (b₁.pushLoop frame) :=
  h.step (.turn rfl rfl)

theorem dropLoop (h : MarkedSteps ms b b₁) : MarkedSteps ms b b₁.dropLoop := h.step (.turn rfl rfl)

theorem append (h : MarkedSteps ms b b₁) {dst : Slot} {op : Operation} (ho : b₁.IsOpen l) (hd : dst ≠ 0)
    (hs : ∀ s ∈ op.sources, s ≠ 0) : MarkedSteps ms b (b₁.append l dst op span) := h.step (.append ho hd hs)

theorem move (h : MarkedSteps ms b b₁) {dst source : Slot} (ho : b₁.IsOpen l) (hd : dst ≠ 0)
    (hs : source ≠ 0) : MarkedSteps ms b (b₁.append l dst (.move source) span) :=
  h.append ho hd (by simpa [Operation.sources] using hs)

theorem compute (h : MarkedSteps ms b b₁) {ty : Option Ty} {op : Operation} (hb : 0 < b.nextSlot)
    (ho : b₁.IsOpen l) (hs : ∀ s ∈ op.sources, s ≠ 0) : MarkedSteps ms b (b₁.compute l ty op span) :=
  (h.addTemporary ty).append ho (h.nextSlot_ne_zero hb) hs

theorem load (h : MarkedSteps ms b b₁) {value : Literal} {ty : Option Ty} (hb : 0 < b.nextSlot)
    (ho : b₁.IsOpen l) : MarkedSteps ms b (b₁.load l value ty span) :=
  h.compute hb ho (by simp [Operation.sources])

theorem close (h : MarkedSteps ms b b₁) {dst : Option Slot} {t : Transfer} (ho : b₁.IsOpen l)
    (hd : ∀ s ∈ dst, s ≠ 0) (hs : ∀ s ∈ t.sources, s ≠ 0) : MarkedSteps ms b (b₁.close l dst t span) :=
  h.step (.close ho hd hs)

theorem leave (h : MarkedSteps ms b b₁) {t : Transfer} (ho : b₁.IsOpen l)
    (hs : ∀ s ∈ t.sources, s ≠ 0) : MarkedSteps ms b (b₁.close l none t span) := h.close ho nofun hs

theorem advance (h : MarkedSteps ms b b₁) {t : Transfer} (ho : b₁.IsOpen l) (ht : t.sources = []) :
    MarkedSteps ms b (b₁.grow.close l none t span) :=
  h.grow.leave (isOpen_grow.mpr (.inl ho)) (by simp [ht])

theorem branch (h : MarkedSteps ms b b₁) {cond : Slot} {whenTrue whenFalse : Label} (ho : b₁.IsOpen l)
    (hc : cond ≠ 0) : MarkedSteps ms b (b₁.grow.close l none (.branch cond whenTrue whenFalse) span) :=
  h.grow.leave (isOpen_grow.mpr (.inl ho)) (by simpa [Transfer.sources] using hc)

theorem goto (h : MarkedSteps ms b b₁) (ho : b₁.IsOpen l) :
    MarkedSteps ms b (b₁.close l none (.goto target) span) := h.leave ho nofun

theorem gotoFrom (h : MarkedSteps ms b b₁) {fin : Option Label} (hopen : ∀ l, fin = some l → b₁.IsOpen l) :
    MarkedSteps ms b (b₁.gotoFrom fin target span) := by
  cases fin with
  | none => exact h
  | some l => exact h.goto (hopen l rfl)

end MarkedSteps

end Builder

theorem Splits.marked {env : Env} {N : Site → List Mark} {p : Site} {ps : List Site} (h : Splits env p ps)
    (hp : p.Ready) (hv : ∀ s ∈ p.operand?, s ≠ 0)
    (hparts : ps.Forall fun q => (q.Run env ∧ q.Ready) ∧ MarkedSteps (N q) q.first q.last) :
    MarkedSteps (ps.flatMap N ++ p.mark?.toList) p.first p.last := by
  obtain ⟨hb, ho, -⟩ := hp
  have hr := MarkedSteps.refl p.first
  have hpos := hb.zero_lt
  cases h with
  | literal | constant => exact hr.load hpos ho
  | «variable» | argsNil | fieldsNil | nil => exact hr
  | wildcard => exact hr.addTemporary _
  | storeVariable hslot => exact hr.move ho (hb.lookup_ne_zero hslot) (hv _ rfl)
  | storeWildcard => exact (hr.addTemporary none).move ho (Nat.ne_of_gt hpos) (hv _ rfl)
  | binary | index =>
    obtain ⟨⟨⟨hrun, hq⟩, h₁⟩, ⟨hrun', hq'⟩, h₂⟩ := hparts
    have hv₁ := hrun.slot_ne_zero hq
    have hv₂ := hrun'.slot_ne_zero hq'
    refine ((h₁.trans h₂).compute hpos ((hrun'.region hq').isOpen rfl) ?_).congr ?_
    · simp [Operation.sources, hv₁, hv₂]
    · simp [Site.mark?]
  | unary | cast | test | mapping =>
    obtain ⟨⟨hrun, hq⟩, h₁⟩ := hparts
    refine (h₁.compute hpos ((hrun.region hq).isOpen rfl) ?_).congr ?_
    · exact hrun.values_ne_zero hq
    · simp [Site.mark?]
  | call =>
    obtain ⟨⟨hrun, hq⟩, h₁⟩ := hparts
    have hopen := isOpen_grow.mpr (.inl ((hrun.region hq).isOpen rfl))
    have hdst := h₁.nextSlot_ne_zero hpos
    refine ((h₁.grow.addTemporary _).close hopen ?_ ?_).congr ?_
    · exact fun s hs => Option.some.inj hs ▸ hdst
    · exact hrun.values_ne_zero hq
    · simp [Site.mark?]
  | list | field =>
    obtain ⟨⟨hrun, hq⟩, h₁⟩ := hparts
    have hopen := (hrun.region hq).isOpen rfl
    have hloaded := h₁.nextSlot_ne_zero hpos
    refine ((h₁.load hpos hopen).compute hpos (isOpen_append.mpr hopen) ?_).congr ?_
    · exact List.forall_mem_cons.mpr ⟨hloaded, hrun.values_ne_zero hq⟩
    · simp [Site.mark?]
  | group | expr | block | leave =>
    exact hparts.2.congr (by simp [Site.mark?, Stmt.mark?])
  | @ternary note cond whenTrue whenFalse _ b c b₁ x b₂ y b₃ =>
    obtain ⟨⟨⟨hc, hqc⟩, h₁⟩, ⟨⟨hx, hqx⟩, h₂⟩, ⟨hy, hqy⟩, h₃⟩ := hparts
    have e₁ := ExprRun.evaluation hc hb ho
    have e₂ := ExprRun.evaluation hx hqx.sound hqx.isOpen
    have e₃ := ExprRun.evaluation hy hqy.sound hqy.isOpen
    obtain ⟨hleft, hright⟩ := e₂.arms_open whenFalse.span e₃
    -- The slot of the choice is the next one when its condition is done.
    have hdst : b₁.nextSlot ≠ 0 := h₁.nextSlot_ne_zero hpos
    have hfork : MarkedSteps _ b (b₁.fork c note) :=
      (h₁.addTemporary note.ty).grow.branch (isOpen_grow.mpr (.inl e₁.open_last)) (hc.slot_ne_zero hqc)
    have hfirst : MarkedSteps _ b (b₂.append x.block b₁.nextSlot (.move x.slot) whenTrue.span) :=
      (hfork.trans h₂).move e₂.open_last hdst (hx.slot_ne_zero hqx)
    have hsecond : MarkedSteps _ b (b₃.append y.block b₁.nextSlot (.move y.slot) whenFalse.span) :=
      (hfirst.trans h₃).move e₃.open_last hdst (hy.slot_ne_zero hqy)
    refine ((hsecond.advance hleft rfl).goto ?_).congr ?_
    · simp [hright, (e₂.arms_ne e₃).1]
    · simp [Site.mark?]
  | argsCons | next | assign | update =>
    obtain ⟨⟨-, h₁⟩, -, h₂⟩ := hparts
    exact (h₁.trans h₂).congr (by simp [Site.mark?, Stmt.mark?])
  | fieldsCons =>
    obtain ⟨⟨-, h₁⟩, -, h₂⟩ := hparts
    exact (((hr.load hpos ho).trans h₁).trans h₂).congr (by simp [Site.mark?])
  | storeIndex =>
    obtain ⟨⟨⟨hrun, hq⟩, h₁⟩, ⟨hrun', hq'⟩, h₂⟩ := hparts
    refine ((h₁.trans h₂).append ((hrun'.region hq').isOpen rfl) (hrun.slot_ne_zero hq) ?_).congr ?_
    · simpa [Operation.sources] using ⟨hrun'.slot_ne_zero hq', hv _ rfl⟩
    · simp [Site.mark?]
  | storeField =>
    obtain ⟨⟨hrun, hq⟩, h₁⟩ := hparts
    have hopen := (hrun.region hq).isOpen rfl
    have hloaded := h₁.nextSlot_ne_zero hpos
    refine ((h₁.load hpos hopen).append (isOpen_append.mpr hopen) (hrun.slot_ne_zero hq) ?_).congr ?_
    · exact List.forall_mem_cons.mpr ⟨hloaded, List.forall_mem_singleton.mpr (hv _ rfl)⟩
    · simp [Site.mark?]
  | @ifThen span _ _ _ b c b₁ _ b₂ =>
    obtain ⟨⟨⟨hc, hqc⟩, h₁⟩, ⟨hbody, hq⟩, h₂⟩ := hparts
    have e₁ := ExprRun.evaluation hc hb ho
    have r₂ := BlockRun.region hbody hq.sound hq.isOpen
    have hthen : MarkedSteps _ b
        (b₂.grow.close c.block none (.branch c.slot b₁.nextLabel b₂.nextLabel) span) :=
      (h₁.grow.trans h₂).branch (e₁.cond_open r₂) (hc.slot_ne_zero hqc)
    refine (hthen.gotoFrom fun l hl => (e₁.thenDone span r₂).isOpen (.inl hl)).congr ?_
    simp [Site.mark?, Stmt.mark?]
  | @ifElse span _ _ _ _ b c b₁ _ b₂ =>
    obtain ⟨⟨⟨hc, hqc⟩, h₁⟩, ⟨⟨hbody, hq⟩, h₂⟩, ⟨helse, hq'⟩, h₃⟩ := hparts
    have e₁ := ExprRun.evaluation hc hb ho
    have r₂ := BlockRun.region hbody hq.sound hq.isOpen
    have r₃ := StmtRun.region helse hq'.sound hq'.isOpen
    have hthen : MarkedSteps _ b
        (b₂.grow.close c.block none (.branch c.slot b₁.nextLabel b₂.nextLabel) span) :=
      (h₁.grow.trans h₂).branch (e₁.cond_open r₂) (hc.slot_ne_zero hqc)
    refine (((hthen.trans h₃).grow.gotoFrom fun l hl => isOpen_grow.mpr (.inl (r₃.isOpen hl))).gotoFrom
      fun l hl => (e₁.elseDone r₂ r₃).isOpen (.inl hl)).congr ?_
    simp [Site.mark?, Stmt.mark?]
  | @whileLoop span _ _ _ b c b₁ =>
    obtain ⟨⟨⟨hc, hqc⟩, h₁⟩, ⟨hbody, hq⟩, h₂⟩ := hparts
    have e₁ := ExprRun.evaluation hc hqc.sound hqc.isOpen
    have r₂ := BlockRun.region hbody hq.sound hq.isOpen
    have henter : MarkedSteps _ b (b₁.enterLoop b.nextLabel c span) :=
      (((hr.advance ho rfl).trans h₁).grow.branch (isOpen_grow.mpr (.inl e₁.open_last))
        (hc.slot_ne_zero hqc)).pushLoop _
    refine ((henter.trans h₂).gotoFrom fun l hl => r₂.isOpen hl).dropLoop.congr ?_
    simp [Site.mark?, Stmt.mark?]
  | ret | breakLoop | continueLoop => exact hr.leave ho nofun
  -- The value comes first here, and what is returned or declared after it leaves the mark.
  | retValue =>
    obtain ⟨⟨hrun, hq⟩, h₁⟩ := hparts
    refine (h₁.tail (.result ((hrun.region hq).isOpen rfl) (hrun.slot_ne_zero hq))).congr ?_
    simp [Site.mark?, Stmt.mark?]
  | declare => exact hr.tail .declare
  | define =>
    obtain ⟨⟨hrun, hq⟩, h₁⟩ := hparts
    have hdst := h₁.nextSlot_ne_zero hpos
    refine ((h₁.tail .declare).move ((hrun.region hq).isOpen rfl) hdst (hrun.slot_ne_zero hq)).congr ?_
    simp [Site.mark?, Stmt.mark?]
  | panic =>
    obtain ⟨⟨hrun, hq⟩, h₁⟩ := hparts
    refine (h₁.leave ((hrun.region hq).isOpen rfl) ?_).congr ?_
    · simpa [Transfer.sources] using hrun.slot_ne_zero hq
    · simp [Site.mark?, Stmt.mark?]
  | lockLeft =>
    refine ((hr.advance ho rfl).trans hparts.2).congr ?_
    simp [Site.mark?, Stmt.mark?]
  | lock =>
    obtain ⟨⟨hrun, hq⟩, h₁⟩ := hparts
    refine (((hr.advance ho rfl).trans h₁).advance ((hrun.region hq).isOpen rfl) rfl).congr ?_
    simp [Site.mark?, Stmt.mark?]
  | scope =>
    refine (hr.enterScope.trans hparts.2).exitScope.congr ?_
    simp [Site.mark?]

theorem Site.Run.marked {env : Env} {p : Site} (h : p.Run env) (hp : p.Ready) :
    (∀ s ∈ p.operand?, s ≠ 0) → MarkedSteps p.node.marks p.first p.last := by
  refine Site.Run.inductReady (fun p ps hsplits hp hparts hv => ?_) h hp
  have hsites : ps.Forall fun q => q.Run env ∧ q.Ready := hparts.imp fun _ => And.left
  rw [hsplits.marks (hsites.imp fun _ => And.left)]
  refine hsplits.marked hp hv (List.forall_iff_forall_mem.mpr fun q hq => ?_)
  have hpart := List.forall_iff_forall_mem.mp hparts q hq
  exact ⟨hpart.1, hpart.2 (List.forall_iff_forall_mem.mp (hsplits.operand_ne_zero hsites) q hq)⟩

theorem BodyRun.marked {env : Env} {body : Body} {b b' : Builder} (h : BodyRun env body b b')
    (hb : b.Sound) : MarkedSteps body.marks b b' := by
  obtain ⟨p, hroot, hrun⟩ := h.root
  have hp := (hroot.context hrun hb).toReady
  have hopen := fun l (hl : p.out = some l) => (hrun.region hp).isOpen hl
  have hstart := (MarkedSteps.refl b).grow
  cases hroot with
  | leaves => exact hstart.trans (hrun.marked hp nofun)
  | fallsOff => exact (hstart.trans (hrun.marked hp nofun)).leave (hopen _ rfl) nofun
  | expr => exact (hstart.trans (hrun.marked hp nofun)).tail (.result (hopen _ rfl) (hrun.slot_ne_zero hp))

end FlowGraph

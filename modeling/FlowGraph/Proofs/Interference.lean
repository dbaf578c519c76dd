import FlowGraph.Proofs.Eagerness
import FlowGraph.Proofs.Emission
import FlowGraph.Proofs.Preservation

/-!
What runs while an expression is evaluated. Step by step control stays within the code of the expression
until it is at the end, and all that this code writes are temporaries of its own. Within an expression
control only goes forward, so the value of a part is not written again once the part is done.
-/

namespace FlowGraph

universe u v

open Builder

namespace Interp

variable {V : Type u} {S : Type v} {I : Interp V S} {g : Graph} {c c' : Config V S}

inductive Advances (I : Interp V S) (g : Graph) : Config V S → Config V S → Prop
  | instruction {l n block i ρ s ρ' s'} :
    g.block? l = some block → block.instructions[n]? = some i → I.instruction i ρ s = some (ρ', s') →
    Advances I g ⟨l, n, ρ, s⟩ ⟨l, n + 1, ρ', s'⟩
  | jump {l block t ρ s l' ρ' s'} :
    g.block? l = some block → block.terminator = some t →
    I.terminator g.resultSlot t ρ s = .jump l' ρ' s' →
    Advances I g ⟨l, block.instructions.length, ρ, s⟩ ⟨l', 0, ρ', s'⟩

theorem Advances.reaches (h : I.Advances g c c') : I.Reaches g c c' := by
  cases h with
  | instruction hb hi hx => exact .instruction hb hi hx
  | jump hb ht hx => exact (Leaps.terminator hb rfl ht hx).reaches

/-- Control comes from one place to another, and does not go on from place `n` of block `l`. -/
def AdvancesUpTo (I : Interp V S) (g : Graph) (l : Label) (n : Nat) : Config V S → Config V S → Prop :=
  Relation.ReflTransGen fun c c' => I.Advances g c c' ∧ ¬ (c.label = l ∧ c.index = n)

theorem AdvancesUpTo.reaches {l : Label} {n : Nat} (h : I.AdvancesUpTo g l n c c') : I.Reaches g c c' := by
  induction h with
  | refl => exact .refl c
  | tail _ hstep ih => exact ih.trans hstep.1.reaches

theorem AdvancesUpTo.eq_of_end {l : Label} {n : Nat} (h : I.AdvancesUpTo g l n c c') (hl : c.label = l)
    (hn : c.index = n) : c' = c := by
  rcases Relation.ReflTransGen.cases_head h with rfl | ⟨_, hstep, -⟩
  · rfl
  · exact absurd ⟨hl, hn⟩ hstep.2

section Slots

variable {ρ ρ' : Slot → V} {s s' : S} {x : Slot}

theorem instruction_keeps {i : Instruction} (h : I.instruction i ρ s = some (ρ', s'))
    (hx : (Action.instruction i).target? ≠ some x) : ρ' x = ρ x := by
  unfold instruction at h
  split at h
  next =>
    obtain ⟨rfl, -⟩ := Prod.mk.inj (Option.some.inj h)
    rfl
  next hop =>
    obtain ⟨y, -, hy⟩ := Option.map_eq_some_iff.mp h
    obtain ⟨rfl, -⟩ := Prod.mk.inj hy
    have hstore : i.op.isStore = false := by
      cases hi : i.op with
      | access how key source => simpa [hi] using hop how key source hi
      | _ => rfl
    have hne : x ≠ i.dst := by
      rintro rfl
      exact hx (by simp [Action.target?, hstore])
    exact Function.update_of_ne hne _ _

theorem terminator_jumps {t : Terminator} {resultSlot : Slot} {l : Label}
    (h : I.terminator resultSlot t ρ s = .jump l ρ' s') :
    l ∈ t.successors ∧ ∀ x, t.dst ≠ some x → ρ' x = ρ x := by
  obtain ⟨dst, transfer, scope, span⟩ := t
  cases transfer with
  | goto target | lock target | unlock target =>
    obtain ⟨rfl, rfl, -⟩ := Next.jump.inj h
    exact ⟨List.mem_singleton_self _, fun _ _ => rfl⟩
  | branch cond whenTrue whenFalse =>
    obtain ⟨rfl, rfl, -⟩ := Next.jump.inj h
    refine ⟨?_, fun _ _ => rfl⟩
    cases I.truth (ρ cond) <;> simp [Terminator.successors, Transfer.successors]
  | call args callee isVirtual next =>
    obtain ⟨rfl, rfl, -⟩ := Next.jump.inj h
    refine ⟨List.mem_singleton_self _, fun x hx => ?_⟩
    cases dst with
    | none => rfl
    | some dst =>
      have hne : x ≠ dst := fun heq => hx (by rw [heq])
      exact Function.update_of_ne hne _ _
  | _ => cases h

end Slots

structure Performs (blocks : List BasicBlock) (c c' : Config V S) (a : Action) : Prop where
  action : (actionsAt blocks c.label)[c.index]? = some a
  keeps : ∀ x, a.target? ≠ some x → c'.ρ x = c.ρ x
  next : (c'.label = c.label ∧ c'.index = c.index + 1) ∨
    (c'.index = 0 ∧ ∃ t, transferAt blocks c.label = some t ∧ c'.label ∈ t.successors)

end Interp

/-- Place `n` of block `l` is in the code from `b` to `b'`, which begins in block `here`, or at the end of
it in block `last`. -/
structure Amid (b : Builder) (here : Label) (b' : Builder) (last l : Label) (n : Nat) : Prop where
  place : l = here ∨ b.nextLabel ≤ l
  lt : l < b'.nextLabel
  start : (actionsAt b.blocks l).length ≤ n
  stop : l = last → n ≤ b'.offset last

theorem Builder.IsOpen.length_actionsAt {b : Builder} {l : Label} (ho : b.IsOpen l) :
    (actionsAt b.blocks l).length = b.offset l := by
  obtain ⟨block, hl, hopen⟩ := ho
  simp [actionsAt_eq hl, offset_eq hl, BasicBlock.actions, hopen]

theorem BlocksGrow.offset_le {b : Builder} {ys : List BasicBlock} {l : Label} {block : BasicBlock}
    (h : BlocksGrow b.blocks ys) (hl : ys[l]? = some block) : b.offset l ≤ block.instructions.length := by
  cases hold : b.blocks[l]? with
  | none => simp [offset, hold]
  | some old =>
    obtain ⟨block', hl', hgrows⟩ := h l old hold
    obtain rfl := Option.some.inj (hl'.symm.trans hl)
    rw [offset_eq hold]
    exact hgrows.instructions.length_le

section Steps

variable {V : Type u} {S : Type v} {I : Interp V S} {g : Graph} {c c' : Interp.Config V S} {b b' : Builder}
  {here last l : Label} {n : Nat} {exits : Label → Prop}

theorem Confined.closed (h : Confined b here b' (· = last) exits) (hl : l = here ∨ b.nextLabel ≤ l)
    (hlt : l < b'.nextLabel) (hne : l ≠ last) : ∃ t, transferAt b'.blocks l = some t := by
  refine exists_transferAt hlt fun hopen => ?_
  rcases (h.opens l).mp hopen with ⟨hold, hhere⟩ | hlast
  · exact Nat.not_le.mpr hold.lt (hl.resolve_left hhere)
  · exact hne hlast

theorem Confined.amid {b₁ : Builder} (hc : Confined b here b' (· = last) exits) (h : b.Grows b₁)
    (h' : b₁.Grows b') (ho : b₁.IsOpen l) (hl : l = here ∨ b.nextLabel ≤ l) :
    Amid b here b' last l (b₁.offset l) where
  place := hl
  lt := Nat.lt_of_lt_of_le ho.lt h'.nextLabel_le
  start := by
    rw [← ho.length_actionsAt]
    exact (h.actionsAt_isPrefix l).length_le
  stop hlast := by
    subst hlast
    obtain ⟨block, hb, -⟩ := hc.isOpen rfl
    rw [offset_eq hb]
    exact h'.blocks.offset_le hb

theorem Amid.action (h : Amid b here b' last l n) (hc : Confined b here b' (· = last) exits)
    (hg : BlocksGrow b'.blocks g.blocks) (hend : ¬ (l = last ∧ n = b'.offset last)) {a : Action}
    (ha : (actionsAt g.blocks l)[n]? = some a) : (actionsAt b'.blocks l)[n]? = some a := by
  by_cases hl : l = last
  · subst hl
    have hlt : n < (actionsAt b'.blocks l).length := by
      have := h.stop rfl
      rw [(hc.isOpen rfl).length_actionsAt]
      lia
    obtain ⟨rest, hrest⟩ := hg.actionsAt_isPrefix l
    rwa [← hrest, List.getElem?_append_left hlt] at ha
  · obtain ⟨t, ht⟩ := hc.closed h.place h.lt hl
    rwa [actionsAt_congr (hg.getElem?_eq ht)] at ha

open Interp in
theorem Amid.step (hin : Amid b here b' last c.label c.index)
    (hc : Confined b here b' (· = last) fun _ => False) (hg : BlocksGrow b'.blocks g.blocks)
    (h : I.Advances g c c') (hend : ¬ (c.label = last ∧ c.index = b'.offset last)) :
    Amid b here b' last c'.label c'.index ∧ ∃ a, Performs b'.blocks c c' a := by
  cases h with
  | @instruction l n block i ρ s ρ' s' hb hi hx =>
    have ha : (actionsAt g.blocks l)[n]? = some (.instruction i) := by
      have hlt := (List.getElem?_eq_some_iff.mp hi).1
      rw [actionsAt_eq hb, BasicBlock.actions, List.getElem?_append_left (by simpa using hlt),
        List.getElem?_map, hi, Option.map_some]
    refine ⟨⟨hin.place, hin.lt, Nat.le_succ_of_le hin.start, fun hl => ?_⟩, _, hin.action hc hg hend ha,
      fun x => instruction_keeps hx, .inl ⟨rfl, rfl⟩⟩
    have := hin.stop hl
    dsimp only at this hend hl ⊢
    lia
  | @jump l block t ρ s l' ρ' s' hb ht hx =>
    have hjump := terminator_jumps hx
    have ha : (actionsAt g.blocks l)[block.instructions.length]? = some (.terminator t) := by
      simp [actionsAt_eq hb, BasicBlock.actions, ht]
    have hg' : transferAt g.blocks l = some t.transfer := transferAt_eq_some_iff.mpr ⟨_, t, hb, ht, rfl⟩
    have hne : l ≠ last := by
      rintro rfl
      have := hg.offset_le hb
      have := hin.stop rfl
      dsimp only at this hend
      lia
    obtain ⟨u, hu⟩ := hc.closed hin.place hin.lt hne
    obtain rfl : u = t.transfer := Option.some.inj (hu.symm.trans
      ((transferAt_congr (hg.getElem?_eq hu)).symm.trans hg'))
    obtain ⟨hge, hlt⟩ := (hc.edges l _ l' hin.place hu hjump.1).resolve_right id
    refine ⟨⟨.inr hge, hlt, ?_, fun _ => Nat.zero_le _⟩, _, hin.action hc hg hend ha, hjump.2,
      .inr ⟨rfl, _, hu, hjump.1⟩⟩
    simp [actionsAt, List.getElem?_eq_none hge]

open Interp in
/-- What no action on the way writes is the same at the end of it. `Q` is what is known of the places on the
way. -/
theorem Amid.run {Q : Label → Nat → Prop} {x : Slot} (hin : Amid b here b' last c.label c.index)
    (hc : Confined b here b' (· = last) fun _ => False) (hg : BlocksGrow b'.blocks g.blocks)
    (hquiet : ∀ l n a, Amid b here b' last l n → Q l n → (actionsAt b'.blocks l)[n]? = some a →
      a.target? ≠ some x)
    (hnext : ∀ l n, Q l n → Q l (n + 1))
    (hjump : ∀ l n t m, Amid b here b' last l n → Q l n → transferAt b'.blocks l = some t →
      m ∈ t.successors → Q m 0)
    (hQ : Q c.label c.index) (h : I.AdvancesUpTo g last (b'.offset last) c c') : c'.ρ x = c.ρ x := by
  suffices (Amid b here b' last c'.label c'.index ∧ Q c'.label c'.index) ∧ c'.ρ x = c.ρ x from this.2
  induction h with
  | refl => exact ⟨⟨hin, hQ⟩, rfl⟩
  | @tail c₁ c₂ _ hstep ih =>
    obtain ⟨⟨hin₁, hQ₁⟩, hkept⟩ := ih
    obtain ⟨hin₂, a, haction, hkeeps, hplace⟩ := hin₁.step hc hg hstep.1 hstep.2
    refine ⟨⟨hin₂, ?_⟩, (hkeeps x (hquiet _ _ a hin₁ hQ₁ haction)).trans hkept⟩
    rcases hplace with ⟨hl, hn⟩ | ⟨hn, t, ht, hl⟩
    · rw [hl, hn]
      exact hnext _ _ hQ₁
    · rw [hn]
      exact hjump _ _ t _ hin₁ hQ₁ ht hl

end Steps

section Expressions

variable {V : Type u} {S : Type v} {I : Interp V S} {g : Graph} {c : Interp.Config V S} {env : Env}
  {e : Expr} {here : Label} {b b' : Builder} {r : Placed} {ρ : Slot → V} {s : S} {x : Slot}

theorem lowerExpr_settled (h : lowerExpr env e here b = .ok r b') (hb : b.Sound) (ho : b.IsOpen here) :
    Site.Settled env b' (.expr e here b r b') where
  sound := hb
  isOpen := ho
  operand := nofun
  sealed := (Frame.refl b').sealed
  run := lowerExpr_inv h
  shut _ _ _ ht _ _ := ht

theorem lowerExpr_confined (h : lowerExpr env e here b = .ok r b') (ho : b.IsOpen here) :
    Confined b here b' (· = r.block) fun _ => False := by
  have hrun : Site.Run env (.expr e here b r b') := lowerExpr_inv h
  exact hrun.confines.plain _ rfl rfl ho

theorem lowerExpr_keeps (h : lowerExpr env e here b = .ok r b') (hg : BlocksGrow b'.blocks g.blocks)
    (hrun : I.AdvancesUpTo g r.block (b'.offset r.block) ⟨here, b.offset here, ρ, s⟩ c)
    (hx : x < b.nextSlot) : c.ρ x = ρ x := by
  have hv := lowerExpr_evaluated h
  by_cases ho : b.IsOpen here
  · have hc := lowerExpr_confined h ho
    refine (hc.amid (.refl b) hv.grows ho (.inl rfl)).run (Q := fun _ _ => True) hc hg ?_ ?_ ?_ trivial hrun
    · intro l n a hin _ ha ht
      have hle := ((hv.fills ha hin.start).of_target ht).1
      exact Nat.not_lt.mpr hle hx
    · exact fun _ _ _ => trivial
    · exact fun _ _ _ _ _ _ _ _ => trivial
  · -- nothing could be put down, so the start is the end
    obtain ⟨hblock, hoffset⟩ := hv.stays ho
    rw [hrun.eq_of_end hblock.symm (by rw [hblock, hoffset])]

end Expressions

section Parts

variable {env : Env} {bf : Builder} {p q : Site} {ps : List Site} {l m : Label} {t : Transfer}

theorem Splits.before (h : Splits env p ps) (hrun : ps.Forall (·.Run env)) (hp : p.Ready)
    (hstmt : p.isStmt = false) :
    ps.Forall fun q => ∃ owned, Region p.first p.here q.first owned ∧ owned q.here := by
  obtain ⟨hb, ho, hv⟩ := hp
  cases h with
  | literal | «variable» | constant | wildcard | argsNil | fieldsNil | storeVariable
  | storeWildcard => trivial
  | unary | cast | test | mapping | call | list | field | group | storeField => exact ⟨_, .refl ho, rfl⟩
  | binary | index | argsCons | storeIndex =>
    exact ⟨⟨_, .refl ho, rfl⟩, _, hrun.1.region ⟨hb, ho, nofun⟩, rfl⟩
  | @fieldsCons name =>
    have e₀ := (Evaluation.refl ho (by simp) : Evaluation _ _ _ _ []).loadName name
    have r₁ := hrun.1.region ⟨e₀.sound hb, e₀.open_last, nofun⟩
    exact ⟨⟨_, e₀.toRegion, rfl⟩, _, e₀.toRegion.seq rfl r₁, .inr rfl⟩
  | @ternary note cond whenTrue whenFalse _ _ c b₁ x b₂ y b₃ =>
    obtain ⟨hc, hx, hy⟩ := hrun
    have e₁ := ExprRun.evaluation hc hb ho
    have hfork : Region _ _ (b₁.fork c note) _ := e₁.fork
    have e₂ := ExprRun.evaluation hx (hfork.sound hb) (hfork.isOpen (.inl rfl))
    exact ⟨⟨_, .refl ho, rfl⟩, ⟨_, hfork, .inl rfl⟩, _, e₁.firstArm whenTrue.span e₂, .inr rfl⟩
  | _ => cases hstmt

theorem Part.before (h : Part env p q) (hp : p.Settled env bf) (hstmt : p.isStmt = false) :
    ∃ owned, Region p.first p.here q.first owned ∧ owned q.here := by
  induction h with
  | refl => exact ⟨_, .refl hp.isOpen, rfl⟩
  | @tail q q' hpart hchild ih =>
    obtain ⟨owned, hbefore, howned⟩ := ih
    obtain ⟨ps, hsplits, hrun, hmem⟩ := hchild
    have hall := hsplits.before hrun (Part.settled hpart hp).toReady (Part.isStmt hpart hstmt)
    obtain ⟨owned', hbefore', howned'⟩ := List.forall_iff_forall_mem.mp hall q' hmem
    exact ⟨_, hbefore.seq howned hbefore', .inr howned'⟩

theorem Splits.forward (h : Splits env p ps) (hps : ps.Forall fun q => q.Run env ∧ q.Ready)
    (hstmt : p.isStmt = false) (hc : (l, t) ∈ p.closings env ps) (hm : m ∈ t.successors) : l < m := by
  cases h with
  | call hcallee =>
    obtain ⟨rfl, rfl⟩ : l = _ ∧ t = _ := by simpa [Site.closings, hcallee] using hc
    obtain rfl := List.mem_singleton.mp hm
    exact (hps.1.region hps.2).lt rfl
  | @ternary _ _ _ _ _ _ c b₁ x b₂ y b₃ =>
    obtain ⟨⟨hrun, hready⟩, ⟨hrun', hready'⟩, hrun'', hready''⟩ := hps
    have hcond : c.block < b₁.nextLabel := (hrun.region hready).lt rfl
    have hleft : x.block < b₂.nextLabel := (hrun'.region hready').lt rfl
    have hright : y.block < b₃.nextLabel := (hrun''.region hready'').lt rfl
    have hle : b₂.nextLabel ≤ b₃.nextLabel := by
      simpa [Site.first, Site.last] using (hrun''.region hready'').nextLabel_le
    simp only [Site.closings, List.mem_cons, Prod.mk.injEq, List.not_mem_nil, or_false] at hc
    rcases hc with ⟨rfl, rfl⟩ | ⟨rfl, rfl⟩ | ⟨rfl, rfl⟩ <;> simp [Transfer.successors] at hm <;> lia
  | _ => simp [Site.closings, Site.isStmt] at hc hstmt

theorem Site.Run.forward (h : p.Run env) (hp : p.Ready) : p.isStmt = false →
    transferAt p.last.blocks l = some t → transferAt p.first.blocks l ≠ some t →
      m ∈ t.successors → l < m := by
  refine Site.Run.inductReady (fun p ps hsplits hp hparts hstmt ht hnew hm => ?_) h hp
  have hps : ps.Forall fun q => q.Run env ∧ q.Ready := hparts.imp fun _ => And.left
  rcases (hsplits.linked.origin ht).resolve_left hnew with hown | ⟨q, hq, hlast, hfirst⟩
  · exact hsplits.forward hps hstmt hown hm
  · have hchild : Child env p q := ⟨ps, hsplits, hps.imp fun _ => And.left, hq⟩
    exact (List.forall_iff_forall_mem.mp hparts q hq).2 (hchild.isStmt hstmt) hlast hfirst hm

end Parts

section Operands

variable {V : Type u} {S : Type v} {I : Interp V S} {g : Graph} {c : Interp.Config V S} {env : Env}
  {e e₁ : Expr} {here here₁ l : Label} {b b' b₁ b₂ bf : Builder} {r r₁ : Placed} {ρ : Slot → V} {s : S}
  {x : Slot} {n : Nat} {a : Action}

theorem Builder.Sealed.quiet (h : Sealed b b' bf) (hx : b.Allots b' x)
    (ha : (actionsAt bf.blocks l)[n]? = some a) (hn : (actionsAt b'.blocks l).length ≤ n) :
    a.target? ≠ some x := by
  intro ht
  obtain ⟨rest, hrest⟩ := h.grows.actionsAt_isPrefix l
  have hwrites := h.writes l x hx.1 hx.2
  rw [writersAt, ← hrest, List.filter_append, ← writersAt, List.append_right_eq_self, List.filter_eq_nil_iff]
    at hwrites
  rw [← hrest, List.getElem?_append_right hn] at ha
  exact hwrites a (List.mem_of_getElem? ha) (decide_eq_true ht)

theorem Site.Settled.quiet (h : Site.Settled env bf (.expr e₁ here₁ b₁ r₁ b₂)) (hv : Evaluated b₁ here₁ b₂ r₁)
    (hx : b₁.Allots b₂ x) (hl : r₁.block < l ∨ l = r₁.block ∧ b₂.offset r₁.block ≤ n)
    (ha : (actionsAt bf.blocks l)[n]? = some a) : a.target? ≠ some x := by
  rcases Nat.lt_or_ge n (actionsAt b₂.blocks l).length with hn | hn
  · -- what is there in a later block was there before the expression, and its temporary was not
    have hblock : r₁.block < l := by
      refine hl.resolve_right ?_
      rintro ⟨rfl, hle⟩
      have hopen : b₂.IsOpen r₁.block := h.region.isOpen rfl
      rw [hopen.length_actionsAt] at hn
      lia
    have hlt : l < b₂.nextLabel := by
      by_contra hge
      simp [actionsAt, List.getElem?_eq_none (Nat.le_of_not_lt hge)] at hn
    have hold : l ≠ here₁ ∧ l < b₁.nextLabel := by
      have := hv.newest
      lia
    obtain ⟨rest, hrest⟩ : actionsAt b₂.blocks l <+: actionsAt bf.blocks l :=
      h.sealed.grows.actionsAt_isPrefix l
    have hkeeps : actionsAt b₂.blocks l = actionsAt b₁.blocks l :=
      actionsAt_congr (h.keeps hold.1 (.inl hold.2))
    rw [← hrest, List.getElem?_append_left hn, hkeeps] at ha
    intro ht
    have hnil : writersAt b₁.blocks l x = [] := h.sound.writersAt_eq_nil hx.1
    exact List.filter_eq_nil_iff.mp hnil a (List.mem_of_getElem? ha) (decide_eq_true ht)
  · exact h.sealed.quiet hx ha hn

theorem lowerExpr_keeps_operand (h : lowerExpr env e here b = .ok r b') (hb : b.Sound) (ho : b.IsOpen here)
    (hpart : Part env (.expr e here b r b') (.expr e₁ here₁ b₁ r₁ b₂)) (hg : BlocksGrow b'.blocks g.blocks)
    (hrun : I.AdvancesUpTo g r.block (b'.offset r.block) ⟨r₁.block, b₂.offset r₁.block, ρ, s⟩ c) :
    c.ρ r₁.slot = ρ r₁.slot := by
  have hv := lowerExpr_evaluated h
  have hc := lowerExpr_confined h ho
  have hp := lowerExpr_settled h hb ho
  have hq := hpart.settled hp
  have hv₁ : Evaluated b₁ here₁ b₂ r₁ := lowerExpr_evaluated (hq.run.lowers hq.isOpen)
  obtain ⟨owned, hbefore, howned⟩ := hpart.before hp rfl
  have hdone := hbefore.seq howned hq.region
  have hin : Amid b here b' r.block r₁.block (b₂.offset r₁.block) :=
    hc.amid hdone.steps.grows hq.sealed.grows (hq.region.isOpen rfl) (hdone.place _ (.inr rfl))
  refine hin.run (Q := fun l n => r₁.block < l ∨ l = r₁.block ∧ b₂.offset r₁.block ≤ n) hc hg ?_ ?_ ?_
    (.inr ⟨rfl, Nat.le_refl _⟩) hrun
  · intro l n a hin hpast ha
    rcases hv₁.value with hx | ⟨key, hkey⟩
    · exact hq.quiet hv₁ hx hpast ha
    · intro ht
      have hnamed := hq.sound.named hq.grows (Locals.lookup?_mem hkey)
      exact hnamed.not_isTemporary ((hv.fills ha hin.start).of_target ht).2
  · intro l n hpast
    lia
  · intro l n t m hin hpast ht hm
    have hnew : transferAt b.blocks l = none := by
      rcases hin.place with rfl | hge
      · exact transferAt_of_openAt ho
      · exact transferAt_of_le hge
    have hlt := hp.run.forward hp.toReady rfl ht (by simp [Site.first, hnew]) hm
    lia

end Operands

/-- What the lowering of an expression from `b` to `b'` does to the slots. What it puts down gives values to
temporaries of its own and stores nothing, and its value is in one of these or where a key was bound.
While it is evaluated, all slots from before keep what they hold; and from where a part of it is done,
also the slot of the part does. -/
structure Undisturbing {V : Type u} {S : Type v} (I : Interp V S) (env : Env) (e : Expr) (here : Label)
    (b : Builder) (r : Placed) (b' : Builder) : Prop where
  emits : ∀ l, ∃ new, actionsAt b'.blocks l = actionsAt b.blocks l ++ new ∧
    ∀ a ∈ new, a.Fills (b.Allots b')
  value : b.Allots b' r.slot ∨ ∃ key, b.locals.lookup? key = some r.slot
  keeps : ∀ g ρ s c, BlocksGrow b'.blocks g.blocks →
    I.AdvancesUpTo g r.block (b'.offset r.block) ⟨here, b.offset here, ρ, s⟩ c →
    I.Reaches g ⟨here, b.offset here, ρ, s⟩ c ∧ ∀ x < b.nextSlot, c.ρ x = ρ x
  operands : b.Sound → b.IsOpen here → ∀ e₁ here₁ b₁ r₁ b₂,
    Part env (.expr e here b r b') (.expr e₁ here₁ b₁ r₁ b₂) →
    lowerExpr env e₁ here₁ b₁ = .ok r₁ b₂ ∧ ∀ g ρ s c, BlocksGrow b'.blocks g.blocks →
      I.AdvancesUpTo g r.block (b'.offset r.block) ⟨r₁.block, b₂.offset r₁.block, ρ, s⟩ c →
      I.Reaches g ⟨r₁.block, b₂.offset r₁.block, ρ, s⟩ c ∧ c.ρ r₁.slot = ρ r₁.slot

/-- Evaluating an expression never overwrites a variable, nor what an earlier part of it was evaluated to,
whatever builder it is lowered into. In a function each live expression is lowered so, into an open block
of a sound builder, and the graph takes over what was put down. -/
theorem lowerExpr_undisturbing {V : Type u} {S : Type v} (I : Interp V S) (env : Env) :
    (∀ e here b r b', lowerExpr env e here b = .ok r b' → Undisturbing I env e here b r b') ∧
    ∀ stem f g bf, lowerFunction env f { stem := stem } = .ok g bf → ∀ e,
      (f.Live (.expr e) ↔ ∃ here b r b', SiteOf env stem f g (.expr e here b r b')) ∧
      ∀ here b r b', SiteOf env stem f g (.expr e here b r b') →
        lowerExpr env e here b = .ok r b' ∧ b.Sound ∧ b.IsOpen here ∧ BlocksGrow b'.blocks g.blocks := by
  constructor
  · intro e here b r b' h
    have hv := lowerExpr_evaluated h
    refine ⟨hv.emits, hv.value, fun g ρ s c hg hrun => ⟨hrun.reaches, fun x => lowerExpr_keeps h hg hrun⟩, ?_⟩
    intro hb ho e₁ here₁ b₁ r₁ b₂ hpart
    have hq := hpart.settled (lowerExpr_settled h hb ho)
    exact ⟨hq.run.lowers hq.isOpen, fun g ρ s c hg hrun =>
      ⟨hrun.reaches, lowerExpr_keeps_operand h hb ho hpart hg hrun⟩⟩
  · intro stem f g bf h e
    constructor
    · rw [(lowerFunction_run h).live_iff]
      constructor
      · rintro ⟨p, hp, hnode⟩
        cases p <;> cases hnode
        exact ⟨_, _, _, _, hp⟩
      · rintro ⟨here, b, r, b', hp⟩
        exact ⟨_, hp, rfl⟩
    · intro here b r b' hp
      obtain ⟨bf, rfl, hset⟩ := hp.settled
      exact ⟨hset.run.lowers hset.isOpen, hset.sound, hset.isOpen, hset.sealed.grows.blocks⟩

def addingCall : Expr :=
  .binary {} .add (.var {} ⟨"x", {}⟩ ⟨0, 0⟩) (.ternary {} (.var {} ⟨"x", {}⟩ ⟨0, 0⟩)
    (.call {} none ⟨"g", {}⟩ [.var {} ⟨"x", {}⟩ ⟨0, 0⟩]) (.literal {} (.int 2)))

def addsCall : FunctionDef where
  name := ⟨"f", {}⟩
  params := [⟨⟨"x", {}⟩, ⟨0, 0⟩, none, {}⟩]
  body := .expr addingCall

def addsCallStart : Builder := (Env.enter ⟨.anonymous, id, [], []⟩ "bb" addsCall).grow

theorem addingCall_undisturbing : ∃ g bf r b' c,
    lowerFunction ⟨.anonymous, id, [], []⟩ addsCall { stem := "bb" } = .ok g bf ∧
    SiteOf ⟨.anonymous, id, [], []⟩ "bb" addsCall g (.expr addingCall 0 addsCallStart r b') ∧
    Part ⟨.anonymous, id, [], []⟩ (.expr addingCall 0 addsCallStart r b')
      (.expr (.var {} ⟨"x", {}⟩ ⟨0, 0⟩) 0 addsCallStart ⟨1, 0⟩ addsCallStart) ∧
    tally.AdvancesUpTo g r.block (b'.offset r.block) ⟨0, 0, fun _ => 7, []⟩ c ∧
    c.label = 4 ∧ c.s = ["$anon/.:g"] ∧ c.ρ 1 = 7 := by
  have hlowers : Env.lowersTo ⟨.anonymous, id, [], []⟩ "bb" addsCall (fun g =>
      g.block? 0 = some ⟨0, "bb0", [], some ⟨none, .branch 1 1 2, 0, {}⟩⟩ ∧
      g.block? 1 = some ⟨1, "bb1", [], some ⟨some 3, .call [1] (.ofName .anonymous "g") false 3, 0, {}⟩⟩ ∧
      g.block? 3 = some ⟨3, "bb3", [⟨2, .move 3, 0, {}⟩], some ⟨none, .goto 4, 0, {}⟩⟩) = true := by
    decide +kernel
  obtain ⟨g, bf, hg, htest⟩ := Env.exists_of_lowersTo hlowers
  obtain ⟨h₀, h₁, h₃⟩ := of_decide_eq_true htest
  obtain ⟨_, hbody, hgraph⟩ := lowerFunction_run hg
  cases hbody with
  | @expr _ _ r b' hrun =>
    have hsite : SiteOf ⟨.anonymous, id, [], []⟩ "bb" addsCall g (.expr addingCall 0 addsCallStart r b') :=
      ⟨_, _, .expr, hrun, hgraph, .refl⟩
    obtain ⟨hall, hsites⟩ := lowerExpr_undisturbing tally ⟨.anonymous, id, [], []⟩
    obtain ⟨hlower, hsound, hopen, hgrows⟩ := (hsites "bb" addsCall g bf hg addingCall).2 _ _ _ _ hsite
    have hpart : Part ⟨.anonymous, id, [], []⟩ (.expr addingCall 0 addsCallStart r b')
        (.expr (.var {} ⟨"x", {}⟩ ⟨0, 0⟩) 0 addsCallStart ⟨1, 0⟩ addsCallStart) := by
      cases hrun with
      | binary hop hl hr =>
        cases hl with
        | «variable» hslot =>
          cases hslot
          exact .single ⟨_, .binary hop, ⟨.variable rfl, hr⟩, List.mem_cons_self⟩
        | constant hnone => cases hnone
    have hend : r.block = 4 ∧ b'.offset 4 = 1 := by
      have hcomputed : (match lowerExpr ⟨.anonymous, id, [], []⟩ addingCall 0 addsCallStart with
          | .ok r b' => decide (r.block = 4 ∧ b'.offset 4 = 1)
          | .error _ _ => false) = true := by
        decide +kernel
      rw [hlower] at hcomputed
      exact of_decide_eq_true hcomputed
    obtain ⟨ρ, hreads⟩ : ∃ ρ, tally.AdvancesUpTo g r.block (b'.offset r.block) ⟨0, 0, fun _ => 7, []⟩
        ⟨4, 0, ρ, ["$anon/.:g"]⟩ := by
      rw [hend.1, hend.2]
      exact ⟨_, .head ⟨.jump h₀ rfl rfl, by decide⟩ (.head ⟨.jump h₁ rfl rfl, by decide⟩
        (.head ⟨.instruction h₃ rfl rfl, by decide⟩ (.single ⟨.jump h₃ rfl rfl, by decide⟩)))⟩
    have hkept := ((hall _ _ _ _ _ hlower).operands hsound hopen _ _ _ _ _ hpart).2 g _ _ _ hgrows hreads
    exact ⟨g, bf, r, b', _, hg, hsite, hpart, hreads, rfl, rfl, hkept.2⟩

end FlowGraph

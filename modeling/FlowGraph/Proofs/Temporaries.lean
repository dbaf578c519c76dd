import FlowGraph.Proofs.Definedness
import FlowGraph.Proofs.Live
import Mathlib.Data.List.Perm.Basic

/-!
Temporaries are written before they are read, and once. The exception is the result of a choice,
which both arms write.
-/

namespace FlowGraph

open Builder

def WrittenOnce (blocks : List BasicBlock) (s : Slot) : Prop :=
  ∃ l, (writersAt blocks l s).length ≤ 1 ∧ ∀ m, m ≠ l → writersAt blocks m s = []

theorem WrittenOnce.congr {blocks blocks' : List BasicBlock} {s : Slot} (h : WrittenOnce blocks s)
    (hb : ∀ l, writersAt blocks' l s = writersAt blocks l s) : WrittenOnce blocks' s := by
  obtain ⟨l, hl, hm⟩ := h
  exact ⟨l, by rw [hb]; exact hl, fun m hne => by rw [hb, hm m hne]⟩

/-- Temporaries that are added, but for those in `T`, are written once. -/
structure Once (T : Slot → Prop) (b b' : Builder) : Prop extends b.Frame b' where
  once : ∀ s, b.nextSlot ≤ s → b'.locals.IsTemporary s → T s ∨ WrittenOnce b'.blocks s

namespace Once

variable {T : Slot → Prop} {b b₁ b₂ : Builder} {l : Label} {span : Span}

theorem of_frame (hf : b.Frame b₁) (h : ∀ s, b.nextSlot ≤ s → ¬ b₁.locals.IsTemporary s) : Once T b b₁ :=
  ⟨hf, fun s hs ht => absurd ht (h s hs)⟩

theorem refl (b : Builder) : Once T b b :=
  .of_frame (.refl b) fun _ hs ht => Nat.not_lt_of_le hs ht.lt

theorem trans (h : Once T b b₁) (h' : Once T b₁ b₂) : Once T b b₂ where
  toFrame := h.toFrame.trans h'.toFrame
  once s hs ht := by
    rcases Nat.lt_or_ge s b₁.nextSlot with hlt | hge
    · have ht₁ := (h'.grows.isTemporary_iff hlt).mp ht
      exact (h.once s hs ht₁).imp_right fun hw => hw.congr fun m => h'.writes m s ht₁
    · exact h'.once s hge ht

theorem same (h : Once T b b₁) (hf : b₁.Frame b₂) (hn : b₂.nextSlot = b₁.nextSlot) : Once T b b₂ := by
  refine h.trans (.of_frame hf fun s hs ht => ?_)
  have hlt : s < b₂.nextSlot := ht.lt
  lia

theorem addBound (h : Once T b b₁) (name : String) (ty : Option Ty) (key : Symbol) :
    Once T b (b₁.addBound name ty .declared key) := by
  refine h.trans (.of_frame ((Frame.refl b₁).addBound (.inr rfl)) fun s hs ht => ?_)
  exact Nat.not_lt_of_le hs (isTemporary_of_addBound (.inr rfl) ht).lt

theorem push (h : Once T b b₁) (hf : b₁.Frame b₂) (hn : b₂.nextSlot = b₁.nextSlot + 1)
    (hl : (writersAt b₂.blocks l b₁.nextSlot).length ≤ 1)
    (hm : ∀ m, m ≠ l → writersAt b₂.blocks m b₁.nextSlot = []) : Once T b b₂ := by
  refine h.trans ⟨hf, fun s hs ht => .inr ?_⟩
  obtain rfl : s = b₁.nextSlot := by
    have : s < b₂.nextSlot := ht.lt
    lia
  exact ⟨l, hl, hm⟩

theorem compute (h : Once T b b₁) {ty : Option Ty} {op : Operation} (hb₁ : b₁.Sound)
    (ho : b₁.IsOpen l) : Once T b (b₁.compute l ty op span) := by
  have hw : ∀ m, writersAt (b₁.compute l ty op span).blocks m b₁.nextSlot = _ := fun m =>
    writersAt_append (b := b₁.addTemporary ty) ho
  have hnil : ∀ m, writersAt b₁.blocks m b₁.nextSlot = [] := fun m => hb₁.writersAt_eq_nil (Nat.le_refl _)
  refine h.push (l := l) ((Frame.refl b₁).compute ho) (by simp [Builder.compute]) ?_ fun m hm => ?_
  · rw [hw, addTemporary_blocks, hnil]
    split <;> simp
  · simp [hw, hnil, hm]

theorem call (h : Once T b b₁) {note : Note} {slots : List Slot} {callee : Callee} (hb₁ : b₁.Sound)
    (ho : b₁.IsOpen l) (hs : ∀ s ∈ slots, s < b₁.nextSlot) : Once T b (b₁.call l note slots callee) := by
  have hw : ∀ m, writersAt (b₁.call l note slots callee).blocks m b₁.nextSlot = _ := fun m =>
    writersAt_close (b := b₁.grow.addTemporary note.ty) (isOpen_grow.mpr (.inl ho))
  have hnil : ∀ m, writersAt b₁.grow.blocks m b₁.nextSlot = [] := fun m =>
    writersAt_grow.trans (hb₁.writersAt_eq_nil (Nat.le_refl _))
  have hf : b₁.Frame (b₁.call l note slots callee) := (Evaluation.refl ho hs).call.frame
  refine h.push (l := l) hf (by simp [Builder.call]) ?_ fun m hm => ?_
  · rw [hw, addTemporary_blocks, hnil]
    split <;> simp
  · simp [hw, hnil, hm]

theorem addTemporary (h : Once T b b₁) (hb₁ : b₁.Sound) (ty : Option Ty) :
    Once T b (b₁.addTemporary ty) := by
  have hnil : ∀ m, writersAt b₁.blocks m b₁.nextSlot = [] := fun m => hb₁.writersAt_eq_nil (Nat.le_refl _)
  exact h.push (l := 0) ((Frame.refl b₁).addTemporary ty) (by simp) (by simp [hnil]) fun m _ => hnil m

theorem fork (h : Once T b b₁) {c : Placed} {note : Note} (ho : b₁.IsOpen c.block)
    (hT : T b₁.nextSlot) : Once T b (b₁.fork c note) := by
  refine h.trans ⟨((Frame.refl b₁).addTemporary note.ty).grow.grow.close (by simp [ho]), fun s hs ht => ?_⟩
  obtain rfl : s = b₁.nextSlot := by
    have := ht.lt
    simp [Builder.fork] at this
    lia
  exact .inl hT

theorem append (h : Once T b b₁) {dst : Slot} (op : Operation) (span : Span) (ho : b₁.IsOpen l)
    (hle : b.nextSlot ≤ dst) (hd : T dst) : Once T b (b₁.append l dst op span) where
  toFrame := h.toFrame.append ho (.inr fun ht => Nat.not_lt_of_le hle ht.lt)
  once s hs ht := by
    by_cases hne : dst = s
    · exact .inl (hne ▸ hd)
    · exact (h.once s hs ht).imp_right fun hw => hw.congr fun m => by simp [writersAt_append ho, hne]

end Once

/-- `Chooses env p s x y`: at `p` a choice has its result in slot `s`, from arms that end with `x` and
`y`. -/
inductive Chooses (env : Env) : Site → Slot → Placed → Placed → Prop
  | ternary {note cond whenTrue whenFalse here b c b₁ x b₂ y b₃} :
    ExprRun env cond here b c b₁ → ExprRun env whenTrue b₁.nextLabel (b₁.fork c note) x b₂ →
    ExprRun env whenFalse (b₁.nextLabel + 1)
      (b₂.append x.block b₁.nextSlot (.move x.slot) whenTrue.span) y b₃ →
    Chooses env (.expr (.ternary note cond whenTrue whenFalse) here b ⟨b₁.nextSlot, b₃.nextLabel⟩
      ((b₃.append y.block b₁.nextSlot (.move y.slot) whenFalse.span).join x.block y.block note.span))
      b₁.nextSlot x y

theorem Site.Run.chooses {env : Env} {p : Site} (h : p.Run env) {note : Note} {cond whenTrue whenFalse : Expr}
    (hnode : p.node = .expr (.ternary note cond whenTrue whenFalse)) : ∃ s x y, Chooses env p s x y := by
  obtain ⟨ps, hsplits, hrun⟩ := h.splits
  cases hsplits <;> cases hnode
  case ternary =>
    obtain ⟨hc, hx, hy⟩ := hrun
    exact ⟨_, _, _, .ternary hc hx hy⟩

theorem Splits.once {env : Env} {T : Slot → Prop} {p : Site} {ps : List Site} (h : Splits env p ps)
    (hp : p.Ready) (hT : ∀ s x y, Chooses env p s x y → T s)
    (hparts : ps.Forall fun q => (q.Run env ∧ q.Ready) ∧ Once T q.first q.last) :
    Once T p.first p.last := by
  obtain ⟨hb, ho, hv⟩ := hp
  cases h with
  | literal | constant => exact (Once.refl _).compute hb ho
  | «variable» | argsNil | fieldsNil | nil => exact .refl _
  | binary | index =>
    obtain ⟨⟨-, h₁⟩, ⟨hrun, hq⟩, h₂⟩ := hparts
    have r := hrun.region hq
    exact (h₁.trans h₂).compute (r.sound hq.sound) (r.isOpen rfl)
  | unary | cast | test | mapping =>
    obtain ⟨⟨hrun, hq⟩, h₁⟩ := hparts
    have r := hrun.region hq
    exact h₁.compute (r.sound hq.sound) (r.isOpen rfl)
  | call =>
    obtain ⟨⟨hrun, hq⟩, h₁⟩ := hparts
    have e := ArgsRun.evaluation hrun hb ho
    exact h₁.call (e.sound hb) e.open_last e.slots_lt
  | list | field =>
    obtain ⟨⟨hrun, hq⟩, h₁⟩ := hparts
    have r := hrun.region hq
    exact (h₁.compute (r.sound hq.sound) (r.isOpen rfl)).compute ((r.load rfl).sound hq.sound)
      ((r.load rfl).isOpen rfl)
  | group | expr | block | leave => exact hparts.2
  | wildcard => exact (Once.refl _).addTemporary hb none
  | @ternary note cond whenTrue whenFalse _ b c b₁ x b₂ y b₃ =>
    obtain ⟨⟨⟨hc, -⟩, h₁⟩, ⟨⟨hx, hqx⟩, h₂⟩, ⟨hy, hqy⟩, h₃⟩ := hparts
    have hslot := hT _ _ _ (.ternary hc hx hy)
    have e₁ := ExprRun.evaluation hc hb ho
    have e₂ := ExprRun.evaluation hx hqx.sound hqx.isOpen
    have e₃ := ExprRun.evaluation hy hqy.sound hqy.isOpen
    obtain ⟨hleft, hright⟩ := e₂.arms_open whenFalse.span e₃
    have harm := ((h₁.fork e₁.open_last hslot).trans h₂).append (.move x.slot) whenTrue.span e₂.open_last
      e₁.nextSlot_le hslot
    have harms := (harm.trans h₃).append (.move y.slot) whenFalse.span e₃.open_last e₁.nextSlot_le hslot
    exact harms.same ((Frame.refl _).join hleft hright (e₂.arms_ne e₃).1) rfl
  | argsCons | next =>
    obtain ⟨⟨-, h₁⟩, -, h₂⟩ := hparts
    exact h₁.trans h₂
  | fieldsCons =>
    obtain ⟨⟨-, h₁⟩, -, h₂⟩ := hparts
    exact (((Once.refl _).compute hb ho).trans h₁).trans h₂
  | storeVariable hslot =>
    have hw := (Sound.bound hb _ _ (Locals.lookup?_mem hslot)).not_isTemporary
    exact (Once.refl _).same ((Frame.refl _).append ho (.inr hw)) rfl
  | storeIndex =>
    obtain ⟨⟨-, h₁⟩, ⟨hrun, hq⟩, h₂⟩ := hparts
    have hopen := (hrun.region hq).isOpen rfl
    exact (h₁.trans h₂).same ((Frame.refl _).append hopen (.inl (Access.storeInto_isStore _))) rfl
  | storeField =>
    obtain ⟨⟨hrun, hq⟩, h₁⟩ := hparts
    have r := hrun.region hq
    exact (h₁.compute (r.sound hq.sound) (r.isOpen rfl)).same
      ((Frame.refl _).append ((r.load rfl).isOpen rfl) (.inl rfl)) rfl
  | storeWildcard => exact (Once.refl _).compute hb ho
  | ifThen =>
    obtain ⟨⟨⟨hc, -⟩, h₁⟩, ⟨hbody, hq⟩, h₂⟩ := hparts
    have e₁ := ExprRun.evaluation hc hb ho
    have r₂ := BlockRun.region hbody hq.sound hq.isOpen
    exact ((h₁.same (Frame.refl _).grow rfl).trans h₂).same (e₁.ifThen_frame r₂) (by simp [Site.last])
  | @ifElse span =>
    obtain ⟨⟨⟨hc, -⟩, h₁⟩, ⟨⟨hbody, hq⟩, h₂⟩, ⟨helse, hq'⟩, h₃⟩ := hparts
    have e₁ := ExprRun.evaluation hc hb ho
    have r₂ := BlockRun.region hbody hq.sound hq.isOpen
    have r₃ := StmtRun.region helse hq'.sound hq'.isOpen
    have hthen := ((h₁.same (Frame.refl _).grow rfl).trans h₂).same (e₁.thenDone_frame span r₂) rfl
    exact (hthen.trans h₃).same (e₁.ifElse_frame r₂ r₃) (by simp [Site.last])
  | whileLoop =>
    obtain ⟨⟨⟨hc, hqc⟩, h₁⟩, ⟨hbody, hq⟩, h₂⟩ := hparts
    have e₁ := ExprRun.evaluation hc hqc.sound hqc.isOpen
    have r₂ := BlockRun.region hbody hq.sound hq.isOpen
    have hcond := ((Once.refl _).same ((Frame.refl _).advance ho) rfl).trans h₁
    exact ((hcond.same (enterLoop_frame e₁.open_last) rfl).trans h₂).same r₂.back_frame (by simp [Site.last])
  | ret | breakLoop | continueLoop => exact (Once.refl _).same ((Frame.refl _).close ho) rfl
  | retValue =>
    obtain ⟨⟨hrun, hq⟩, h₁⟩ := hparts
    have e₁ := ExprRun.evaluation hrun hb ho
    exact h₁.same ((Evaluation.refl e₁.open_last e₁.slots_lt).result (e₁.sound hb)).frame rfl
  | declare => exact (Once.refl _).addBound _ _ _
  | define =>
    obtain ⟨⟨hrun, hq⟩, h₁⟩ := hparts
    have hopen := (hrun.region hq).isOpen rfl
    refine (h₁.addBound _ _ _).same ((Frame.refl _).append hopen (.inr fun ht => ?_)) rfl
    exact Nat.lt_irrefl _ (isTemporary_of_addBound (.inr rfl) ht).lt
  | assign | update =>
    obtain ⟨⟨-, h₁⟩, -, h₂⟩ := hparts
    exact h₁.trans h₂
  | panic =>
    obtain ⟨⟨hrun, hq⟩, h₁⟩ := hparts
    exact h₁.same ((Frame.refl _).close ((hrun.region hq).isOpen rfl)) rfl
  | lockLeft => exact ((Once.refl _).same ((Frame.refl _).advance ho) rfl).trans hparts.2
  | lock =>
    obtain ⟨⟨hrun, hq⟩, h₁⟩ := hparts
    have hopen := (hrun.region hq).isOpen rfl
    exact (((Once.refl _).same ((Frame.refl _).advance ho) rfl).trans h₁).same
      ((Frame.refl _).advance hopen) rfl
  | scope =>
    have hbody := ((Once.refl _).same (Frame.refl _).enterScope rfl).trans hparts.2
    exact hbody.same (Frame.refl _).exitScope rfl

theorem Site.Run.once {env : Env} {T : Slot → Prop} {p : Site} (h : p.Run env) :
    p.Ready → (∀ q s x y, Part env p q → Chooses env q s x y → T s) → Once T p.first p.last := by
  refine Site.Run.induct ?_ h
  intro p ps hsplits hparts hp hT
  rw [List.forall_iff_forall_mem] at hparts
  have hruns : ps.Forall (·.Run env) := List.forall_iff_forall_mem.mpr fun q hq => (hparts q hq).1
  have hready := hsplits.context hruns ⟨hp, (Frame.refl _).sealed⟩
  rw [List.forall_iff_forall_mem] at hready
  refine hsplits.once hp (fun s x y => hT p s x y .refl) (List.forall_iff_forall_mem.mpr fun q hq => ?_)
  refine ⟨⟨(hparts q hq).1, (hready q hq).toReady⟩, (hparts q hq).2 (hready q hq).toReady ?_⟩
  intro q' s x y hpart
  exact hT q' s x y (.head ⟨ps, hsplits, hruns, hq⟩ hpart)

theorem ExprRun.arms {env : Env} {note : Note} {cond whenTrue whenFalse : Expr} {here : Label}
    {b b₁ b₂ b₃ : Builder} {c x y : Placed} {span : Span} (hc : ExprRun env cond here b c b₁)
    (hx : ExprRun env whenTrue b₁.nextLabel (b₁.fork c note) x b₂)
    (hy : ExprRun env whenFalse (b₁.nextLabel + 1)
      (b₂.append x.block b₁.nextSlot (.move x.slot) span) y b₃) (hb : b.Sound) (ho : b.IsOpen here) :
    Evaluation b here b₁ c.block [c.slot] ∧
    Evaluation (b₁.fork c note) b₁.nextLabel b₂ x.block [x.slot] ∧
    Evaluation (b₂.append x.block b₁.nextSlot (.move x.slot) span) (b₁.nextLabel + 1) b₃ y.block
      [y.slot] := by
  have e₁ := hc.evaluation hb ho
  have hfork : Region b here (b₁.fork c note) _ := e₁.fork
  have e₂ := hx.evaluation (hfork.sound hb) (hfork.isOpen (.inl rfl))
  have harm := e₁.firstArm span e₂
  exact ⟨e₁, e₂, hy.evaluation (harm.sound hb) (harm.isOpen (.inr rfl))⟩

theorem isTemporary_fork {b : Builder} {c : Placed} {note : Note} :
    (b.fork c note).locals.IsTemporary b.nextSlot := ⟨_, List.getElem?_concat_length, rfl⟩

theorem Chooses.writers {env : Env} {bf : Builder} {p : Site} {s : Slot} {x y : Placed}
    (h : Chooses env p s x y) (hp : p.Context bf) :
    y.block ≠ x.block ∧ ∃ i j : Instruction, i.op = .move x.slot ∧ j.op = .move y.slot ∧
      ∀ m, writersAt bf.blocks m s =
        (if m = x.block then [.instruction i] else []) ++ if m = y.block then [.instruction j] else [] := by
  obtain ⟨⟨hb, ho, -⟩, hs⟩ := hp
  cases h with
  | @ternary note cond whenTrue whenFalse here b c b₁ x b₂ y b₃ hc hx hy =>
    obtain ⟨e₁, e₂, e₃⟩ := hc.arms hx hy hb ho
    have hne := e₂.arms_ne e₃
    obtain ⟨hleft, hright⟩ := e₂.arms_open whenFalse.span e₃
    have hjoin : (b₃.append y.block b₁.nextSlot (.move y.slot) whenFalse.span).Frame
        (join _ x.block y.block note.span) := (Frame.refl _).join hleft hright hne.1
    have ht₁ : (b₁.fork c note).locals.IsTemporary b₁.nextSlot := isTemporary_fork
    have ht₂ := e₂.steps.grows.isTemporary ht₁
    have ht₃ := e₃.steps.grows.isTemporary ht₂
    refine ⟨hne.1, ⟨b₁.nextSlot, .move x.slot, b₂.scopes.current, whenTrue.span⟩,
      ⟨b₁.nextSlot, .move y.slot, b₃.scopes.current, whenFalse.span⟩, rfl, rfl, fun m => ?_⟩
    have hnil : writersAt (b₁.fork c note).blocks m b₁.nextSlot = [] := by
      rw [Builder.fork, writersAt_close (by simp [e₁.open_last])]
      simp [(e₁.sound hb).writersAt_eq_nil (Nat.le_refl _)]
    have hx' : writersAt b₂.blocks m b₁.nextSlot = [] := (e₂.writes m _ ht₁).trans hnil
    rw [hs.writes m _ e₁.nextSlot_le (hjoin.grows.isTemporary ht₃)]
    simp only [Site.last]
    rw [hjoin.writes m _ ht₃, writersAt_append e₃.open_last, e₃.writes m _ ht₂,
      writersAt_append e₂.open_last, hx']
    simp [Operation.isStore]

theorem Root.once {env : Env} {T : Slot → Prop} {body : Body} {b bf : Builder} {p : Site}
    (h : Root body b bf p) (hrun : p.Run env) (hb : b.Sound)
    (hT : ∀ q s x y, Part env p q → Chooses env q s x y → T s) : Once T b bf := by
  have hp := (h.context hrun hb).toReady
  have hstart : Once T b b.grow := (Once.refl b).same (Frame.refl b).grow rfl
  have honce := hrun.once hp hT
  cases h with
  | leaves => exact hstart.trans honce
  | fallsOff => exact (hstart.trans honce).same ((Frame.refl _).close ((hrun.region hp).isOpen rfl)) rfl
  | expr =>
    have e := ExprRun.evaluation hrun hp.sound hp.isOpen
    exact (hstart.trans honce).same
      ((Evaluation.refl e.open_last e.slots_lt).result (e.sound hp.sound)).frame rfl

namespace Graph

variable {g : Graph} {s : Slot}

def IsTemporary (g : Graph) (s : Slot) : Prop := ∃ v, g.local? s = some v ∧ v.kind = .temporary

def writers (g : Graph) (s : Slot) : List (Label × Action) :=
  (List.range g.blocks.length).flatMap fun l => (writersAt g.blocks l s).map (l, ·)

theorem writers_perm {labels : List Label} (hnd : labels.Nodup) (hlt : ∀ l ∈ labels, l < g.blocks.length)
    (hrest : ∀ l, l ∉ labels → writersAt g.blocks l s = []) :
    (g.writers s).Perm (labels.flatMap fun l => (writersAt g.blocks l s).map (l, ·)) := by
  have hlabels : ((List.range g.blocks.length).filter (· ∈ labels)).Perm labels := by
    refine (List.perm_ext_iff_of_nodup (List.nodup_range.filter _) hnd).mpr fun l => ?_
    simpa using hlt l
  have hsplit := (List.filter_append_perm (· ∈ labels) (List.range g.blocks.length)).symm
  have hnil : ∀ l ∈ (List.range g.blocks.length).filter fun l => !decide (l ∈ labels),
      (writersAt g.blocks l s).map (l, ·) = [] := by
    intro l hl
    simp only [List.mem_filter, Bool.not_eq_true', decide_eq_false_iff_not] at hl
    simp [hrest l hl.2]
  refine (hsplit.flatMap_right _).trans ?_
  rw [List.flatMap_append, List.flatMap_eq_nil_iff.mpr hnil, List.append_nil]
  exact hlabels.flatMap_right _

theorem lt_of_writersAt {l : Label} (h : writersAt g.blocks l s ≠ []) : l < g.blocks.length := by
  by_contra hge
  simp [writersAt, actionsAt, List.getElem?_eq_none (Nat.le_of_not_lt hge)] at h

theorem writers_length_le (h : WrittenOnce g.blocks s) : (g.writers s).length ≤ 1 := by
  obtain ⟨l, hl, hrest⟩ := h
  by_cases hnil : writersAt g.blocks l s = []
  · have hperm : (g.writers s).Perm (List.flatMap _ []) :=
      writers_perm List.nodup_nil (by simp) fun m _ => by
        by_cases hm : m = l
        · rw [hm, hnil]
        · exact hrest m hm
    simp [hperm.eq_nil]
  · have hperm : (g.writers s).Perm _ := writers_perm (List.nodup_singleton l)
      (by simpa using lt_of_writersAt hnil) fun m hm => hrest m (by simpa using hm)
    rw [hperm.length_eq]
    simpa using hl

end Graph

theorem FunctionRun.once {env : Env} {stem : String} {f : FunctionDef} {g : Graph} {s : Slot}
    (h : FunctionRun env stem f g) (hs : g.IsTemporary s) :
    (∃ p x y, SiteOf env stem f g p ∧ Chooses env p s x y) ∨ WrittenOnce g.blocks s := by
  obtain ⟨b, hbody, rfl⟩ := h
  obtain ⟨root, hroot, hrun⟩ := hbody.root
  have honce : Once (fun s => ∃ p x y, SiteOf env stem f (b.graph env f) p ∧ Chooses env p s x y)
      (env.enter stem f) b :=
    hroot.once hrun (env.enter_sound stem f) fun q s x y hpart hc =>
      ⟨q, x, y, ⟨b, root, hroot, hrun, rfl, hpart⟩, hc⟩
  refine honce.once s ?_ hs
  by_contra hlt
  exact env.enter_not_isTemporary stem f s ((honce.grows.isTemporary_iff (Nat.lt_of_not_le hlt)).mp hs)

theorem FunctionRun.defined {env : Env} {stem : String} {f : FunctionDef} {g : Graph}
    (h : FunctionRun env stem f g) (hw : f.body.wildcardsAssigned = true) {path : List Label}
    (hp : g.IsPath path) {i : Nat} {a : Action} {s : Slot} (ha : (g.trace path)[i]? = some a)
    (hs : s ∈ a.reads) (ht : g.IsTemporary s) : ∃ w ∈ (g.trace path).take i, w.Writes s := by
  obtain ⟨b, hbody, rfl⟩ := h
  obtain ⟨K, hstart, hK⟩ := hbody.justified hw (env.enter_sound stem f) (env.enter_blocks stem f)
  exact hK.path hstart rfl hp ha hs ht

theorem SiteOf.writers {env : Env} {stem : String} {f : FunctionDef} {g : Graph} {p : Site} {s : Slot}
    {x y : Placed} (h : SiteOf env stem f g p) (hc : Chooses env p s x y) :
    x.block ≠ y.block ∧ ∃ i j : Instruction, i.op = .move x.slot ∧ j.op = .move y.slot ∧
      (g.writers s).Perm [(x.block, .instruction i), (y.block, .instruction j)] := by
  obtain ⟨b, rfl, -, hp⟩ := h.context
  obtain ⟨hne, i, j, hi, hj, hw⟩ := hc.writers hp
  have hg : (b.graph env f).blocks = b.blocks := rfl
  refine ⟨hne.symm, i, j, hi, hj, ?_⟩
  have hperm : ((b.graph env f).writers s).Perm (List.flatMap _ [x.block, y.block]) :=
    Graph.writers_perm (by simp [hne.symm]) (fun l hl => ?_) fun l hl => ?_
  · simpa [hg, hw, hne, hne.symm] using hperm
  · apply Graph.lt_of_writersAt (s := s)
    rw [hg, hw]
    grind
  · rw [hg, hw]
    grind

theorem SiteOf.isTemporary {env : Env} {stem : String} {f : FunctionDef} {g : Graph} {p : Site} {s : Slot}
    {x y : Placed} (h : SiteOf env stem f g p) (hc : Chooses env p s x y) : g.IsTemporary s := by
  obtain ⟨b, rfl, -, ⟨⟨hb, ho, -⟩, hs⟩⟩ := h.context
  cases hc with
  | ternary hc hx hy =>
    obtain ⟨-, e₂, e₃⟩ := hc.arms hx hy hb ho
    have ht := e₂.steps.grows.isTemporary isTemporary_fork
    exact hs.grows.isTemporary (e₃.steps.grows.isTemporary ht)

/-- In a function whose wildcards are only assigned to, a temporary that is read on a path was written
before on it. Temporaries are written once, but for the result of a choice, which each arm moves its
value into. Every choice that is live has such a result. -/
theorem lowerFunction_temporaries {env : Env} {stem : String} {f : FunctionDef} {g : Graph} {b : Builder}
    (h : lowerFunction env f { stem := stem } = .ok g b) (hw : f.body.wildcardsAssigned = true) :
    (∀ path, g.IsPath path → ∀ i a s, (g.trace path)[i]? = some a → s ∈ a.reads → g.IsTemporary s →
      ∃ w ∈ (g.trace path).take i, w.Writes s) ∧
    (∀ s, g.IsTemporary s →
      (g.writers s).length ≤ 1 ∨ ∃ p x y, SiteOf env stem f g p ∧ Chooses env p s x y) ∧
    (∀ note cond whenTrue whenFalse, f.Live (.expr (.ternary note cond whenTrue whenFalse)) ↔
      ∃ p s x y, SiteOf env stem f g p ∧ p.node = .expr (.ternary note cond whenTrue whenFalse) ∧
        Chooses env p s x y) ∧
    ∀ p s x y, SiteOf env stem f g p → Chooses env p s x y →
      g.IsTemporary s ∧ x.block ≠ y.block ∧ ∃ i j : Instruction,
        i.op = .move x.slot ∧ j.op = .move y.slot ∧
        (g.writers s).Perm [(x.block, .instruction i), (y.block, .instruction j)] := by
  have hrun := lowerFunction_run h
  refine ⟨fun path hp i a s ha hs ht => hrun.defined hw hp ha hs ht, fun s hs => ?_,
    fun note cond whenTrue whenFalse => ?_, ?_⟩
  · rcases hrun.once hs with hsite | hwritten
    · exact .inr hsite
    · exact .inl (Graph.writers_length_le hwritten)
  · simpa only [exists_and_left] using hrun.live_iff_of_run fun p hsite hnode => hsite.chooses hnode
  · intro p s x y hp hc
    exact ⟨hp.isTemporary hc, hp.writers hc⟩

def discarding : FunctionDef where
  name := ⟨"f", {}⟩
  params := [⟨⟨"x", {}⟩, ⟨0, 0⟩, none, {}⟩]
  body := .block (.mk [.assign {} (.wildcard {}) (.ternary {} (.var {} ⟨"x", {}⟩ ⟨0, 0⟩)
    (.var {} ⟨"x", {}⟩ ⟨0, 0⟩) (.call {} none ⟨"f", {}⟩ [.var {} ⟨"x", {}⟩ ⟨0, 0⟩]))] {})

theorem discarding_temporaries :
    discarding.body.wildcardsAssigned = true ∧
    ∃ g b, lowerFunction ⟨.anonymous, id, [], []⟩ discarding { stem := "bb" } = .ok g b ∧
      (g.IsPath [0, 2, 3, 4] ∧ ∃ w ∈ (g.trace [0, 2, 3, 4]).take 4, w.Writes 2) ∧
      (g.writers 4).length = 1 ∧
      ∃ p x y, SiteOf ⟨.anonymous, id, [], []⟩ "bb" discarding g p ∧
        Chooses ⟨.anonymous, id, [], []⟩ p 2 x y ∧ x.block ≠ y.block := by
  have hw : discarding.body.wildcardsAssigned = true := by decide
  have hlowers : Env.lowersTo ⟨.anonymous, id, [], []⟩ "bb" discarding (fun g =>
      g.IsPath [0, 2, 3, 4] ∧ (g.trace [0, 2, 3, 4])[4]?.any (2 ∈ ·.reads) ∧
        (g.local? 2).any (·.kind = .temporary) ∧ (g.writers 2).length = 2 ∧ (g.writers 4).length = 1) := by
    decide +kernel
  obtain ⟨g, b, hg, htest⟩ := Env.exists_of_lowersTo hlowers
  obtain ⟨hpath, hreads, hkind, htwo, hone⟩ := of_decide_eq_true htest
  obtain ⟨a, ha, hs⟩ := (Option.any_eq_true _ _).mp hreads
  obtain ⟨v, hv, hk⟩ := (Option.any_eq_true _ _).mp hkind
  have ht : g.IsTemporary 2 := ⟨v, hv, of_decide_eq_true hk⟩
  obtain ⟨hread, honce, -, hchoice⟩ := lowerFunction_temporaries hg hw
  refine ⟨hw, g, b, hg, ⟨hpath, hread _ hpath 4 a 2 ha (of_decide_eq_true hs) ht⟩, hone, ?_⟩
  rcases honce 2 ht with hle | ⟨p, x, y, hp, hc⟩
  · lia
  · exact ⟨p, x, y, hp, hc, (hchoice p 2 x y hp hc).2.1⟩

end FlowGraph

import FlowGraph.Proofs.Knowledge
import Mathlib.Data.List.Chain

/-!
On every path a temporary is written before it is read, as long as wildcards are only assigned to.
Lowering keeps a certificate of what each block knows; once the graph is complete, it is followed
along the paths.
-/

namespace FlowGraph

open Builder

mutual

def Expr.hasWildcard : Expr → Bool
  | .wildcard _ => true
  | .literal _ _ | .var _ _ _ => false
  | .binary _ _ lhs rhs => lhs.hasWildcard || rhs.hasWildcard
  | .unary _ _ e | .cast _ e _ | .test _ e _ _ | .group _ e | .field _ e _ => e.hasWildcard
  | .index _ container key => container.hasWildcard || key.hasWildcard
  | .call _ _ _ args => listHasWildcard args
  | .list _ elements _ => listHasWildcard elements
  | .mapping _ fields => fieldsHaveWildcard fields
  | .ternary _ cond whenTrue whenFalse =>
    cond.hasWildcard || whenTrue.hasWildcard || whenFalse.hasWildcard

def listHasWildcard : List Expr → Bool
  | [] => false
  | e :: es => e.hasWildcard || listHasWildcard es

def fieldsHaveWildcard : List (Ident × Expr) → Bool
  | [] => false
  | (_, e) :: fields => e.hasWildcard || fieldsHaveWildcard fields

end

mutual

def Stmt.wildcardsAssigned : Stmt → Bool
  | .assign _ (.wildcard _) value => !value.hasWildcard
  | .assign _ target value | .update _ _ target value _ => !target.hasWildcard && !value.hasWildcard
  | .expr _ e | .panic _ e => !e.hasWildcard
  | .ret _ value => value.all (!·.hasWildcard)
  | .define _ var => var.init.all (!·.hasWildcard)
  | .block _ body | .lock _ body => body.wildcardsAssigned
  | .ifThen _ cond body | .whileLoop _ cond body => !cond.hasWildcard && body.wildcardsAssigned
  | .ifElse _ cond body otherwise =>
    !cond.hasWildcard && body.wildcardsAssigned && otherwise.wildcardsAssigned
  | .foreach _ var collection body =>
    var.init.all (!·.hasWildcard) && !collection.hasWildcard && body.wildcardsAssigned
  | .breakLoop _ | .continueLoop _ => true

def Block.wildcardsAssigned : Block → Bool
  | .mk stmts _ => listWildcardsAssigned stmts

def listWildcardsAssigned : List Stmt → Bool
  | [] => true
  | s :: stmts => s.wildcardsAssigned && listWildcardsAssigned stmts

end

def Body.wildcardsAssigned : Body → Bool
  | .block body => body.wildcardsAssigned
  | .expr value => !value.hasWildcard
  | .external => true

theorem Stmt.assign_hasWildcard {span : Span} {target value : Expr}
    (h : (Stmt.assign span target value).wildcardsAssigned = true) :
    value.hasWildcard = false ∧ (target.hasWildcard = false ∨ ∃ note, target = .wildcard note) := by
  cases target <;> simp_all [Stmt.wildcardsAssigned]

def Builder.Apart (b : Builder) (temp : Slot → Prop) : Prop :=
  ∀ key s, b.locals.lookup? key = some s → ¬ temp s

section

variable {temp : Slot → Prop} {env : Env}

theorem Evaluation.apart {b b' : Builder} {here l : Label} {slots : List Slot}
    (h : Evaluation b here b' l slots) (hv : b.Apart temp) : b'.Apart temp := by
  intro key s hs
  rw [Locals.lookup?, h.bindings] at hs
  exact hv key s hs

mutual

theorem ExprRun.learns {e : Expr} {here : Label} {b b' : Builder} {r : Placed} {K : Knowledge}
    (h : ExprRun env e here b r b') (hw : e.hasWildcard = false) (hb : b.Sound) (ho : b.IsOpen here)
    (hv : b.Apart temp) (hK : Justified temp K b) :
    ∃ K', Learns temp K b here K' b' r.block [r.slot] := by
  have hr : Learns temp K b here K b here [] := .refl hK (by simp)
  cases h with
  | literal => exact ⟨_, hr.load ho⟩
  | «variable» hslot =>
    refine ⟨K, .refl hK fun s hs ht => absurd ht ?_⟩
    obtain rfl := List.mem_singleton.mp hs
    exact hv _ _ hslot
  | constant hnone hc => exact ⟨_, hr.load ho⟩
  | binary hop hl hrhs =>
    simp only [Expr.hasWildcard, Bool.or_eq_false_iff] at hw
    have e₁ := hl.evaluation hb ho
    have e₂ := hrhs.evaluation (e₁.sound hb) e₁.open_last
    obtain ⟨K₁, h₁⟩ := hl.learns hw.1 hb ho hv hK
    obtain ⟨K₂, h₂⟩ := hrhs.learns hw.2 (e₁.sound hb) e₁.open_last (e₁.apart hv) h₁.justified
    have h₃ := h₁.trans h₂ e₁.nextLabel_le
    exact ⟨K₂, h₃.compute e₂.open_last rfl rfl (by simp [Operation.sources])⟩
  | unary hop hx =>
    simp only [Expr.hasWildcard] at hw
    obtain ⟨K₁, h₁⟩ := hx.learns hw hb ho hv hK
    exact ⟨K₁, h₁.compute (hx.evaluation hb ho).open_last rfl rfl (by simp [Operation.sources])⟩
  | call hcallee hargs =>
    simp only [Expr.hasWildcard] at hw
    have e₁ := hargs.evaluation hb ho
    obtain ⟨K₁, h₁⟩ := hargs.learns hw hb ho hv hK
    exact h₁.call (e₁.sound hb) e₁.nextLabel_le e₁.open_last
  | index hk hc =>
    simp only [Expr.hasWildcard, Bool.or_eq_false_iff] at hw
    have e₁ := hk.evaluation hb ho
    have e₂ := hc.evaluation (e₁.sound hb) e₁.open_last
    obtain ⟨K₁, h₁⟩ := hk.learns hw.2 hb ho hv hK
    obtain ⟨K₂, h₂⟩ := hc.learns hw.1 (e₁.sound hb) e₁.open_last (e₁.apart hv) h₁.justified
    have h₃ := h₁.trans h₂ e₁.nextLabel_le
    exact ⟨K₂, h₃.compute e₂.open_last rfl (Access.loadFrom_isStore _) (by simp [Operation.sources])⟩
  | list hargs =>
    simp only [Expr.hasWildcard] at hw
    have e₁ := hargs.evaluation hb ho
    obtain ⟨K₁, h₁⟩ := hargs.learns hw hb ho hv hK
    exact ⟨K₁, (h₁.load e₁.open_last).compute e₁.load.open_last (nextSlot_load ..) rfl
      (by simp [Operation.sources])⟩
  | cast hx =>
    simp only [Expr.hasWildcard] at hw
    obtain ⟨K₁, h₁⟩ := hx.learns hw hb ho hv hK
    exact ⟨K₁, h₁.compute (hx.evaluation hb ho).open_last rfl rfl (by simp [Operation.sources])⟩
  | test hx =>
    simp only [Expr.hasWildcard] at hw
    obtain ⟨K₁, h₁⟩ := hx.learns hw hb ho hv hK
    exact ⟨K₁, h₁.compute (hx.evaluation hb ho).open_last rfl rfl (by simp [Operation.sources])⟩
  | group hi =>
    simp only [Expr.hasWildcard] at hw
    exact hi.learns hw hb ho hv hK
  | wildcard => simp [Expr.hasWildcard] at hw
  | field hx =>
    simp only [Expr.hasWildcard] at hw
    have e₁ := hx.evaluation hb ho
    obtain ⟨K₁, h₁⟩ := hx.learns hw hb ho hv hK
    exact ⟨K₁, (h₁.load e₁.open_last).compute e₁.load.open_last (nextSlot_load ..) rfl
      (by simp [Operation.sources])⟩
  | mapping hf =>
    simp only [Expr.hasWildcard] at hw
    have e₁ := hf.evaluation hb ho
    obtain ⟨K₁, h₁⟩ := hf.learns hw hb ho hv hK
    exact ⟨K₁, h₁.compute e₁.open_last rfl rfl (by simp [Operation.sources])⟩
  | @ternary note cond whenTrue whenFalse _ _ c b₁ x b₂ y b₃ hc hx hy =>
    simp only [Expr.hasWildcard, Bool.or_eq_false_iff] at hw
    have e₁ := hc.evaluation hb ho
    have hfork : Region b here (b₁.fork c note) _ := e₁.fork
    have e₂ := hx.evaluation (hfork.sound hb) (hfork.isOpen (.inl rfl))
    have harm := e₁.firstArm whenTrue.span e₂
    have e₃ := hy.evaluation (harm.sound hb) (harm.isOpen (.inr rfl))
    obtain ⟨K₁, h₁⟩ := hc.learns hw.1.1 hb ho hv hK
    have hJ₁ := (h₁.fork note (e₁.sound hb) e₁.nextLabel_le e₁.open_last (Nat.le_refl _)).justified
    obtain ⟨K₂, h₂⟩ := hx.learns hw.1.2 (hfork.sound hb) (hfork.isOpen (.inl rfl)) (e₁.apart hv) hJ₁
    have hJ₂ : Justified temp K₂ (b₂.append x.block b₁.nextSlot (.move x.slot) whenTrue.span) :=
      (h₂.write e₂.open_last rfl (by simp [Operation.sources])).justified
    obtain ⟨K₃, h₃⟩ := hy.learns hw.2 (harm.sound hb) (harm.isOpen (.inr rfl))
      (e₂.apart (e₁.apart hv)) hJ₂
    exact h₁.ternary hb e₁ h₂ e₂ h₃ e₃

theorem ArgsRun.learns {es : List Expr} {here last : Label} {b b' : Builder} {slots : List Slot}
    {K : Knowledge} (h : ArgsRun env es here b slots last b') (hw : listHasWildcard es = false)
    (hb : b.Sound) (ho : b.IsOpen here) (hv : b.Apart temp) (hK : Justified temp K b) :
    ∃ K', Learns temp K b here K' b' last slots := by
  match h with
  | .nil => exact ⟨K, .refl hK (by simp)⟩
  | .cons he hes =>
    simp only [listHasWildcard, Bool.or_eq_false_iff] at hw
    have e₁ := he.evaluation hb ho
    obtain ⟨K₁, h₁⟩ := he.learns hw.1 hb ho hv hK
    obtain ⟨K₂, h₂⟩ := hes.learns hw.2 (e₁.sound hb) e₁.open_last (e₁.apart hv) h₁.justified
    exact ⟨K₂, h₁.trans h₂ e₁.nextLabel_le⟩

theorem FieldsRun.learns {fields : List (Ident × Expr)} {here last : Label} {b b' : Builder}
    {entries : List MapEntry} {K : Knowledge} (h : FieldsRun env fields here b entries last b')
    (hw : fieldsHaveWildcard fields = false) (hb : b.Sound) (ho : b.IsOpen here) (hv : b.Apart temp)
    (hK : Justified temp K b) :
    ∃ K', Learns temp K b here K' b' last (entries.flatMap MapEntry.sources) := by
  match h with
  | .nil => exact ⟨K, .refl hK (by simp)⟩
  | @FieldsRun.cons _ name _ _ _ _ _ _ _ _ _ he hfields =>
    simp only [fieldsHaveWildcard, Bool.or_eq_false_iff] at hw
    have hr : Evaluation b here b here [] := .refl ho (by simp)
    have e₀ := hr.loadName name
    have e₁ := he.evaluation (e₀.sound hb) e₀.open_last
    have h₀ := (Learns.refl hK (by simp) : Learns temp K b here K b here []).loadName name ho
    obtain ⟨K₁, h₁⟩ := he.learns hw.1 (e₀.sound hb) e₀.open_last (e₀.apart hv) h₀.justified
    have h₂ := h₀.trans h₁ e₀.nextLabel_le
    obtain ⟨K₂, h₃⟩ := hfields.learns hw.2 (e₁.sound (e₀.sound hb)) e₁.open_last
      (e₁.apart (e₀.apart hv)) h₂.justified
    refine ⟨K₂, (h₂.trans h₃ (e₀.seq e₁).nextLabel_le).subset ?_⟩
    simp [MapEntry.sources]

end

theorem StoreRun.learns {target : Expr} {value : Placed} {span : Span} {b b' : Builder} {last : Label}
    {K : Knowledge} (h : StoreRun env target value span b last b')
    (hw : target.hasWildcard = false ∨ ∃ note, target = .wildcard note) (hb : b.Sound)
    (ho : b.IsOpen value.block) (hv : b.Apart temp) (hK : Justified temp K b)
    (hval : ∀ s ∈ [value.slot], temp s → Knows K b value.block s) :
    ∃ K', Learns temp K b value.block K' b' last [] := by
  have hr : Learns temp K b value.block K b value.block [value.slot] := .refl hK hval
  cases h with
  | «variable» hslot => exact ⟨K, (hr.write ho rfl (by simp [Operation.sources])).subset (by simp)⟩
  | index hbase hkey =>
    simp only [Expr.hasWildcard, Bool.or_eq_false_iff, reduceCtorEq, exists_false, or_false] at hw
    have e₁ := hbase.evaluation hb ho
    have e₂ := hkey.evaluation (e₁.sound hb) e₁.open_last
    obtain ⟨K₁, h₁⟩ := hbase.learns hw.1 hb ho hv hK
    obtain ⟨K₂, h₂⟩ := hkey.learns hw.2 (e₁.sound hb) e₁.open_last (e₁.apart hv) h₁.justified
    have h₃ := (hr.trans h₁ (Nat.le_refl _)).trans h₂ e₁.nextLabel_le
    exact ⟨K₂, h₃.store e₂.open_last (by simp) (by simp [Operation.sources])⟩
  | @field _ _ name _ _ _ _ _ hbase =>
    simp only [Expr.hasWildcard, reduceCtorEq, exists_false, or_false] at hw
    have e₁ := hbase.evaluation hb ho
    obtain ⟨K₁, h₁⟩ := hbase.learns hw hb ho hv hK
    have h₂ := (hr.trans h₁ (Nat.le_refl _)).loadName name e₁.open_last
    exact ⟨K₁, h₂.store (e₁.loadName name).open_last (by simp) (by simp [Operation.sources])⟩
  | wildcard => exact ⟨K, (hr.compute ho rfl rfl (by simp [Operation.sources])).subset (by simp)⟩

end

theorem Builder.Sound.apart {b bf : Builder} (hbf : bf.Sound) (hg : b.Grows bf) :
    b.Apart bf.locals.IsTemporary := by
  intro key s hs
  exact (hbf.bound key s (hg.bindings.subset (Locals.lookup?_mem hs))).not_isTemporary

section

variable {env : Env} {bf : Builder}

mutual

theorem StmtRun.passes {st : Stmt} {here : Label} {b b' : Builder} {out : Option Label} {K : Knowledge}
    (h : StmtRun env st here b out b') (hw : st.wildcardsAssigned = true) (hbf : bf.Sound)
    (hg : b'.Grows bf) (hb : b.Sound) (ho : b.IsOpen here) (hK : Justified bf.locals.IsTemporary K b)
    (hl : LoopKnown K b here) : ∃ K', Passes bf.locals.IsTemporary K b here K' b' out := by
  have hr : Learns bf.locals.IsTemporary K b here K b here [] := .refl hK (by simp)
  have hv := hbf.apart ((h.region hb ho).steps.grows.trans hg)
  cases h with
  | expr hx =>
    obtain ⟨K₁, h₁⟩ := hx.learns (by simpa [Stmt.wildcardsAssigned] using hw) hb ho hv hK
    exact ⟨K₁, h₁.passes⟩
  | block hbody => exact hbody.passes (by simpa [Stmt.wildcardsAssigned] using hw) hbf hg hb ho hK hl
  | ifThen hc hbody =>
    simp only [Stmt.wildcardsAssigned, Bool.and_eq_true, Bool.not_eq_true'] at hw
    have e₁ := hc.evaluation hb ho
    have hgrow := e₁.toRegion.grow
    have r₂ := hbody.region (hgrow.sound hb) (hgrow.isOpen (.inr rfl))
    obtain ⟨K₁, h₁⟩ := hc.learns hw.1 hb ho hv hK
    have hstart := Passes.thenStart hb e₁ h₁
    obtain ⟨K₂, h₂⟩ := hbody.passes hw.2 hbf ((e₁.ifThen_frame r₂).grows.trans hg) (hgrow.sound hb)
      (hgrow.isOpen (.inr rfl)) hstart.justified (hl.mono hb hgrow.loops hstart.keeps (hstart.known _ rfl))
    exact Passes.ifThen hb e₁ h₁ r₂ h₂
  | @ifElse span _ _ _ _ _ _ _ _ _ _ _ hc hbody helse =>
    simp only [Stmt.wildcardsAssigned, Bool.and_eq_true, Bool.not_eq_true'] at hw
    have e₁ := hc.evaluation hb ho
    have hgrow := e₁.toRegion.grow
    have r₂ := hbody.region (hgrow.sound hb) (hgrow.isOpen (.inr rfl))
    have hthen := e₁.thenDone span r₂
    have r₃ := helse.region (hthen.sound hb) (hthen.isOpen (.inr rfl))
    have hg₃ := (e₁.ifElse_frame r₂ r₃).grows.trans hg
    have hg₂ := ((e₁.thenDone_frame span r₂).trans r₃.frame).grows.trans hg₃
    obtain ⟨K₁, h₁⟩ := hc.learns hw.1.1 hb ho hv hK
    have hstart := Passes.thenStart hb e₁ h₁
    obtain ⟨K₂, h₂⟩ := hbody.passes hw.1.2 hbf hg₂ (hgrow.sound hb) (hgrow.isOpen (.inr rfl))
      hstart.justified (hl.mono hb hgrow.loops hstart.keeps (hstart.known _ rfl))
    have hdone := (Passes.thenDone hb e₁ h₁ r₂ h₂ span).1
    obtain ⟨K₃, h₃⟩ := helse.passes hw.2 hbf hg₃ (hthen.sound hb) (hthen.isOpen (.inr rfl))
      hdone.justified (hl.mono hb hthen.loops hdone.keeps (hdone.known _ rfl))
    exact Passes.ifElse hb e₁ h₁ r₂ h₂ r₃ h₃
  | @whileLoop span _ _ _ _ c b₁ _ _ hc hbody =>
    simp only [Stmt.wildcardsAssigned, Bool.and_eq_true, Bool.not_eq_true'] at hw
    have h₀ := (Region.refl ho).advance (.goto b.nextLabel) span rfl rfl
    have e₁ := hc.evaluation (h₀.sound hb) (h₀.isOpen rfl)
    have hb₂ : (b₁.enterLoop b.nextLabel c span).Sound := h₀.enterLoop_sound e₁ hb
    have ho₂ := (h₀.enterLoop e₁ span).isOpen (.inl rfl)
    have r₂ := hbody.region hb₂ ho₂
    obtain ⟨K₁, h₁⟩ := hc.learns hw.1 (h₀.sound hb) (h₀.isOpen rfl) hv
      (Passes.loopHead hb ho hK span).justified
    obtain ⟨hstart, hloop⟩ := Passes.loopBody hb ho hK e₁ h₁
    obtain ⟨K₂, h₂⟩ := hbody.passes hw.2 hbf (r₂.back_frame.grows.trans hg) hb₂ ho₂ hstart.justified hloop
    exact ⟨K₂, Passes.whileLoop hb ho hK e₁ h₁ r₂ h₂⟩
  | ret => exact ⟨K, .leave hr ho (by simp [Transfer.sources]) (by simp [Transfer.successors])⟩
  | retValue hx =>
    obtain ⟨K₁, h₁⟩ := hx.learns (by simpa [Stmt.wildcardsAssigned] using hw) hb ho hv hK
    have e₁ := hx.evaluation hb ho
    exact ⟨K₁, .leave (h₁.write e₁.open_last rfl (by simp [Operation.sources]))
      (isOpen_append.mpr e₁.open_last) (by simp [Transfer.sources]) (by simp [Transfer.successors])⟩
  | @breakLoop _ _ _ frame hf =>
    refine ⟨K, .leave hr ho (by simp [Transfer.sources]) fun m hm s hs => ?_⟩
    obtain rfl : m = frame.onBreak := by simpa [Transfer.successors] using hm
    exact hl frame hf s (.inl hs)
  | @continueLoop _ _ _ frame hf =>
    refine ⟨K, .leave hr ho (by simp [Transfer.sources]) fun m hm s hs => ?_⟩
    obtain rfl : m = frame.onContinue := by simpa [Transfer.successors] using hm
    exact hl frame hf s (.inr hs)
  | declare hi => exact ⟨K, hr.passes.of_actionsAt fun m => rfl⟩
  | @define _ var _ _ _ r b₁ hi hx =>
    obtain ⟨K₁, h₁⟩ := hx.learns (by simpa [Stmt.wildcardsAssigned, hi] using hw) hb ho hv hK
    have e₁ := hx.evaluation hb ho
    have h₂ : Learns _ K b here K₁ (b₁.addBound var.name.name var.ty .declared (env.refKey var.symbol))
      r.block [r.slot] := h₁.of_actionsAt fun m => rfl
    exact ⟨K₁, (h₂.write e₁.open_last rfl (by simp [Operation.sources])).passes⟩
  | assign hx hstore =>
    obtain ⟨hvalue, htarget⟩ := Stmt.assign_hasWildcard hw
    have e₁ := hx.evaluation hb ho
    obtain ⟨K₁, h₁⟩ := hx.learns hvalue hb ho hv hK
    obtain ⟨K₂, h₂⟩ := hstore.learns htarget (e₁.sound hb) e₁.open_last (e₁.apart hv) h₁.justified
      h₁.results
    exact ⟨K₂, h₁.passes.trans h₂.passes e₁.nextLabel_le⟩
  | update hx hstore =>
    simp only [Stmt.wildcardsAssigned, Bool.and_eq_true, Bool.not_eq_true'] at hw
    have e₁ := hx.evaluation hb ho
    obtain ⟨K₁, h₁⟩ := hx.learns (by simp [Expr.hasWildcard, hw]) hb ho hv hK
    obtain ⟨K₂, h₂⟩ := hstore.learns (.inl hw.1) (e₁.sound hb) e₁.open_last (e₁.apart hv) h₁.justified
      h₁.results
    exact ⟨K₂, h₁.passes.trans h₂.passes e₁.nextLabel_le⟩
  | panic hx =>
    obtain ⟨K₁, h₁⟩ := hx.learns (by simpa [Stmt.wildcardsAssigned] using hw) hb ho hv hK
    exact ⟨K₁, .leave h₁ (hx.evaluation hb ho).open_last (by simp [Transfer.sources])
      (by simp [Transfer.successors])⟩
  | @lockLeft span _ _ _ _ hbody =>
    simp only [Stmt.wildcardsAssigned] at hw
    have h₀ := (Region.refl ho).advance (.lock b.nextLabel) span rfl rfl
    have hstart := hr.pass hb (.lock b.nextLabel) span (Nat.le_refl _) ho rfl rfl
    obtain ⟨K₁, h₁⟩ := hbody.passes hw hbf hg (h₀.sound hb) (h₀.isOpen rfl) hstart.justified
      (hl.mono hb h₀.loops hstart.keeps hstart.known)
    exact ⟨K₁, hstart.passes.trans h₁ h₀.nextLabel_le⟩
  | @lock span _ _ _ last b₁ hbody =>
    simp only [Stmt.wildcardsAssigned] at hw
    have h₀ := (Region.refl ho).advance (.lock b.nextLabel) span rfl rfl
    have hstart := hr.pass hb (.lock b.nextLabel) span (Nat.le_refl _) ho rfl rfl
    have r₁ := hbody.region (h₀.sound hb) (h₀.isOpen rfl)
    have hg₁ := ((Frame.refl b₁).advance (r₁.isOpen rfl)).grows.trans hg
    obtain ⟨K₁, h₁⟩ := hbody.passes hw hbf hg₁ (h₀.sound hb) (h₀.isOpen rfl) hstart.justified
      (hl.mono hb h₀.loops hstart.keeps hstart.known)
    have h₂ := hstart.passes.trans h₁ h₀.nextLabel_le
    have hend : Learns _ K b here K₁ b₁ last [] := ⟨h₂.keeps, h₂.justified, h₂.known last rfl, by simp⟩
    exact ⟨_, (hend.pass (r₁.sound (h₀.sound hb)) (.unlock b₁.nextLabel) span
      (Nat.le_trans h₀.nextLabel_le r₁.nextLabel_le) (r₁.isOpen rfl) rfl rfl).passes⟩

theorem BlockRun.passes {body : Block} {here : Label} {b b' : Builder} {out : Option Label}
    {K : Knowledge} (h : BlockRun env body here b out b') (hw : body.wildcardsAssigned = true)
    (hbf : bf.Sound) (hg : b'.Grows bf) (hb : b.Sound) (ho : b.IsOpen here)
    (hK : Justified bf.locals.IsTemporary K b) (hl : LoopKnown K b here) :
    ∃ K', Passes bf.locals.IsTemporary K b here K' b' out := by
  match h with
  | @BlockRun.mk _ stmts _ _ _ _ b₁ hstmts =>
    obtain ⟨K₁, h₁⟩ := hstmts.passes (by simpa [Block.wildcardsAssigned] using hw) hbf
      ((Step.exitScope b₁).grows.trans hg) ((Step.enterScope b).sound hb) ho
      (hK.of_actionsAt fun m => rfl) hl
    exact ⟨K₁, ⟨h₁.keeps, h₁.justified.of_actionsAt fun m => rfl, h₁.known⟩⟩

theorem StmtsRun.passes {stmts : List Stmt} {here : Label} {b b' : Builder} {out : Option Label}
    {K : Knowledge} (h : StmtsRun env stmts here b out b') (hw : listWildcardsAssigned stmts = true)
    (hbf : bf.Sound) (hg : b'.Grows bf) (hb : b.Sound) (ho : b.IsOpen here)
    (hK : Justified bf.locals.IsTemporary K b) (hl : LoopKnown K b here) :
    ∃ K', Passes bf.locals.IsTemporary K b here K' b' out := by
  match h with
  | .nil => exact ⟨K, ⟨fun _ _ => rfl, hK, by simp⟩⟩
  | .next hs hstmts =>
    simp only [listWildcardsAssigned, Bool.and_eq_true] at hw
    have r₁ := hs.region hb ho
    have r₂ := hstmts.region (r₁.sound hb) (r₁.isOpen rfl)
    obtain ⟨K₁, h₁⟩ := hs.passes hw.1 hbf (r₂.steps.grows.trans hg) hb ho hK hl
    obtain ⟨K₂, h₂⟩ := hstmts.passes hw.2 hbf hg (r₁.sound hb) (r₁.isOpen rfl) h₁.justified
      (hl.mono hb r₁.loops h₁.keeps (h₁.known _ rfl))
    exact ⟨K₂, h₁.trans h₂ r₁.nextLabel_le⟩
  | .leave hs =>
    simp only [listWildcardsAssigned, Bool.and_eq_true] at hw
    exact hs.passes hw.1 hbf hg hb ho hK hl

end

theorem BodyRun.justified {body : Body} {b b' : Builder} (h : BodyRun env body b b')
    (hw : body.wildcardsAssigned = true) (hb : b.Sound) (hblocks : b.blocks = []) :
    ∃ K : Knowledge, (∀ s, ¬ K 0 s) ∧ Justified b'.locals.IsTemporary K b' := by
  have hb₁ : b.grow.Sound := (Step.grow b).sound hb
  have ho₁ : b.grow.IsOpen b.nextLabel := isOpen_grow.mpr (.inr rfl)
  have hb' : b'.Sound := (h.region hb).sound hb₁
  have hK : Justified b'.locals.IsTemporary (fun _ _ => False) b.grow := by
    have hnil : ∀ l, actionsAt b.grow.blocks l = [] := fun l =>
      actionsAt_grow.trans (by simp [actionsAt, hblocks])
    constructor <;> simp [hnil]
  have hL : LoopKnown (fun _ _ => False) b.grow b.nextLabel := by simp [LoopKnown]
  have hstart : ∀ K : Knowledge, (∀ l, l < b.grow.nextLabel → K l = fun _ => False) → ∀ s, ¬ K 0 s := by
    intro K hkeeps s
    simp [hkeeps 0 (by simp)]
  cases h with
  | @leaves body _ _ h =>
    have hw' : listWildcardsAssigned body.stmts = true := by
      cases body
      simpa [Body.wildcardsAssigned, Block.wildcardsAssigned, Block.stmts] using hw
    obtain ⟨K, h₁⟩ := h.passes hw' hb' (.refl _) hb₁ ho₁ hK hL
    exact ⟨K, hstart K h₁.keeps, h₁.justified⟩
  | @fallsOff body _ last b₁ h =>
    have hw' : listWildcardsAssigned body.stmts = true := by
      cases body
      simpa [Body.wildcardsAssigned, Block.wildcardsAssigned, Block.stmts] using hw
    have hlast := (h.region hb₁ ho₁).isOpen rfl
    obtain ⟨K, h₁⟩ := h.passes hw' hb' ((Grows.refl b₁).close hlast) hb₁ ho₁ hK hL
    exact ⟨K, hstart K h₁.keeps,
      h₁.justified.close hlast (by simp [Transfer.sources]) (by simp [Transfer.successors])⟩
  | @expr value _ r b₁ h =>
    have e₁ := h.evaluation hb₁ ho₁
    have hg : b.grow.Grows (b₁.result r value.span) := (e₁.result hb₁).steps.grows
    obtain ⟨K, h₁⟩ := h.learns (by simpa [Body.wildcardsAssigned] using hw) hb₁ ho₁ (hb'.apart hg) hK
    refine ⟨K, hstart K h₁.keeps, ?_⟩
    have h₂ : Learns _ _ _ _ K (b₁.append r.block 0 (.move r.slot) value.span) r.block [0, r.slot] :=
      h₁.write e₁.open_last rfl (by simp [Operation.sources])
    exact h₂.justified.close (isOpen_append.mpr e₁.open_last) (by simp [Transfer.sources])
      (by simp [Transfer.successors])

end

namespace Graph

def IsPath (g : Graph) (path : List Label) : Prop :=
  path.head? = some 0 ∧ path.IsChain fun l m => m ∈ g.successors l

instance (g : Graph) (path : List Label) : Decidable (g.IsPath path) :=
  inferInstanceAs (Decidable (_ ∧ _))

def trace (g : Graph) (path : List Label) : List Action := path.flatMap (actionsAt g.blocks)

variable {g : Graph} {path : List Label} {l m : Label}

theorem trace_snoc : g.trace (path ++ [l]) = g.trace path ++ actionsAt g.blocks l := by
  simp [trace]

theorem IsPath.init (h : g.IsPath (path ++ [l])) (hne : path ≠ []) :
    g.IsPath path ∧ ∀ k ∈ path.getLast?, l ∈ g.successors k := by
  obtain ⟨hhead, hchain⟩ := h
  obtain ⟨hpath, -, hlast⟩ := List.isChain_append.mp hchain
  refine ⟨⟨?_, hpath⟩, fun k hk => hlast k hk l (by simp)⟩
  rwa [List.head?_append_of_ne_nil path hne] at hhead

theorem terminator_of_mem_successors (h : m ∈ g.successors l) :
    ∃ t, .terminator t ∈ actionsAt g.blocks l ∧ m ∈ t.successors := by
  cases hl : g.blocks[l]? with
  | none => simp [successors, block?, hl] at h
  | some block =>
    cases ht : block.terminator with
    | none => simp [successors, block?, hl, BasicBlock.successors, ht] at h
    | some t =>
      refine ⟨t, terminator_mem_actionsAt.mpr ⟨block, hl, ht⟩, ?_⟩
      simpa [successors, block?, hl, BasicBlock.successors, ht] using h

end Graph

/-- What a block is known to know has been written on every path to it. -/
theorem Justified.written {temp : Slot → Prop} {K : Knowledge} {b : Builder} {g : Graph}
    (h : Justified temp K b) (hstart : ∀ s, ¬ K 0 s) (hg : g.blocks = b.blocks) {path : List Label}
    {l : Label} {s : Slot} (hp : g.IsPath (path ++ [l])) (hs : K l s) : ∃ w ∈ g.trace path, w.Writes s := by
  induction path using List.reverseRecOn generalizing l with
  | nil =>
    obtain rfl : l = 0 := by simpa using hp.1
    exact absurd hs (hstart s)
  | append_singleton path k ih =>
    obtain ⟨hp', hl⟩ := hp.init (by simp)
    obtain ⟨t, ht, hl⟩ := Graph.terminator_of_mem_successors (hl k (by simp))
    rw [Graph.trace_snoc]
    rw [hg] at ht ⊢
    rcases h.onward k t ht l hl s hs with hk | ⟨w, hw, hs⟩
    · obtain ⟨w, hw, hs⟩ := ih hp' hk
      exact ⟨w, List.mem_append_left _ hw, hs⟩
    · exact ⟨w, List.mem_append_right _ hw, hs⟩

theorem Justified.path {temp : Slot → Prop} {K : Knowledge} {b : Builder} {g : Graph}
    (h : Justified temp K b) (hstart : ∀ s, ¬ K 0 s) (hg : g.blocks = b.blocks) {path : List Label}
    (hp : g.IsPath path) {i : Nat} {a : Action} {s : Slot} (ha : (g.trace path)[i]? = some a)
    (hs : s ∈ a.reads) (ht : temp s) : ∃ w ∈ (g.trace path).take i, w.Writes s := by
  induction path using List.reverseRecOn with
  | nil => simp [Graph.trace] at ha
  | append_singleton path l ih =>
    rw [Graph.trace_snoc] at ha ⊢
    rcases Nat.lt_or_ge i (g.trace path).length with hi | hi
    · rw [List.getElem?_append_left hi] at ha
      rw [List.take_append_of_le_length (Nat.le_of_lt hi)]
      refine ih (hp.init ?_).1 ha
      rintro rfl
      simp [Graph.trace] at hi
    · rw [List.getElem?_append_right hi, hg] at ha
      rw [List.take_append, List.take_of_length_le hi]
      rcases h.reads l _ a ha s hs ht with hk | ⟨w, hw, hs⟩
      · obtain ⟨w, hw, hs⟩ := h.written hstart hg hp hk
        exact ⟨w, List.mem_append_left _ hw, hs⟩
      · exact ⟨w, List.mem_append_right _ (hg ▸ hw), hs⟩

end FlowGraph

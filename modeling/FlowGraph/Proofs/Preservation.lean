import FlowGraph.Proofs.Simulation

/-!
Lowering preserves meaning: the graph of a function ends as the function does, wherever its
parameters and definitions have different keys.
-/

namespace FlowGraph

universe u v

open Builder Interp

theorem Builder.keys_gotoFrom {b : Builder} {fin : Option Label} {l : Label} {span : Span} :
    (b.gotoFrom fin l span).keys = b.keys := by
  cases fin <;> rfl

mutual

theorem StmtRun.keys {env : Env} {st : Stmt} {here : Label} {b b' : Builder} {out : Option Label}
    (h : StmtRun env st here b out b') (hb : b.Sound) (ho : b.IsOpen here) :
    b'.keys = st.declares env.refKey ++ b.keys := by
  have hr : Region b here b (· = here) := .refl ho
  cases h with
  | expr hv => exact (hv.evaluation hb ho).keys
  | block hbody => exact hbody.keys hb ho
  | ifThen hc hbody =>
    have h₁ := hc.evaluation hb ho
    rw [keys_gotoFrom]
    exact (hbody.keys (h₁.toRegion.grow.sound hb) (h₁.toRegion.grow.isOpen (.inr rfl))).trans
      (congrArg _ h₁.keys)
  | @ifElse span _ _ _ _ _ _ _ _ _ _ _ hc hbody helse =>
    have h₁ := hc.evaluation hb ho
    have hb₁ := h₁.toRegion.grow.sound hb
    have ho₁ := h₁.toRegion.grow.isOpen (.inr rfl)
    have h₃ := h₁.thenDone span (hbody.region hb₁ ho₁)
    have hthen := (hbody.keys hb₁ ho₁).trans (congrArg _ h₁.keys)
    rw [keys_gotoFrom, keys_gotoFrom]
    refine (helse.keys (h₃.sound hb) (h₃.isOpen (.inr rfl))).trans ?_
    rw [Stmt.declares, List.append_assoc]
    exact congrArg _ hthen
  | @whileLoop span _ _ _ _ c b₁ bodyEnd b₂ hc hbody =>
    have h₀ := hr.advance (.goto b.nextLabel) span rfl rfl
    have h₁ := hc.evaluation (h₀.sound hb) (h₀.isOpen rfl)
    have h₂ := h₀.enterLoop h₁ span
    have hbody' := hbody.keys (h₀.enterLoop_sound h₁ hb) (h₂.isOpen (.inl rfl))
    exact keys_gotoFrom.trans (hbody'.trans (congrArg _ h₁.keys))
  | ret => rfl
  | retValue hv => exact (hv.evaluation hb ho).keys
  | breakLoop hf => rfl
  | continueLoop hf => rfl
  | declare hi => rfl
  | define hi hv => exact congrArg _ (hv.evaluation hb ho).keys
  | assign hv hstore =>
    have h₁ := hv.evaluation hb ho
    have h₂ := hstore.evaluation (h₁.sound hb) h₁.open_last h₁.slot_lt
    exact (h₁.seq h₂).keys
  | update hv hstore =>
    have h₁ := hv.evaluation hb ho
    have h₂ := hstore.evaluation (h₁.sound hb) h₁.open_last h₁.slot_lt
    exact (h₁.seq h₂).keys
  | panic hv => exact (hv.evaluation hb ho).keys
  | @lockLeft span _ _ _ _ hbody =>
    have h₀ := hr.advance (.lock b.nextLabel) span rfl rfl
    exact hbody.keys (h₀.sound hb) (h₀.isOpen rfl)
  | @lock span _ _ _ _ _ hbody =>
    have h₀ := hr.advance (.lock b.nextLabel) span rfl rfl
    exact hbody.keys (h₀.sound hb) (h₀.isOpen rfl)

theorem BlockRun.keys {env : Env} {body : Block} {here : Label} {b b' : Builder} {out : Option Label}
    (h : BlockRun env body here b out b') (hb : b.Sound) (ho : b.IsOpen here) :
    b'.keys = body.declares env.refKey ++ b.keys := by
  match h with
  | .mk hstmts => exact hstmts.keys ((Step.enterScope b).sound hb) ho

theorem StmtsRun.keys {env : Env} {stmts : List Stmt} {here : Label} {b b' : Builder}
    {out : Option Label} (h : StmtsRun env stmts here b out b') (hb : b.Sound) (ho : b.IsOpen here) :
    b'.keys = declaresList env.refKey stmts ++ b.keys := by
  match h with
  | .nil => rfl
  | .next hs hstmts =>
    have h₁ := hs.region hb ho
    rw [hstmts.keys (h₁.sound hb) (h₁.isOpen rfl), hs.keys hb ho, declaresList, ← hs.isNone_eq]
    simp
  | .leave hs =>
    rw [hs.keys hb ho, declaresList, ← hs.isNone_eq]
    simp

end

theorem Evaluation.cond_offset {b b₁ b₂ : Builder} {here : Label} {c : Placed} {owned : Label → Prop}
    (hc : Evaluation b here b₁ c.block [c.slot]) (hbody : Region b₁.grow b₁.nextLabel b₂ owned) :
    b₂.offset c.block = b₁.offset c.block := by
  have hlt := hc.lt rfl
  rw [offset_congr (hbody.keeps _ (by simp; lia) (Nat.ne_of_lt hlt)), offset_grow]

namespace Interp

variable {V : Type u} {S : Type v} {I : Interp V S} {env : Env} {f : FunctionDef} {bf : Builder}

/-- What becomes of control behind a statement. From `c` it comes to the end of block `out` of `b'`,
or to a target of the innermost loop, or the function ends; without an answer the graph has none
either. -/
inductive Lands (I : Interp V S) (env : Env) (f : FunctionDef) (bf : Builder)
    (loop? : Option LoopFrame) (out : Option Label) (b' : Builder) (c : Config V S) (n : Nat) :
    Option (Flow V S) → Prop
  | running : I.run (bf.graph env f) n c = none → Lands I env f bf loop? out b' c n none
  | next {l σ ρ s} : out = some l → Matches I bf σ ρ →
    I.Reaches (bf.graph env f) c ⟨l, b'.offset l, ρ, s⟩ →
    Lands I env f bf loop? out b' c n (some (.next σ s))
  | broke {frame σ ρ s} : loop? = some frame → Matches I bf σ ρ →
    I.Reaches (bf.graph env f) c ⟨frame.onBreak, 0, ρ, s⟩ →
    Lands I env f bf loop? out b' c n (some (.broke σ s))
  | continued {frame σ ρ s} : loop? = some frame → Matches I bf σ ρ →
    I.Reaches (bf.graph env f) c ⟨frame.onContinue, 0, ρ, s⟩ →
    Lands I env f bf loop? out b' c n (some (.continued σ s))
  | halted {o} : I.Halts (bf.graph env f) c o → o ≠ .stuck →
    Lands I env f bf loop? out b' c n (some (.halted o))

namespace Lands

variable {loop? : Option LoopFrame} {out out' : Option Label} {b b' : Builder} {c c₁ : Config V S}
  {n m : Nat} {flow : Option (Flow V S)}

theorem of_leaps (h : Lands I env f bf loop? out b c₁ n flow)
    (hl : I.Leaps (bf.graph env f) c c₁) : Lands I env f bf loop? out b c (n + 1) flow := by
  cases h with
  | running h => exact .running (hl.run_none h)
  | next hout hσ h => exact .next hout hσ (hl.reaches.trans h)
  | broke hf hσ h => exact .broke hf hσ (hl.reaches.trans h)
  | continued hf hσ h => exact .continued hf hσ (hl.reaches.trans h)
  | halted h ho => exact .halted (hl.reaches.halts h) ho

theorem of_reaches (h : Lands I env f bf loop? out b c₁ n flow)
    (hr : I.Reaches (bf.graph env f) c c₁) : Lands I env f bf loop? out b c n flow := by
  cases h with
  | running h => exact .running (hr.run_none h)
  | next hout hσ h => exact .next hout hσ (hr.trans h)
  | broke hf hσ h => exact .broke hf hσ (hr.trans h)
  | continued hf hσ h => exact .continued hf hσ (hr.trans h)
  | halted h ho => exact .halted (hr.halts h) ho

theorem onward (h : Lands I env f bf loop? out b c n flow)
    (hon : ∀ l ρ s, out = some l → ∃ l', out' = some l' ∧
      I.Reaches (bf.graph env f) ⟨l, b.offset l, ρ, s⟩ ⟨l', b'.offset l', ρ, s⟩) :
    Lands I env f bf loop? out' b' c n flow := by
  cases h with
  | running h => exact .running h
  | next hout hσ h =>
    obtain ⟨l', hout', hr⟩ := hon _ _ _ hout
    exact .next hout' hσ (h.trans hr)
  | broke hf hσ h => exact .broke hf hσ h
  | continued hf hσ h => exact .continued hf hσ h
  | halted h ho => exact .halted h ho

theorem andThen {k : (Symbol → V) → S → Option (Flow V S)}
    (h : Lands I env f bf loop? out b c n flow)
    (hk : ∀ l σ ρ s, out = some l → Matches I bf σ ρ →
      Lands I env f bf loop? out' b' ⟨l, b.offset l, ρ, s⟩ n (k σ s)) :
    Lands I env f bf loop? out' b' c n (Flow.andThen flow k) := by
  cases h with
  | running h => exact .running h
  | next hout hσ h => exact (hk _ _ _ _ hout hσ).of_reaches h
  | broke hf hσ h => exact .broke hf hσ h
  | continued hf hσ h => exact .continued hf hσ h
  | halted h ho => exact .halted h ho

theorem loop {cond : (Symbol → V) → S → V × S} {body : (Symbol → V) → S → Option (Flow V S)}
    {head exit : Label} {N : Nat} (enter : Label) (out : Option Label) (b : Builder)
    (hcond : ∀ σ ρ s, Matches I bf σ ρ → ∃ ρ', Matches I bf σ ρ' ∧
      I.Leaps (bf.graph env f) ⟨head, 0, ρ, s⟩
        ⟨if I.truth (cond σ s).1 then enter else exit, 0, ρ', (cond σ s).2⟩)
    (hbody : ∀ σ ρ s, Matches I bf σ ρ →
      Lands I env f bf (some ⟨exit, head⟩) out b ⟨enter, 0, ρ, s⟩ N (body σ s))
    (hback : ∀ l ρ s, out = some l →
      I.Reaches (bf.graph env f) ⟨l, b.offset l, ρ, s⟩ ⟨head, 0, ρ, s⟩)
    (hexit : b'.offset exit = 0) (hn : n ≤ N) {σ : Symbol → V} {ρ : Slot → V} (hσ : Matches I bf σ ρ)
    (s : S) :
    Lands I env f bf loop? (some exit) b' ⟨head, 0, ρ, s⟩ n (I.loop cond body n σ s) := by
  induction n generalizing σ ρ s with
  | zero => exact .running rfl
  | succ n ih =>
    obtain ⟨ρ₁, hσ₁, hleap⟩ := hcond σ ρ s hσ
    rw [Interp.loop]
    cases htruth : I.truth (cond σ s).1 with
    | true =>
      simp only [htruth, if_true] at hleap ⊢
      have hturn := hbody σ ρ₁ (cond σ s).2 hσ₁
      generalize body σ (cond σ s).2 = turn at hturn
      cases hturn with
      | running h => exact .running (hleap.run_none (Interp.run_none h (Nat.le_of_succ_le hn)))
      | next hout hσ₂ h =>
        exact (ih (Nat.le_of_succ_le hn) hσ₂ _).of_leaps ((hleap.trans h).trans (hback _ _ _ hout))
      | broke hf hσ₂ h =>
        obtain rfl := Option.some.inj hf
        refine .next rfl hσ₂ ?_
        rw [hexit]
        exact hleap.reaches.trans h
      | continued hf hσ₂ h =>
        obtain rfl := Option.some.inj hf
        exact (ih (Nat.le_of_succ_le hn) hσ₂ _).of_leaps (hleap.trans h)
      | halted h ho => exact .halted (hleap.reaches.halts h) ho
    | false =>
      simp only [htruth] at hleap ⊢
      refine .next rfl hσ₁ ?_
      rw [hexit]
      exact hleap.reaches

end Lands

end Interp

section

variable {V : Type u} {S : Type v} {I : Interp V S} {env : Env} {f : FunctionDef} {bf : Builder}

theorem reaches_move {b : Builder} {l : Label} {dst source : Slot} {span : Span} {ρ : Slot → V} {s : S}
    (ho : b.IsOpen l) (hg : (b.append l dst (.move source) span).Grows bf) :
    I.Reaches (bf.graph env f) ⟨l, b.offset l, ρ, s⟩
      ⟨l, (b.append l dst (.move source) span).offset l, Function.update ρ dst (ρ source), s⟩ := by
  obtain ⟨block, hb, hi⟩ := Grows.instruction hg ho
  rw [offset_append ho]
  exact Reaches.instruction (g := bf.graph env f) hb hi rfl

theorem reaches_store {b : Builder} {l : Label} {dst key source : Slot} {how : Access} {span : Span}
    {ρ : Slot → V} {s : S} (ho : b.IsOpen l) (hg : (b.append l dst (.access how key source) span).Grows bf)
    (hstore : how.isStore = true) :
    I.Reaches (bf.graph env f) ⟨l, b.offset l, ρ, s⟩
      ⟨l, (b.append l dst (.access how key source) span).offset l, ρ,
        I.store how s (ρ dst) (ρ key) (ρ source)⟩ := by
  obtain ⟨block, hb, hi⟩ := Grows.instruction hg ho
  rw [offset_append ho]
  refine Reaches.instruction (g := bf.graph env f) hb hi ?_
  simp [Interp.instruction, Operation.isStore, hstore]

theorem leaps_advance {b : Builder} {l : Label} {t : Transfer} {span : Span} {ρ : Slot → V} {s s' : S}
    (ho : b.IsOpen l) (hg : (b.grow.close l none t span).Grows bf)
    (hx : I.terminator 0 ⟨none, t, b.scopes.current, span⟩ ρ s = .jump b.nextLabel ρ s') :
    I.Leaps (bf.graph env f) ⟨l, b.offset l, ρ, s⟩
      ⟨b.nextLabel, (b.grow.close l none t span).offset b.nextLabel, ρ, s'⟩ := by
  have hleap : I.Leaps (bf.graph env f) _ _ := leaps_close (isOpen_grow.mpr (.inl ho)) hg hx
  simpa [offset_nextLabel] using hleap

variable {σ : Symbol → V} {ρ : Slot → V} {keys : List Symbol}

theorem leaps_branch {b : Builder} {l t e : Label} {cond : Slot} {span : Span} {v : V} {s : S}
    {i : Nat} (ho : b.IsOpen l) (hg : (b.close l none (.branch cond t e) span).Grows bf)
    (hi : b.offset l = i) (hv : ρ cond = v) :
    I.Leaps (bf.graph env f) ⟨l, i, ρ, s⟩ ⟨if I.truth v then t else e, 0, ρ, s⟩ := by
  subst hi hv
  exact leaps_close ho hg rfl

theorem StoreRun.simulates {target : Expr} {value : Placed} {span : Span} {b b' : Builder}
    {last : Label} (h : StoreRun env target value span b last b') (hbf : bf.Unambiguous) (hb : b.Sound)
    (ho : b.IsOpen value.block) (hv : value.slot < b.nextSlot) (hs : Sealed b b' bf)
    (hk : b.keys = keys) (hσ : Matches I bf σ ρ) (s : S) :
    ∃ ρ', Matches I bf (I.assign env keys σ target (ρ value.slot) s).1 ρ' ∧
      I.Reaches (bf.graph env f) ⟨value.block, b.offset value.block, ρ, s⟩
        ⟨last, b'.offset last, ρ', (I.assign env keys σ target (ρ value.slot) s).2⟩ := by
  have hg := hs.grows
  cases h with
  | @«variable» _ _ symbol _ _ _ slot hslot =>
    have hg₀ := ((Grows.refl b).append ho).trans hg
    exact ⟨_, hσ.update hbf.toSound _ (hbf.lookup? hg₀ hslot), reaches_move ho hg⟩
  | @index _ container key _ _ _ base b₁ k b₂ hbase hkey =>
    have e₁ := hbase.evaluation hb ho
    have e₂ := hkey.evaluation (e₁.sound hb) e₁.open_last
    have hs₂ : Sealed b b₂ bf :=
      hs.before ((Frame.refl b₂).append e₂.open_last (.inl (Access.storeInto_isStore _)))
    obtain ⟨ρ₁, ev₁, hx⟩ := hbase.simulates (f := f) hbf hb ho (hs₂.before e₂.frame) hk hσ s
    have hσ₁ := hσ.of_evaluates hbf.toSound ev₁
    obtain ⟨ρ₂, ev₂, hy⟩ := hkey.simulates (f := f) hbf (e₁.sound hb) e₁.open_last
      (hs₂.after e₁.nextSlot_le) (e₁.keys.trans hk) hσ₁ (I.expr env keys σ container s).2
    have hx₂ := (ev₂.kept e₁.slot_lt).trans hx
    have hv₂ := (ev₁.trans ev₂ e₁.nextSlot_le).kept hv
    refine ⟨ρ₂, hσ₁.of_evaluates hbf.toSound ev₂, (ev₁.reached.trans ev₂.reached).trans ?_⟩
    simp only [assign, ← hx₂, ← hy, ← hv₂]
    exact reaches_store e₂.open_last hg (Access.storeInto_isStore container)
  | @field _ base _ _ _ _ r b₁ hbase =>
    have e₁ := hbase.evaluation hb ho
    have hs₂ := hs.before ((Frame.refl _).append e₁.load.open_last (.inl rfl))
    obtain ⟨ρ₁, ev₁, hx⟩ := hbase.simulates (f := f) hbf hb ho (hs₂.compute e₁.open_last) hk hσ s
    have hσ₁ := hσ.of_evaluates hbf.toSound ev₁
    obtain ⟨ρ₂, ev₂, hn⟩ := Evaluates.load I env f ρ₁ (I.expr env keys σ base s).2
      e₁.open_last hs₂.grows
    have hx₂ := (ev₂.kept e₁.slot_lt).trans hx
    have hv₂ := (ev₁.trans ev₂ e₁.nextSlot_le).kept hv
    refine ⟨ρ₂, hσ₁.of_evaluates hbf.toSound ev₂, (ev₁.reached.trans ev₂.reached).trans ?_⟩
    simp only [assign, fieldName, ← hx₂, ← hn, ← hv₂]
    exact reaches_store e₁.load.open_last hg rfl
  | wildcard =>
    obtain ⟨ρ₁, ev₁, -⟩ := (Evaluates.refl ⟨b, value.block, ρ, s⟩).computed (I := I) (f := f)
      (Nat.le_refl _) ho hg rfl rfl rfl
    exact ⟨ρ₁, hσ.of_evaluates hbf.toSound ev₁, ev₁.reached⟩

theorem ExprRun.branches {cond : Expr} {here t e : Label} {b b₁ b₂ : Builder} {c : Placed}
    {span : Span} (h : ExprRun env cond here b c b₁) (hbf : bf.Unambiguous) (hb : b.Sound)
    (ho : b.IsOpen here) (hf : b₁.Frame bf) (hk : b.keys = keys) (hopen : b₂.IsOpen c.block)
    (hg : (b₂.close c.block none (.branch c.slot t e) span).Grows bf)
    (hkept : b₂.offset c.block = b₁.offset c.block) (hσ : Matches I bf σ ρ) (s : S) :
    ∃ ρ', Matches I bf σ ρ' ∧ I.Leaps (bf.graph env f) ⟨here, b.offset here, ρ, s⟩
      ⟨if I.truth (I.expr env keys σ cond s).1 then t else e, 0, ρ', (I.expr env keys σ cond s).2⟩ := by
  obtain ⟨ρ₁, ev₁, hx⟩ := h.simulates (f := f) hbf hb ho hf.sealed hk hσ s
  exact ⟨ρ₁, hσ.of_evaluates hbf.toSound ev₁,
    ev₁.reached.leaps (leaps_branch hopen hg hkept hx)⟩

theorem ExprRun.halts {value : Expr} {here : Label} {b b' : Builder} {r : Placed} {span : Span}
    (h : ExprRun env value here b r b') (hbf : bf.Unambiguous) (hb : b.Sound) (ho : b.IsOpen here)
    (hf : (b'.result r span).Frame bf) (hk : b.keys = keys) (hσ : Matches I bf σ ρ) (s : S) :
    I.Halts (bf.graph env f) ⟨here, b.offset here, ρ, s⟩
      (.returned (I.expr env keys σ value s).1 (I.expr env keys σ value s).2) := by
  have e₁ := h.evaluation hb ho
  have ho' : (b'.append r.block 0 (.move r.slot) span).IsOpen r.block := isOpen_append.mpr e₁.open_last
  have hclose : (b'.append r.block 0 (.move r.slot) span).Frame (b'.result r span) :=
    (Frame.refl _).close ho'
  have hmove : b'.Frame (b'.append r.block 0 (.move r.slot) span) :=
    (Frame.refl b').append e₁.open_last (.inr (e₁.sound hb).result_not_isTemporary)
  obtain ⟨ρ₁, ev₁, hx⟩ := h.simulates (f := f) hbf hb ho (hmove.trans (hclose.trans hf)).sealed hk hσ s
  rw [← hx]
  refine (ev₁.reached.trans (reaches_move e₁.open_last (hclose.trans hf).grows)).halts ?_
  refine halts_close ho' hf.grows ?_
  simp [Interp.terminator]

end

section

variable {V : Type u} {S : Type v} {I : Interp V S} {env : Env} {f : FunctionDef} {bf : Builder}

mutual

theorem StmtRun.simulates {st : Stmt} {here : Label} {b b' : Builder} {out : Option Label}
    {loop? : Option LoopFrame} {keys : List Symbol} {σ : Symbol → V} {ρ : Slot → V}
    (h : StmtRun env st here b out b') (hbf : bf.Unambiguous) (hb : b.Sound) (ho : b.IsOpen here)
    (hf : b'.Frame bf) (hk : b.keys = keys) (hl : b.loop? = loop?) (hσ : Matches I bf σ ρ) (s : S)
    (n : Nat) :
    Lands I env f bf loop? out b' ⟨here, b.offset here, ρ, s⟩ n (I.stmt env n keys st σ s) := by
  have hr : Region b here b (· = here) := .refl ho
  have hg := hf.grows
  cases h with
  | expr hv =>
    obtain ⟨ρ₁, ev₁, -⟩ := hv.simulates (f := f) hbf hb ho hf.sealed hk hσ s
    rw [stmt]
    exact .next rfl (hσ.of_evaluates hbf.toSound ev₁) ev₁.reached
  | block hbody =>
    rw [stmt]
    exact hbody.simulates hbf hb ho hf hk hl hσ s n
  | @ifThen span cond body _ _ c b₁ thenEnd b₂ hc hbody =>
    have h₁ := hc.evaluation hb ho
    have hb₁ := h₁.toRegion.grow.sound hb
    have ho₁ := h₁.toRegion.grow.isOpen (.inr rfl)
    have h₂ := hbody.region hb₁ ho₁
    have hdone := h₁.thenDone span h₂
    have hopen : b₂.grow.IsOpen c.block := isOpen_grow.mpr (.inl (h₁.cond_open h₂))
    have hf₃ := ((Frame.refl _).gotoFrom fun m hm => hdone.isOpen (.inl hm)).trans hf
    have hf₂ := ((Frame.refl b₂).grow.close hopen).trans hf₃
    have hf₁ := ((Frame.refl b₁).grow.trans h₂.frame).trans hf₂
    obtain ⟨ρ₁, hσ₁, hbranch⟩ := hc.branches (f := f) hbf hb ho hf₁ hk hopen hf₃.grows
      (by simpa using h₁.cond_offset h₂) hσ s
    have hend := offset_nextLabel (b := b₂)
    simp only [stmt]
    cases htruth : I.truth (I.expr env keys σ cond s).1 with
    | true =>
      simp only [htruth, if_true] at hbranch ⊢
      have hbody' := hbody.simulates hbf hb₁ ho₁ hf₂ (h₁.keys.trans hk)
        ((congrArg List.head? h₁.loops).trans hl) hσ₁ (I.expr env keys σ cond s).2 n
      rw [offset_grow, offset_nextLabel] at hbody'
      refine (hbody'.of_reaches hbranch.reaches).onward fun l ρ s hout => ⟨_, rfl, ?_⟩
      subst hout
      simpa [hend] using (leaps_goto (hdone.isOpen (.inl rfl)) hg).reaches
    | false =>
      simp only [htruth] at hbranch ⊢
      refine .next rfl hσ₁ ?_
      simpa [hend] using hbranch.reaches
  | @ifElse span cond body otherwise _ _ c b₁ thenEnd b₂ elseEnd b₃ hc hbody helse =>
    have h₁ := hc.evaluation hb ho
    have hb₁ := h₁.toRegion.grow.sound hb
    have ho₁ := h₁.toRegion.grow.isOpen (.inr rfl)
    have h₂ := hbody.region hb₁ ho₁
    have hthen := h₁.thenDone span h₂
    have hb₂ := hthen.sound hb
    have ho₂ := hthen.isOpen (.inr rfl)
    have h₃ := helse.region hb₂ ho₂
    have helseDone := h₁.elseDone h₂ h₃
    have hopen : b₂.grow.IsOpen c.block := isOpen_grow.mpr (.inl (h₁.cond_open h₂))
    have hopen₃ := fun m (hm : elseEnd = some m) => isOpen_grow.mpr (.inl (h₃.isOpen hm))
    have hf₄ := ((Frame.refl _).gotoFrom fun m hm => helseDone.isOpen (.inl hm)).trans hf
    have hf₃ := ((Frame.refl b₃).grow.gotoFrom hopen₃).trans hf₄
    have hf₂ := ((Frame.refl b₂).grow.close hopen).trans (h₃.frame.trans hf₃)
    have hf₁ := ((Frame.refl b₁).grow.trans h₂.frame).trans hf₂
    obtain ⟨ρ₁, hσ₁, hbranch⟩ := hc.branches (f := f) hbf hb ho hf₁ hk hopen
      (h₃.frame.trans hf₃).grows (by simpa using h₁.cond_offset h₂) hσ s
    have hk₁ := h₁.keys.trans hk
    have hend := offset_nextLabel (b := b₃)
    simp only [stmt]
    cases htruth : I.truth (I.expr env keys σ cond s).1 with
    | true =>
      simp only [htruth, if_true] at hbranch ⊢
      have hbody' := hbody.simulates hbf hb₁ ho₁ hf₂ hk₁ ((congrArg List.head? h₁.loops).trans hl) hσ₁
        (I.expr env keys σ cond s).2 n
      rw [offset_grow, offset_nextLabel] at hbody'
      refine (hbody'.of_reaches hbranch.reaches).onward fun l ρ s hout => ⟨_, rfl, ?_⟩
      subst hout
      have hkept := offset_congr (h₃.keeps l (by simpa using Nat.lt_succ_of_lt (h₂.lt rfl))
        (Nat.ne_of_lt (h₂.lt rfl)))
      simpa [hend, hkept] using (leaps_goto (helseDone.isOpen (.inl rfl)) hg).reaches
    | false =>
      simp only [htruth] at hbranch ⊢
      have helse' := helse.simulates hbf hb₂ ho₂ hf₃ ((hbody.keys hb₁ ho₁).trans (congrArg _ hk₁))
        ((congrArg List.head? hthen.loops).trans hl) hσ₁ (I.expr env keys σ cond s).2 n
      rw [offset_close, offset_grow, offset_nextLabel] at helse'
      refine (helse'.of_reaches hbranch.reaches).onward fun l ρ s hout => ⟨_, rfl, ?_⟩
      subst hout
      simpa [hend] using (leaps_goto (hopen₃ l rfl) hf₄.grows).reaches
  | @whileLoop span cond body _ _ c b₁ bodyEnd b₂ hc hbody =>
    have h₀ := hr.advance (.goto b.nextLabel) span rfl rfl
    have hb₀ := h₀.sound hb
    have h₁ := hc.evaluation hb₀ (h₀.isOpen rfl)
    have h₂ := h₀.enterLoop h₁ span
    have hb₂ : (b₁.enterLoop b.nextLabel c span).Sound := h₀.enterLoop_sound h₁ hb
    have h₃ := hbody.region hb₂ (h₂.isOpen (.inl rfl))
    have hopen : b₁.grow.grow.IsOpen c.block := by simp [h₁.open_last]
    have hf₄ := (Frame.refl (b₂.gotoFrom bodyEnd b.nextLabel span)).dropLoop.trans hf
    have hf₃ := ((Frame.refl b₂).gotoFrom fun m hm => h₃.isOpen hm).trans hf₄
    have hf₂ := ((Frame.refl _).pushLoop ⟨b₁.nextLabel + 1, b.nextLabel⟩).trans (h₃.frame.trans hf₃)
    have hf₁ := ((Frame.refl b₁).grow.grow.close hopen).trans hf₂
    have hhead : (b.grow.close here none (.goto b.nextLabel) span).offset b.nextLabel = 0 := by
      rw [offset_close, offset_grow, offset_nextLabel]
    have henter : I.Leaps (bf.graph env f) ⟨here, b.offset here, ρ, s⟩ _ :=
      leaps_advance ho (h₁.frame.trans hf₁).grows rfl
    rw [hhead] at henter
    rw [stmt]
    refine (Lands.loop b₁.nextLabel bodyEnd b₂ ?_ ?_ ?_ ?_ (Nat.le_refl n) hσ s).of_reaches henter.reaches
    · intro σ ρ s hσ
      have hcond := hc.branches (f := f) hbf hb₀ (h₀.isOpen rfl) hf₁ hk hopen hf₂.grows (by simp) hσ s
      rwa [hhead] at hcond
    · intro σ ρ s hσ
      have hbody' := hbody.simulates hbf hb₂ (h₂.isOpen (.inl rfl)) hf₃ (h₁.keys.trans hk) rfl
        hσ s n
      rwa [offset_enterLoop, offset_nextLabel] at hbody'
    · intro l ρ s hout
      subst hout
      exact (leaps_goto (h₃.isOpen rfl) hf₄.grows).reaches
    · have hkept := h₃.keeps (b₁.nextLabel + 1) (by simp [Builder.enterLoop]) (Nat.succ_ne_self _)
      rw [offset_dropLoop, offset_gotoFrom, offset_congr hkept, offset_enterLoop]
      exact offset_of_le (Nat.le_succ _)
  | ret =>
    rw [stmt, ← hσ.result]
    exact .halted (halts_close ho hg rfl) nofun
  | retValue hv =>
    rw [stmt]
    exact .halted (hv.halts hbf hb ho hf hk hσ s) nofun
  | breakLoop hframe =>
    rw [stmt]
    exact .broke (hl.symm.trans hframe) hσ (leaps_goto ho hg).reaches
  | continueLoop hframe =>
    rw [stmt]
    exact .continued (hl.symm.trans hframe) hσ (leaps_goto ho hg).reaches
  | declare hi =>
    simp only [stmt, hi]
    exact .next rfl hσ (.refl _)
  | @define span var init _ _ r b₁ hi hv =>
    have e₁ := hv.evaluation hb ho
    have hbound : b₁.Frame (b₁.addBound var.name.name var.ty .declared (env.refKey var.symbol)) :=
      (Frame.refl b₁).addBound (.inr rfl)
    have hf₁ := (hbound.append e₁.open_last (.inr fun ht => Nat.lt_irrefl _ ht.lt)).trans hf
    have hslot : bf.locals.lookup? (env.refKey var.symbol) = some b₁.nextSlot :=
      hbf.lookup? hg (by simp [Locals.lookup?, Locals.bind])
    obtain ⟨ρ₁, ev₁, hx⟩ := hv.simulates (f := f) hbf hb ho hf₁.sealed hk hσ s
    have hσ₁ := hσ.of_evaluates hbf.toSound ev₁
    simp only [stmt, hi, ← hx]
    refine .next rfl (hσ₁.update hbf.toSound _ hslot) (ev₁.reached.trans ?_)
    exact reaches_move (b := b₁.addBound var.name.name var.ty .declared (env.refKey var.symbol))
      e₁.open_last hg
  | @assign span target value _ _ r b₁ _ _ hv hstore =>
    have e₁ := hv.evaluation hb ho
    have e₂ := hstore.evaluation (e₁.sound hb) e₁.open_last e₁.slot_lt
    obtain ⟨ρ₁, ev₁, hx⟩ := hv.simulates (f := f) hbf hb ho (e₂.frame.trans hf).sealed hk hσ s
    obtain ⟨ρ₂, hσ₂, hr₂⟩ := hstore.simulates (f := f) hbf (e₁.sound hb) e₁.open_last e₁.slot_lt
      hf.sealed (e₁.keys.trans hk) (hσ.of_evaluates hbf.toSound ev₁) (I.expr env keys σ value s).2
    simp only [stmt, ← hx]
    exact .next rfl hσ₂ (ev₁.reached.trans hr₂)
  | @update span op target value ty _ _ r b₁ _ _ hv hstore =>
    have e₁ := hv.evaluation hb ho
    have e₂ := hstore.evaluation (e₁.sound hb) e₁.open_last e₁.slot_lt
    obtain ⟨ρ₁, ev₁, hx⟩ := hv.simulates (f := f) hbf hb ho (e₂.frame.trans hf).sealed hk hσ s
    obtain ⟨ρ₂, hσ₂, hr₂⟩ := hstore.simulates (f := f) hbf (e₁.sound hb) e₁.open_last e₁.slot_lt
      hf.sealed (e₁.keys.trans hk) (hσ.of_evaluates hbf.toSound ev₁)
      (I.expr env keys σ (.binary ⟨ty, span⟩ op target value) s).2
    rw [hx] at hσ₂ hr₂
    exact .next rfl hσ₂ (ev₁.reached.trans hr₂)
  | panic hv =>
    have e₁ := hv.evaluation hb ho
    have hf₁ := ((Frame.refl _).close e₁.open_last).trans hf
    obtain ⟨ρ₁, ev₁, hx⟩ := hv.simulates (f := f) hbf hb ho hf₁.sealed hk hσ s
    simp only [stmt, ← hx]
    exact .halted (ev₁.reached.halts (halts_close e₁.open_last hg rfl)) nofun
  | @lockLeft span body _ _ _ hbody =>
    have h₀ := hr.advance (.lock b.nextLabel) span rfl rfl
    have h₁ := hbody.region (h₀.sound hb) (h₀.isOpen rfl)
    have hbody' := hbody.simulates hbf (h₀.sound hb) (h₀.isOpen rfl) hf hk hl hσ (I.lock s) n
    have hlock : I.Leaps (bf.graph env f) ⟨here, b.offset here, ρ, s⟩ _ :=
      leaps_advance ho (h₁.frame.trans hf).grows rfl
    rw [stmt]
    refine (hbody'.of_reaches hlock.reaches).andThen fun l σ ρ s hout => ?_
    cases hout
  | @lock span body _ _ last b₁ hbody =>
    have h₀ := hr.advance (.lock b.nextLabel) span rfl rfl
    have h₁ := hbody.region (h₀.sound hb) (h₀.isOpen rfl)
    have hf₁ := ((Frame.refl b₁).grow.close (isOpen_grow.mpr (.inl (h₁.isOpen rfl)))).trans hf
    have hbody' := hbody.simulates hbf (h₀.sound hb) (h₀.isOpen rfl) hf₁ hk hl hσ (I.lock s) n
    have hlock : I.Leaps (bf.graph env f) ⟨here, b.offset here, ρ, s⟩ _ :=
      leaps_advance ho (h₁.frame.trans hf₁).grows rfl
    rw [stmt]
    refine (hbody'.of_reaches hlock.reaches).andThen fun l σ ρ s hout hσ => ?_
    obtain rfl := Option.some.inj hout
    exact .next rfl hσ (leaps_advance (h₁.isOpen rfl) hg rfl).reaches

theorem BlockRun.simulates {body : Block} {here : Label} {b b' : Builder} {out : Option Label}
    {loop? : Option LoopFrame} {keys : List Symbol} {σ : Symbol → V} {ρ : Slot → V}
    (h : BlockRun env body here b out b') (hbf : bf.Unambiguous) (hb : b.Sound) (ho : b.IsOpen here)
    (hf : b'.Frame bf) (hk : b.keys = keys) (hl : b.loop? = loop?) (hσ : Matches I bf σ ρ) (s : S)
    (n : Nat) :
    Lands I env f bf loop? out b' ⟨here, b.offset here, ρ, s⟩ n (I.block env n keys body σ s) := by
  match h with
  | @BlockRun.mk _ stmts _ _ _ _ b₁ hstmts =>
    have hf₁ := (Frame.refl b₁).exitScope.trans hf
    rw [Interp.block]
    exact (hstmts.simulates hbf ((Step.enterScope b).sound hb) ho hf₁ hk hl hσ s n).onward
      fun l _ _ hout => ⟨l, hout, .refl _⟩

theorem StmtsRun.simulates {stmts : List Stmt} {here : Label} {b b' : Builder} {out : Option Label}
    {loop? : Option LoopFrame} {keys : List Symbol} {σ : Symbol → V} {ρ : Slot → V}
    (h : StmtsRun env stmts here b out b') (hbf : bf.Unambiguous) (hb : b.Sound) (ho : b.IsOpen here)
    (hf : b'.Frame bf) (hk : b.keys = keys) (hl : b.loop? = loop?) (hσ : Matches I bf σ ρ) (s : S)
    (n : Nat) :
    Lands I env f bf loop? out b' ⟨here, b.offset here, ρ, s⟩ n (I.stmts env n keys stmts σ s) := by
  match h with
  | .nil =>
    rw [Interp.stmts]
    exact .next rfl hσ (.refl _)
  | .next hs hstmts =>
    have h₁ := hs.region hb ho
    have h₂ := hstmts.region (h₁.sound hb) (h₁.isOpen rfl)
    rw [Interp.stmts]
    refine (hs.simulates hbf hb ho (h₂.frame.trans hf) hk hl hσ s n).andThen fun l σ ρ s hout hσ => ?_
    obtain rfl := Option.some.inj hout
    have hk₁ := (hs.keys hb ho).trans (congrArg _ hk)
    have hl₁ := (congrArg List.head? h₁.loops).trans hl
    exact hstmts.simulates hbf (h₁.sound hb) (h₁.isOpen rfl) hf hk₁ hl₁ hσ s n
  | .leave hs =>
    rw [Interp.stmts]
    exact (hs.simulates hbf hb ho hf hk hl hσ s n).andThen fun l σ ρ s hout => by cases hout

end

end

theorem BodyRun.keys {env : Env} {stem : String} {f : FunctionDef} {b' : Builder}
    (h : BodyRun env f.body (env.enter stem f) b') : b'.keys = f.declares env.refKey := by
  have hb : (env.enter stem f).grow.Sound := (Step.grow _).sound (env.enter_sound stem f)
  have ho : (env.enter stem f).grow.IsOpen (env.enter stem f).nextLabel := isOpen_grow.mpr (.inr rfl)
  have hk : (env.enter stem f).grow.keys = (f.paramKeys env.refKey).reverse := env.enter_keys stem f
  unfold FunctionDef.declares
  generalize f.body = body at h
  cases h with
  | leaves h => rw [h.keys hb ho, hk]
  | fallsOff h => exact (h.keys hb ho).trans (congrArg _ hk)
  | expr h => exact (h.evaluation hb ho).keys.trans hk

namespace Interp

variable {V : Type u} {S : Type v} {I : Interp V S}

section Bind

variable {α : Type} [DecidableEq α] {xs : List α} {x : α} {vs : List V}

theorem bind_of_not_mem (h : x ∉ xs) : I.bind xs vs x = I.unset := by
  induction xs generalizing vs with
  | nil => rfl
  | cons y ys ih =>
    rw [List.mem_cons, not_or] at h
    simp [bind, h.1, ih h.2]

theorem bind_getElem? {i : Nat} (hnd : xs.Nodup) (h : xs[i]? = some x) :
    I.bind xs vs x = vs.getD i I.unset := by
  induction xs generalizing i vs with
  | nil => simp at h
  | cons y ys ih =>
    rw [List.nodup_cons] at hnd
    cases i with
    | zero =>
      obtain rfl : y = x := by simpa using h
      cases vs <;> simp [bind]
    | succ i =>
      have hx : ys[i]? = some x := by simpa using h
      have hne : x ≠ y := by
        rintro rfl
        exact hnd.1 (List.mem_of_getElem? hx)
      cases vs <;> simp [bind, hne, ih hnd.2 hx]

end Bind

theorem Matches.initial {env : Env} {stem : String} {f : FunctionDef} {bf : Builder}
    (hbf : bf.Unambiguous) (hg : (env.enter stem f).Grows bf) (args : List V) :
    Matches I bf (I.bind (f.paramKeys env.refKey) args) (I.bind (List.range' 1 f.params.length) args) := by
  have hparam : ∀ i p, f.params[i]? = some p → (env.refKey p.symbol, 1 + i) ∈ bf.locals.bindings :=
    fun i p hp => hg.bindings.subset (env.enter_mem stem f hp)
  have hnd : (f.paramKeys env.refKey).Nodup := by
    have hkeys : (f.paramKeys env.refKey).reverse <:+ bf.keys :=
      env.enter_keys stem f ▸ hg.bindings.map _
    exact List.nodup_reverse.mp (hbf.nodup.sublist hkeys.sublist)
  have hnot : ∀ s, ¬ (∃ v, bf.locals.vars[s]? = some v ∧ v.kind = .argument) →
      I.bind (List.range' 1 f.params.length) args s = I.unset := by
    refine fun s hs => bind_of_not_mem fun hmem => hs ?_
    obtain ⟨v, hv, hk⟩ := env.enter_isArgument stem f hmem
    exact ⟨v, hg.var hv, hk⟩
  refine ⟨fun key s hs => ?_, fun s hs _ => hnot s ?_, hnot 0 ?_⟩
  · have hmem := Locals.lookup?_mem hs
    by_cases hkey : key ∈ f.paramKeys env.refKey
    · obtain ⟨i, hi⟩ := List.getElem?_of_mem hkey
      obtain ⟨p, hp, rfl⟩ : ∃ p, f.params[i]? = some p ∧ env.refKey p.symbol = key := by
        simpa [FunctionDef.paramKeys] using hi
      have heq := List.inj_on_of_nodup_map hbf.nodup hmem (hparam i p hp) rfl
      obtain ⟨-, rfl⟩ := Prod.mk.inj heq
      have hlt := (List.getElem?_eq_some_iff.mp hp).1
      rw [bind_getElem? (i := i) List.nodup_range' (by simp [hlt]), bind_getElem? hnd hi]
    · rw [bind_of_not_mem hkey]
      refine bind_of_not_mem fun hs' => hkey ?_
      obtain ⟨i, hi, rfl⟩ := List.mem_range'.mp hs'
      have hp := List.getElem?_eq_getElem hi
      have heq := List.inj_on_of_nodup_map hbf.distinct hmem (hparam i _ hp) (by simp)
      obtain ⟨rfl, -⟩ := Prod.mk.inj heq
      exact List.mem_map_of_mem (List.mem_of_getElem? hp)
  · rintro ⟨v, hv, hk⟩
    obtain ⟨v', hv', hk'⟩ := hs
    grind
  · rintro ⟨v, hv, hk⟩
    obtain ⟨v', hv', hk'⟩ := hbf.result
    grind

/-- As the function ends, its graph ends, and it is never stuck; while the function has no answer, its
graph has none. -/
inductive Follows (I : Interp V S) (g : Graph) (c : Config V S) (n : Nat) :
    Option (Outcome V S) → Prop
  | running : I.run g n c = none → Follows I g c n none
  | ended {o} : I.Halts g c o → o ≠ .stuck → Follows I g c n (some o)

theorem Halts.eq {g : Graph} {c : Config V S} {n : Nat} {o o' : Outcome V S} (h : I.Halts g c o)
    (h' : I.run g n c = some o') : o = o' := by
  obtain ⟨m, hm⟩ := h
  have hn := run_mono h' (Nat.le_max_left n m)
  rw [run_mono hm (Nat.le_max_right n m)] at hn
  exact Option.some.inj hn

theorem Lands.follows {env : Env} {f : FunctionDef} {bf b' : Builder} {out : Option Label}
    {c : Config V S} {n : Nat} {flow : Option (Flow V S)}
    (h : Lands I env f bf none out b' c n flow)
    (hret : ∀ l ρ s, out = some l → ρ 0 = I.unset →
      I.Halts (bf.graph env f) ⟨l, b'.offset l, ρ, s⟩ (.returned I.unset s)) :
    Follows I (bf.graph env f) c n (flow.map (Flow.outcome I.unset)) := by
  cases h with
  | running h => exact .running h
  | next hout hσ h => exact .ended (h.halts (hret _ _ _ hout hσ.result)) nofun
  | broke hf => cases hf
  | continued hf => cases hf
  | halted h ho => exact .ended h ho

end Interp

open Interp

section

variable {V : Type u} {S : Type v} (I : Interp V S)

theorem FunctionRun.follows {env : Env} {stem : String} {f : FunctionDef} {g : Graph}
    (h : FunctionRun env stem f g) (hd : (f.declares env.refKey).Nodup) (n : Nat) (args : List V)
    (s : S) : Follows I g ⟨0, 0, I.bind g.params args, s⟩ n (I.function env f n args s) := by
  obtain ⟨bf, hrun, rfl⟩ := h
  have hb := env.enter_sound stem f
  have hb' : (env.enter stem f).grow.Sound := (Step.grow _).sound hb
  have hblocks := env.enter_blocks stem f
  have ho : (env.enter stem f).grow.IsOpen (env.enter stem f).nextLabel := isOpen_grow.mpr (.inr rfl)
  have hreg := hrun.region hb
  have hbf : bf.Unambiguous := ⟨hreg.sound hb', hrun.keys ▸ hd⟩
  have hg : (env.enter stem f).Grows bf := (Step.grow _).grows.trans hreg.steps.grows
  have hσ := Matches.initial (I := I) hbf hg args
  have hk : (env.enter stem f).grow.keys = (f.paramKeys env.refKey).reverse := env.enter_keys stem f
  have hl : (env.enter stem f).grow.loop? = none := env.enter_loop? stem f
  have hstart : (⟨0, 0, I.bind (List.range' 1 f.params.length) args, s⟩ : Config V S) =
      ⟨(env.enter stem f).nextLabel, (env.enter stem f).grow.offset (env.enter stem f).nextLabel,
        I.bind (List.range' 1 f.params.length) args, s⟩ := by
    rw [offset_grow, offset_nextLabel]
    simp [hblocks]
  show Follows I _ ⟨0, 0, I.bind (List.range' 1 f.params.length) args, s⟩ n _
  rw [hstart]
  generalize hbody : f.body = body at hrun
  cases hrun with
  | leaves h =>
    simp only [function, hbody]
    exact (h.simulates hbf hb' ho (.refl bf) hk hl hσ s n).follows fun l ρ s hout => by cases hout
  | @fallsOff body _ last b₁ h =>
    have hlast := (h.region hb' ho).isOpen rfl
    simp only [function, hbody]
    refine (h.simulates hbf hb' ho ((Frame.refl _).close hlast) hk hl hσ s n).follows
      fun l ρ s hout hρ => ?_
    obtain rfl := Option.some.inj hout
    rw [← hρ]
    exact halts_close hlast (.refl _) rfl
  | expr h =>
    simp only [function, hbody]
    exact .ended (h.halts hbf hb' ho (.refl _) hk hσ s) nofun

/-- A function whose parameters and definitions have different keys ends as its graph does, or neither
of them ends; the graph is never stuck. -/
theorem lowerFunction_preserves {env : Env} {stem : String} {f : FunctionDef} {g : Graph} {b : Builder}
    (h : lowerFunction env f { stem := stem } = .ok g b) (hd : (f.declares env.refKey).Nodup)
    (args : List V) (s : S) :
    (∀ o, (∃ n, I.function env f n args s = some o) ↔ ∃ n, I.graph g n args s = some o) ∧
      ∀ n, I.graph g n args s ≠ some .stuck := by
  have hfollows := fun n => (lowerFunction_run h).follows I hd n args s
  have hends : ∀ n o, I.graph g n args s = some o → I.function env f n args s = some o ∧ o ≠ .stuck := by
    intro n o hn
    have hf := hfollows n
    cases hsource : I.function env f n args s with
    | none =>
      rw [hsource] at hf
      cases hf with
      | running hnone => exact absurd (hnone.symm.trans hn) nofun
    | some o' =>
      rw [hsource] at hf
      cases hf with
      | ended hhalts ho => exact ⟨congrArg some (hhalts.eq hn), hhalts.eq hn ▸ ho⟩
  refine ⟨fun o => ⟨fun ⟨n, hn⟩ => ?_, fun ⟨n, hn⟩ => ⟨n, (hends n o hn).1⟩⟩,
    fun n hn => (hends n _ hn).2 rfl⟩
  have hf := hfollows n
  rw [hn] at hf
  cases hf with
  | ended hhalts => exact hhalts

end

def tally : Interp Int (List String) where
  unset := 0
  truth v := v != 0
  const value _ := match value with
    | .int n => n.toInt
    | _ => 0
  unary _ s x := (-x, s)
  binary op s x y := (match op with
    | .add => x + y
    | _ => x - y, s)
  cast _ s x := (x, s)
  test _ _ s x := (x, s)
  list _ s n _ := (n, s)
  mapping _ s _ := (0, s)
  load _ s _ x := (x, s)
  store _ s _ _ _ := s
  lock s := "lock" :: s
  unlock s := "unlock" :: s
  call name s _ := (0, name :: s)

def triangle : FunctionDef where
  name := ⟨"f", {}⟩
  params := [⟨⟨"n", {}⟩, ⟨0, 0⟩, none, {}⟩]
  body := .block (.mk [
    .define {} ⟨⟨"sum", {}⟩, ⟨0, 1⟩, none, some (.literal {} (.int 0))⟩,
    .whileLoop {} (.var {} ⟨"n", {}⟩ ⟨0, 0⟩) (.mk [.lock {} (.mk [
      .update {} .add (.var {} ⟨"sum", {}⟩ ⟨0, 1⟩) (.var {} ⟨"n", {}⟩ ⟨0, 0⟩) none,
      .update {} .sub (.var {} ⟨"n", {}⟩ ⟨0, 0⟩) (.literal {} (.int 1)) none] {})] {}),
    .ret {} (some (.ternary {} (.var {} ⟨"sum", {}⟩ ⟨0, 1⟩) (.var {} ⟨"sum", {}⟩ ⟨0, 1⟩)
      (.call {} none ⟨"f", {}⟩ [])))] {})

theorem triangle_preserves :
    (triangle.declares id).Nodup ∧
    ∃ g b, lowerFunction ⟨.anonymous, id, [], []⟩ triangle { stem := "bb" } = .ok g b ∧
      ∃ n, tally.graph g n [2] [] = some (.returned 3 ["unlock", "lock", "unlock", "lock"]) := by
  have hd : (triangle.declares id).Nodup := by decide
  obtain ⟨g, b, hg⟩ := @lowerFunction_of_check ⟨.anonymous, id, [], []⟩ triangle "bb" rfl
  exact ⟨hd, g, b, hg, ((lowerFunction_preserves tally hg hd [2] []).1 _).mp ⟨3, rfl⟩⟩

def redeclared : FunctionDef where
  name := ⟨"f", {}⟩
  params := [⟨⟨"x", {}⟩, ⟨0, 0⟩, none, {}⟩]
  body := .block (.mk [.define {} ⟨⟨"x", {}⟩, ⟨0, 0⟩, none, none⟩,
    .ret {} (some (.var {} ⟨"x", {}⟩ ⟨0, 0⟩))] {})

theorem redeclared_forgets :
    ∃ g b, lowerFunction ⟨.anonymous, id, [], []⟩ redeclared { stem := "bb" } = .ok g b ∧
      tally.function ⟨.anonymous, id, [], []⟩ redeclared 1 [5] [] = some (.returned 5 []) ∧
      ∀ n, tally.graph g n [5] [] ≠ some (.returned 5 []) := by
  refine ⟨_, _, rfl, rfl, fun n hn => ?_⟩
  have heq := Halts.eq (o := .returned 0 []) ⟨1, rfl⟩ hn
  cases heq

end FlowGraph

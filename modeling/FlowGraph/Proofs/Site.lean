import FlowGraph.Proofs.Function

/-!
The places of the source within a run of lowering. A site is a judgement of one of the runs; it
splits into the sites of its parts, and what holds of a site in its context comes down to its parts.
-/

namespace FlowGraph

open Builder

/-- A piece of the source, with the builder before and after it. -/
inductive Site where
  | expr (e : Expr) (here : Label) (b : Builder) (r : Placed) (b' : Builder)
  | args (es : List Expr) (here : Label) (b : Builder) (slots : List Slot) (last : Label) (b' : Builder)
  | fields (fs : List (Ident × Expr)) (here : Label) (b : Builder) (entries : List MapEntry)
    (last : Label) (b' : Builder)
  | store (target : Expr) (value : Placed) (span : Span) (b : Builder) (last : Label) (b' : Builder)
  | stmt (s : Stmt) (here : Label) (b : Builder) (out : Option Label) (b' : Builder)
  | block (body : Block) (here : Label) (b : Builder) (out : Option Label) (b' : Builder)
  | stmts (ss : List Stmt) (here : Label) (b : Builder) (out : Option Label) (b' : Builder)

namespace Site

def Run (env : Env) : Site → Prop
  | .expr e here b r b' => ExprRun env e here b r b'
  | .args es here b slots last b' => ArgsRun env es here b slots last b'
  | .fields fs here b entries last b' => FieldsRun env fs here b entries last b'
  | .store target value span b last b' => StoreRun env target value span b last b'
  | .stmt s here b out b' => StmtRun env s here b out b'
  | .block body here b out b' => BlockRun env body here b out b'
  | .stmts ss here b out b' => StmtsRun env ss here b out b'

def first : Site → Builder
  | .expr _ _ b _ _ | .args _ _ b _ _ _ | .fields _ _ b _ _ _ | .store _ _ _ b _ _ | .stmt _ _ b _ _
  | .block _ _ b _ _ | .stmts _ _ b _ _ => b

def last : Site → Builder
  | .expr _ _ _ _ b' | .args _ _ _ _ _ b' | .fields _ _ _ _ _ b' | .store _ _ _ _ _ b' | .stmt _ _ _ _ b'
  | .block _ _ _ _ b' | .stmts _ _ _ _ b' => b'

def here : Site → Label
  | .expr _ here _ _ _ | .args _ here _ _ _ _ | .fields _ here _ _ _ _ | .stmt _ here _ _ _
  | .block _ here _ _ _ | .stmts _ here _ _ _ => here
  | .store _ value _ _ _ _ => value.block

def out : Site → Option Label
  | .expr _ _ _ r _ => some r.block
  | .args _ _ _ _ last _ | .fields _ _ _ _ last _ | .store _ _ _ _ last _ => some last
  | .stmt _ _ _ out _ | .block _ _ _ out _ | .stmts _ _ _ out _ => out

def operand? : Site → Option Slot
  | .store _ value _ _ _ _ => some value.slot
  | _ => none

structure Ready (p : Site) : Prop where
  sound : p.first.Sound
  isOpen : p.first.IsOpen p.here
  operand : ∀ s ∈ p.operand?, s < p.first.nextSlot

theorem Run.region {env : Env} {p : Site} (h : p.Run env) (hp : p.Ready) :
    Region p.first p.here p.last fun l => p.out = some l := by
  obtain ⟨hb, ho, hs⟩ := hp
  cases p with
  | expr => exact (ExprRun.evaluation h hb ho).congr (by grind [out])
  | args => exact (ArgsRun.evaluation h hb ho).congr (by grind [out])
  | fields => exact (FieldsRun.evaluation h hb ho).congr (by grind [out])
  | store => exact (StoreRun.evaluation h hb ho (hs _ rfl)).congr (by grind [out])
  | stmt => exact StmtRun.region h hb ho
  | block => exact BlockRun.region h hb ho
  | stmts => exact StmtsRun.region h hb ho

end Site

/-- `Splits env p parts`: by one of the rules, `p` consists of `parts`. -/
inductive Splits (env : Env) : Site → List Site → Prop
  | literal {note value here b} :
    Splits env (.expr (.literal note value) here b ⟨b.nextSlot, here⟩
      (b.load here value note.ty note.span)) []
  | variable {note name symbol here b slot} :
    b.locals.lookup? (env.refKey symbol) = some slot →
    Splits env (.expr (.var note name symbol) here b ⟨slot, here⟩ b) []
  | constant {note name symbol here b c} :
    b.locals.lookup? (env.refKey symbol) = none → env.constant? (env.refKey symbol) = some c →
    Splits env (.expr (.var note name symbol) here b ⟨b.nextSlot, here⟩
      (b.load here c.value c.ty name.span)) []
  | binary {note op lhs rhs here b code left b₁ right b₂} :
    op.opcode? = some code →
    Splits env (.expr (.binary note op lhs rhs) here b ⟨b₂.nextSlot, right.block⟩
      (b₂.compute right.block note.ty (.binary code left.slot right.slot) note.span))
      [.expr lhs here b left b₁, .expr rhs left.block b₁ right b₂]
  | unary {note op operand here b code value b₁} :
    op.opcode? = some code →
    Splits env (.expr (.unary note op operand) here b ⟨b₁.nextSlot, value.block⟩
      (b₁.compute value.block note.ty (.unary code value.slot) note.span))
      [.expr operand here b value b₁]
  | call {note qualifier name args here b callee slots last b₁} :
    env.callee qualifier name = .ok callee →
    Splits env (.expr (.call note qualifier name args) here b ⟨b₁.nextSlot, b₁.nextLabel⟩
      (b₁.call last note slots callee)) [.args args here b slots last b₁]
  | index {note container key here b k b₁ base b₂} :
    Splits env (.expr (.index note container key) here b ⟨b₂.nextSlot, base.block⟩
      (b₂.compute base.block note.ty (.access (.loadFrom container) k.slot base.slot) note.span))
      [.expr key here b k b₁, .expr container k.block b₁ base b₂]
  | list {note elements elementTy here b values last b₁} :
    Splits env (.expr (.list note elements elementTy) here b ⟨b₁.nextSlot + 1, last⟩
      ((b₁.load last (.int (.ofNat values.length)) (some .int) note.span).compute last (some .list)
        (.newArray elementTy b₁.nextSlot values) note.span)) [.args elements here b values last b₁]
  | cast {note operand target here b value b₁} :
    Splits env (.expr (.cast note operand target) here b ⟨b₁.nextSlot, value.block⟩
      (b₁.compute value.block (target.ty <|> note.ty) (.cast value.slot (target.ty <|> note.ty))
        note.span)) [.expr operand here b value b₁]
  | test {note operand target negated here b value b₁} :
    Splits env (.expr (.test note operand target negated) here b ⟨b₁.nextSlot, value.block⟩
      (b₁.compute value.block (some .boolean) (.test value.slot target.ty negated) note.span))
      [.expr operand here b value b₁]
  | group {note inner here b r b₁} :
    Splits env (.expr (.group note inner) here b r b₁) [.expr inner here b r b₁]
  | wildcard {note here b} :
    Splits env (.expr (.wildcard note) here b ⟨b.nextSlot, here⟩ (b.addTemporary none)) []
  | field {note base name here b r b₁} :
    Splits env (.expr (.field note base name) here b ⟨b₁.nextSlot + 1, r.block⟩
      ((b₁.loadName r.block name).compute r.block note.ty (.access .mapLoad b₁.nextSlot r.slot)
        note.span)) [.expr base here b r b₁]
  | mapping {note fields here b entries last b₁} :
    Splits env (.expr (.mapping note fields) here b ⟨b₁.nextSlot, last⟩
      (b₁.compute last (note.ty <|> some .map) (.newMap (note.ty <|> some .map) entries) note.span))
      [.fields fields here b entries last b₁]
  | ternary {note cond whenTrue whenFalse here b c b₁ x b₂ y b₃} :
    Splits env (.expr (.ternary note cond whenTrue whenFalse) here b ⟨b₁.nextSlot, b₃.nextLabel⟩
      ((b₃.append y.block b₁.nextSlot (.move y.slot) whenFalse.span).join x.block y.block note.span))
      [.expr cond here b c b₁, .expr whenTrue b₁.nextLabel (b₁.fork c note) x b₂,
        .expr whenFalse (b₁.nextLabel + 1)
          (b₂.append x.block b₁.nextSlot (.move x.slot) whenTrue.span) y b₃]
  | argsNil {here b} : Splits env (.args [] here b [] here b) []
  | argsCons {e es here b value b₁ slots last b₂} :
    Splits env (.args (e :: es) here b (value.slot :: slots) last b₂)
      [.expr e here b value b₁, .args es value.block b₁ slots last b₂]
  | fieldsNil {here b} : Splits env (.fields [] here b [] here b) []
  | fieldsCons {name e fields here b value b₁ entries last b₂} :
    Splits env (.fields ((name, e) :: fields) here b (.pair b.nextSlot value.slot :: entries) last b₂)
      [.expr e here (b.loadName here name) value b₁, .fields fields value.block b₁ entries last b₂]
  | storeVariable {note name symbol value span b slot} :
    b.locals.lookup? (env.refKey symbol) = some slot →
    Splits env (.store (.var note name symbol) value span b value.block
      (b.append value.block slot (.move value.slot) span)) []
  | storeIndex {note container key value span b base b₁ k b₂} :
    Splits env (.store (.index note container key) value span b k.block
      (b₂.append k.block base.slot (.access (.storeInto container) k.slot value.slot) span))
      [.expr container value.block b base b₁, .expr key base.block b₁ k b₂]
  | storeField {note base name value span b r b₁} :
    Splits env (.store (.field note base name) value span b r.block
      ((b₁.loadName r.block name).append r.block r.slot (.access .mapStore b₁.nextSlot value.slot) span))
      [.expr base value.block b r b₁]
  | storeWildcard {note value span b} :
    Splits env (.store (.wildcard note) value span b value.block
      (b.compute value.block none (.move value.slot) span)) []
  | expr {span value here b r b₁} :
    Splits env (.stmt (.expr span value) here b (some r.block) b₁) [.expr value here b r b₁]
  | block {span body here b out b₁} :
    Splits env (.stmt (.block span body) here b out b₁) [.block body here b out b₁]
  | ifThen {span cond body here b c b₁ thenEnd b₂} :
    Splits env (.stmt (.ifThen span cond body) here b (some b₂.nextLabel)
      ((b₂.grow.close c.block none (.branch c.slot b₁.nextLabel b₂.nextLabel) span).gotoFrom thenEnd
        b₂.nextLabel span))
      [.expr cond here b c b₁, .block body b₁.nextLabel b₁.grow thenEnd b₂]
  | ifElse {span cond body otherwise here b c b₁ thenEnd b₂ elseEnd b₃} :
    Splits env (.stmt (.ifElse span cond body otherwise) here b (some b₃.nextLabel)
      ((b₃.grow.gotoFrom elseEnd b₃.nextLabel span).gotoFrom thenEnd b₃.nextLabel span))
      [.expr cond here b c b₁, .block body b₁.nextLabel b₁.grow thenEnd b₂,
        .stmt otherwise b₂.nextLabel
          (b₂.grow.close c.block none (.branch c.slot b₁.nextLabel b₂.nextLabel) span) elseEnd b₃]
  | whileLoop {span cond body here b c b₁ bodyEnd b₂} :
    Splits env (.stmt (.whileLoop span cond body) here b (some (b₁.nextLabel + 1))
      (b₂.gotoFrom bodyEnd b.nextLabel span).dropLoop)
      [.expr cond b.nextLabel (b.grow.close here none (.goto b.nextLabel) span) c b₁,
        .block body b₁.nextLabel (b₁.enterLoop b.nextLabel c span) bodyEnd b₂]
  | ret {span here b} :
    Splits env (.stmt (.ret span none) here b none (b.close here none .ret span)) []
  | retValue {span value here b r b₁} :
    Splits env (.stmt (.ret span (some value)) here b none (b₁.result r span))
      [.expr value here b r b₁]
  | breakLoop {span here b frame} :
    b.loop? = some frame →
    Splits env (.stmt (.breakLoop span) here b none (b.close here none (.goto frame.onBreak) span)) []
  | continueLoop {span here b frame} :
    b.loop? = some frame →
    Splits env (.stmt (.continueLoop span) here b none
      (b.close here none (.goto frame.onContinue) span)) []
  | declare {span var here b} :
    var.init = none →
    Splits env (.stmt (.define span var) here b (some here)
      (b.addBound var.name.name var.ty .declared (env.refKey var.symbol))) []
  | define {span var init here b r b₁} :
    var.init = some init →
    Splits env (.stmt (.define span var) here b (some r.block)
      ((b₁.addBound var.name.name var.ty .declared (env.refKey var.symbol)).append r.block b₁.nextSlot
        (.move r.slot) span)) [.expr init here b r b₁]
  | assign {span target value here b r b₁ last b₂} :
    Splits env (.stmt (.assign span target value) here b (some last) b₂)
      [.expr value here b r b₁, .store target r span b₁ last b₂]
  | update {span op target value ty here b r b₁ last b₂} :
    Splits env (.stmt (.update span op target value ty) here b (some last) b₂)
      [.expr (.binary ⟨ty, span⟩ op target value) here b r b₁, .store target r span b₁ last b₂]
  | panic {span error here b r b₁} :
    Splits env (.stmt (.panic span error) here b none (b₁.close r.block none (.panic r.slot) span))
      [.expr error here b r b₁]
  | lockLeft {span body here b b₁} :
    Splits env (.stmt (.lock span body) here b none b₁)
      [.block body b.nextLabel (b.grow.close here none (.lock b.nextLabel) span) none b₁]
  | lock {span body here b last b₁} :
    Splits env (.stmt (.lock span body) here b (some b₁.nextLabel)
      (b₁.grow.close last none (.unlock b₁.nextLabel) span))
      [.block body b.nextLabel (b.grow.close here none (.lock b.nextLabel) span) (some last) b₁]
  | scope {stmts span here b out b₁} :
    Splits env (.block (.mk stmts span) here b out b₁.exitScope) [.stmts stmts here b.enterScope out b₁]
  | nil {here b} : Splits env (.stmts [] here b (some here) b) []
  | next {s stmts here b l b₁ out b₂} :
    Splits env (.stmts (s :: stmts) here b out b₂) [.stmt s here b (some l) b₁, .stmts stmts l b₁ out b₂]
  | leave {s stmts here b b₁} :
    Splits env (.stmts (s :: stmts) here b none b₁) [.stmt s here b none b₁]

section Induction

variable {env : Env} {P : Site → Prop}
  (step : ∀ p ps, Splits env p ps → ps.Forall (fun q => q.Run env ∧ P q) → P p)

include step

mutual

theorem ExprRun.site {e : Expr} {here : Label} {b b' : Builder} {r : Placed}
    (h : ExprRun env e here b r b') : P (.expr e here b r b') := by
  cases h with
  | literal => exact step _ _ .literal trivial
  | «variable» hslot => exact step _ _ (.variable hslot) trivial
  | constant hnone hc => exact step _ _ (.constant hnone hc) trivial
  | binary hop hl hr => exact step _ _ (.binary hop) ⟨⟨hl, hl.site⟩, hr, hr.site⟩
  | unary hop hx => exact step _ _ (.unary hop) ⟨hx, hx.site⟩
  | call hcallee hargs => exact step _ _ (.call hcallee) ⟨hargs, hargs.site⟩
  | index hk hc => exact step _ _ .index ⟨⟨hk, hk.site⟩, hc, hc.site⟩
  | list hargs => exact step _ _ .list ⟨hargs, hargs.site⟩
  | cast hx => exact step _ _ .cast ⟨hx, hx.site⟩
  | test hx => exact step _ _ .test ⟨hx, hx.site⟩
  | group hx => exact step _ _ .group ⟨hx, hx.site⟩
  | wildcard => exact step _ _ .wildcard trivial
  | field hx => exact step _ _ .field ⟨hx, hx.site⟩
  | mapping hf => exact step _ _ .mapping ⟨hf, hf.site⟩
  | ternary hc hx hy => exact step _ _ .ternary ⟨⟨hc, hc.site⟩, ⟨hx, hx.site⟩, hy, hy.site⟩

theorem ArgsRun.site {es : List Expr} {here last : Label} {b b' : Builder} {slots : List Slot}
    (h : ArgsRun env es here b slots last b') : P (.args es here b slots last b') := by
  match h with
  | .nil => exact step _ _ .argsNil trivial
  | .cons he hes => exact step _ _ .argsCons ⟨⟨he, he.site⟩, hes, hes.site⟩

theorem FieldsRun.site {fs : List (Ident × Expr)} {here last : Label} {b b' : Builder}
    {entries : List MapEntry} (h : FieldsRun env fs here b entries last b') :
    P (.fields fs here b entries last b') := by
  match h with
  | .nil => exact step _ _ .fieldsNil trivial
  | .cons he hfs => exact step _ _ .fieldsCons ⟨⟨he, he.site⟩, hfs, hfs.site⟩

end

theorem StoreRun.site {target : Expr} {value : Placed} {span : Span} {b b' : Builder} {last : Label}
    (h : StoreRun env target value span b last b') : P (.store target value span b last b') := by
  cases h with
  | «variable» hslot => exact step _ _ (.storeVariable hslot) trivial
  | index hbase hkey => exact step _ _ .storeIndex ⟨⟨hbase, hbase.site step⟩, hkey, hkey.site step⟩
  | field hbase => exact step _ _ .storeField ⟨hbase, hbase.site step⟩
  | wildcard => exact step _ _ .storeWildcard trivial

mutual

theorem StmtRun.site {s : Stmt} {here : Label} {b b' : Builder} {out : Option Label}
    (h : StmtRun env s here b out b') : P (.stmt s here b out b') := by
  cases h with
  | expr hx => exact step _ _ .expr ⟨hx, hx.site step⟩
  | block hbody => exact step _ _ .block ⟨hbody, hbody.site⟩
  | ifThen hc hbody => exact step _ _ .ifThen ⟨⟨hc, hc.site step⟩, hbody, hbody.site⟩
  | ifElse hc hbody helse =>
    exact step _ _ .ifElse ⟨⟨hc, hc.site step⟩, ⟨hbody, hbody.site⟩, helse, helse.site⟩
  | whileLoop hc hbody => exact step _ _ .whileLoop ⟨⟨hc, hc.site step⟩, hbody, hbody.site⟩
  | ret => exact step _ _ .ret trivial
  | retValue hx => exact step _ _ .retValue ⟨hx, hx.site step⟩
  | breakLoop hf => exact step _ _ (.breakLoop hf) trivial
  | continueLoop hf => exact step _ _ (.continueLoop hf) trivial
  | declare hi => exact step _ _ (.declare hi) trivial
  | define hi hx => exact step _ _ (.define hi) ⟨hx, hx.site step⟩
  | assign hx hstore => exact step _ _ .assign ⟨⟨hx, hx.site step⟩, hstore, hstore.site step⟩
  | update hx hstore => exact step _ _ .update ⟨⟨hx, hx.site step⟩, hstore, hstore.site step⟩
  | panic hx => exact step _ _ .panic ⟨hx, hx.site step⟩
  | lockLeft hbody => exact step _ _ .lockLeft ⟨hbody, hbody.site⟩
  | lock hbody => exact step _ _ .lock ⟨hbody, hbody.site⟩

theorem BlockRun.site {body : Block} {here : Label} {b b' : Builder} {out : Option Label}
    (h : BlockRun env body here b out b') : P (.block body here b out b') := by
  match h with
  | .mk hstmts => exact step _ _ .scope ⟨hstmts, hstmts.site⟩

theorem StmtsRun.site {ss : List Stmt} {here : Label} {b b' : Builder} {out : Option Label}
    (h : StmtsRun env ss here b out b') : P (.stmts ss here b out b') := by
  match h with
  | .nil => exact step _ _ .nil trivial
  | .next hs hstmts => exact step _ _ .next ⟨⟨hs, hs.site⟩, hstmts, hstmts.site⟩
  | .leave hs => exact step _ _ .leave ⟨hs, hs.site⟩

end

@[elab_as_elim]
theorem Site.Run.induct {p : Site} (h : p.Run env) : P p := by
  cases p with
  | expr => exact ExprRun.site step h
  | args => exact ArgsRun.site step h
  | fields => exact FieldsRun.site step h
  | store => exact StoreRun.site step h
  | stmt => exact StmtRun.site step h
  | block => exact BlockRun.site step h
  | stmts => exact StmtsRun.site step h

end Induction

def Child (env : Env) (p q : Site) : Prop := ∃ ps, Splits env p ps ∧ ps.Forall (·.Run env) ∧ q ∈ ps

abbrev Part (env : Env) : Site → Site → Prop := Relation.ReflTransGen (Child env)

structure Site.Context (bf : Builder) (p : Site) : Prop extends p.Ready where
  sealed : Sealed p.first p.last bf

section Context

variable {env : Env} {bf b : Builder} {p q : Site}

theorem Site.Ready.context (hp : p.Ready) (h : p.Run env) (hle : b.nextSlot ≤ p.first.nextSlot)
    (hs : Region p.first p.here p.last (fun l => p.out = some l) → Sealed b p.last bf) : p.Context bf :=
  ⟨hp, (hs (h.region hp)).after hle⟩

theorem Site.Ready.contexts (hp : p.Ready) (h : p.Run env) (h' : q.Run env)
    (hfirst : q.first = p.last) (hout : p.out = some q.here)
    (hv : ∀ s ∈ q.operand?, s < p.last.nextSlot) (hle : b.nextSlot ≤ p.first.nextSlot)
    (hs : Region q.first q.here q.last (fun l => q.out = some l) → Sealed b q.last bf) :
    [p, q].Forall (·.Context bf) := by
  have r := h.region hp
  have hq : q.Ready := ⟨hfirst ▸ r.sound hp.sound, hfirst ▸ r.isOpen hout, hfirst ▸ hv⟩
  have r' := h'.region hq
  refine ⟨⟨hp, ((hs r').before ?_).after hle⟩, hq, (hs r').after ?_⟩
  · exact hfirst ▸ r'.frame
  · rw [hfirst]
    exact Nat.le_trans hle r.nextSlot_le

end Context

theorem Splits.context {env : Env} {bf : Builder} {p : Site} {ps : List Site} (h : Splits env p ps)
    (hrun : ps.Forall (·.Run env)) (hp : p.Context bf) : ps.Forall (·.Context bf) := by
  obtain ⟨⟨hb, ho, hv⟩, hs⟩ := hp
  cases h with
  | literal | «variable» | constant | wildcard | argsNil | fieldsNil | storeVariable | storeWildcard | ret
  | breakLoop | continueLoop | declare | nil => trivial
  | binary =>
    exact Site.Ready.contexts ⟨hb, ho, nofun⟩ hrun.1 hrun.2 rfl rfl nofun (Nat.le_refl _)
      fun r => hs.compute (r.isOpen rfl)
  | index =>
    exact Site.Ready.contexts ⟨hb, ho, nofun⟩ hrun.1 hrun.2 rfl rfl nofun (Nat.le_refl _)
      fun r => hs.compute (r.isOpen rfl)
  | unary | cast | test | mapping =>
    exact Site.Ready.context ⟨hb, ho, nofun⟩ hrun (Nat.le_refl _) fun r => hs.compute (r.isOpen rfl)
  | call =>
    have e₁ := ArgsRun.evaluation hrun hb ho
    exact ⟨⟨hb, ho, nofun⟩, hs.before (Evaluation.refl e₁.open_last e₁.slots_lt).call.frame⟩
  | list | field =>
    refine Site.Ready.context ⟨hb, ho, nofun⟩ hrun (Nat.le_refl _) fun r => ?_
    exact hs.before (((Frame.refl _).compute (r.isOpen rfl)).compute (isOpen_append.mpr (r.isOpen rfl)))
  | group | expr | block => exact ⟨⟨hb, ho, nofun⟩, hs⟩
  | @ternary note cond whenTrue whenFalse _ _ c b₁ x b₂ y b₃ =>
    obtain ⟨hc, hx, hy⟩ := hrun
    have e₁ := ExprRun.evaluation hc hb ho
    have hfork : Region _ _ (b₁.fork c note) _ := e₁.fork
    have e₂ := ExprRun.evaluation hx (hfork.sound hb) (hfork.isOpen (.inl rfl))
    have harm := e₁.firstArm whenTrue.span e₂
    have e₃ := ExprRun.evaluation hy (harm.sound hb) (harm.isOpen (.inr rfl))
    obtain ⟨hleft, hright⟩ := e₂.arms_open whenFalse.span e₃
    have hs₄ := hs.before ((Frame.refl _).join hleft hright (e₂.arms_ne e₃).1)
    obtain ⟨hs₂, hs₃⟩ := e₂.arms_sealed e₃ hs₄ e₁.nextSlot_le
    have hs₁ := hs.before ((Evaluation.refl e₁.open_last e₁.slots_lt).ternary e₂ e₃).frame
    exact ⟨⟨⟨hb, ho, nofun⟩, hs₁⟩, ⟨⟨hfork.sound hb, hfork.isOpen (.inl rfl), nofun⟩, hs₂⟩,
      ⟨harm.sound hb, harm.isOpen (.inr rfl), nofun⟩, hs₃⟩
  | argsCons =>
    exact Site.Ready.contexts ⟨hb, ho, nofun⟩ hrun.1 hrun.2 rfl rfl nofun (Nat.le_refl _) fun _ => hs
  | @fieldsCons name =>
    have e₀ := (Evaluation.refl ho (by simp) : Evaluation _ _ _ _ []).loadName name
    exact Site.Ready.contexts ⟨e₀.sound hb, e₀.open_last, nofun⟩ hrun.1 hrun.2 rfl rfl nofun
      e₀.nextSlot_le fun _ => hs
  | storeIndex =>
    refine Site.Ready.contexts ⟨hb, ho, nofun⟩ hrun.1 hrun.2 rfl rfl nofun (Nat.le_refl _) fun r => ?_
    exact hs.before ((Frame.refl _).append (r.isOpen rfl) (.inl (Access.storeInto_isStore _)))
  | storeField =>
    refine Site.Ready.context ⟨hb, ho, nofun⟩ hrun (Nat.le_refl _) fun r => ?_
    exact hs.before (((Frame.refl _).compute (r.isOpen rfl)).append (isOpen_append.mpr (r.isOpen rfl))
      (.inl rfl))
  | ifThen =>
    obtain ⟨hc, hbody⟩ := hrun
    have e₁ := ExprRun.evaluation hc hb ho
    have hgrow := e₁.toRegion.grow
    have r₂ := BlockRun.region hbody (hgrow.sound hb) (hgrow.isOpen (.inr rfl))
    have hs₂ := hs.before (e₁.ifThen_frame r₂)
    exact ⟨⟨⟨hb, ho, nofun⟩, hs₂.before ((Frame.refl _).grow.trans r₂.frame)⟩,
      ⟨hgrow.sound hb, hgrow.isOpen (.inr rfl), nofun⟩, hs₂.after hgrow.nextSlot_le⟩
  | @ifElse span =>
    obtain ⟨hc, hbody, helse⟩ := hrun
    have e₁ := ExprRun.evaluation hc hb ho
    have hgrow := e₁.toRegion.grow
    have r₂ := BlockRun.region hbody (hgrow.sound hb) (hgrow.isOpen (.inr rfl))
    have hthen := e₁.thenDone span r₂
    have r₃ := StmtRun.region helse (hthen.sound hb) (hthen.isOpen (.inr rfl))
    have hs₃ := hs.before (e₁.ifElse_frame r₂ r₃)
    have hs₂ := hs₃.before ((e₁.thenDone_frame span r₂).trans r₃.frame)
    exact ⟨⟨⟨hb, ho, nofun⟩, hs₂.before ((Frame.refl _).grow.trans r₂.frame)⟩,
      ⟨⟨hgrow.sound hb, hgrow.isOpen (.inr rfl), nofun⟩, hs₂.after hgrow.nextSlot_le⟩,
      ⟨hthen.sound hb, hthen.isOpen (.inr rfl), nofun⟩, hs₃.after hthen.nextSlot_le⟩
  | @whileLoop span _ _ _ b c b₁ =>
    obtain ⟨hc, hbody⟩ := hrun
    have h₀ := (Region.refl ho).advance (.goto b.nextLabel) span rfl rfl
    have e₁ := ExprRun.evaluation hc (h₀.sound hb) (h₀.isOpen rfl)
    have hb₂ : (b₁.enterLoop b.nextLabel c span).Sound := h₀.enterLoop_sound e₁ hb
    have h₂ := h₀.enterLoop e₁ span
    have r₂ := BlockRun.region hbody hb₂ (h₂.isOpen (.inl rfl))
    have hs₂ := hs.before r₂.back_frame
    have hs₁ := hs₂.before ((enterLoop_frame e₁.open_last).trans r₂.frame)
    exact ⟨⟨⟨h₀.sound hb, h₀.isOpen rfl, nofun⟩, hs₁.after h₀.nextSlot_le⟩,
      ⟨hb₂, h₂.isOpen (.inl rfl), nofun⟩, hs₂.after h₂.nextSlot_le⟩
  | retValue =>
    have e₁ := ExprRun.evaluation hrun hb ho
    exact ⟨⟨hb, ho, nofun⟩,
      hs.before ((Evaluation.refl e₁.open_last e₁.slots_lt).result (e₁.sound hb)).frame⟩
  | define =>
    refine Site.Ready.context ⟨hb, ho, nofun⟩ hrun (Nat.le_refl _) fun r => ?_
    exact hs.before (((Frame.refl _).addBound (.inr rfl)).append (r.isOpen rfl)
      (.inr fun ht => Nat.lt_irrefl _ ht.lt))
  | assign | update =>
    have e₁ := ExprRun.evaluation hrun.1 hb ho
    exact Site.Ready.contexts ⟨hb, ho, nofun⟩ hrun.1 hrun.2 rfl rfl
      (by simpa [Site.operand?, Site.last] using e₁.slot_lt) (Nat.le_refl _) fun _ => hs
  | panic =>
    refine Site.Ready.context ⟨hb, ho, nofun⟩ hrun (Nat.le_refl _) fun r => ?_
    exact hs.before ((Frame.refl _).close (r.isOpen rfl))
  | @lockLeft span _ _ b =>
    have h₀ := (Region.refl ho).advance (.lock b.nextLabel) span rfl rfl
    exact ⟨⟨h₀.sound hb, h₀.isOpen rfl, nofun⟩, hs.after h₀.nextSlot_le⟩
  | @lock span _ _ b =>
    have h₀ := (Region.refl ho).advance (.lock b.nextLabel) span rfl rfl
    refine Site.Ready.context ⟨h₀.sound hb, h₀.isOpen rfl, nofun⟩ hrun h₀.nextSlot_le fun r => ?_
    exact hs.before ((Frame.refl _).advance (r.isOpen rfl))
  | @scope _ _ _ b =>
    have hexit := hs.before (Frame.refl _).exitScope
    exact ⟨⟨(Step.enterScope b).sound hb, ho, nofun⟩, hexit.after (Nat.le_refl _)⟩
  | next =>
    exact Site.Ready.contexts ⟨hb, ho, nofun⟩ hrun.1 hrun.2 rfl rfl nofun (Nat.le_refl _) fun _ => hs
  | leave => exact ⟨⟨hb, ho, nofun⟩, hs⟩

/-- Induction over the parts of a run that starts where code can be put down, as do all its parts. -/
@[elab_as_elim]
theorem Site.Run.inductReady {env : Env} {P : Site → Prop}
    (step : ∀ p ps, Splits env p ps → p.Ready →
      ps.Forall (fun q => (q.Run env ∧ q.Ready) ∧ P q) → P p)
    {p : Site} (h : p.Run env) : p.Ready → P p := by
  refine Site.Run.induct (fun p ps hsplits hparts hp => ?_) h
  rw [List.forall_iff_forall_mem] at hparts
  have hruns : ps.Forall (·.Run env) := List.forall_iff_forall_mem.mpr fun q hq => (hparts q hq).1
  have hready := List.forall_iff_forall_mem.mp (hsplits.context hruns ⟨hp, (Frame.refl _).sealed⟩)
  refine step p ps hsplits hp (List.forall_iff_forall_mem.mpr fun q hq => ?_)
  obtain ⟨hrun, hP⟩ := hparts q hq
  exact ⟨⟨hrun, (hready q hq).toReady⟩, hP (hready q hq).toReady⟩

theorem Part.context {env : Env} {bf : Builder} {p q : Site} (h : Part env p q) (hrun : p.Run env)
    (hp : p.Context bf) : q.Run env ∧ q.Context bf := by
  induction h with
  | refl => exact ⟨hrun, hp⟩
  | tail _ hchild ih =>
    obtain ⟨ps, hsplits, hruns, hmem⟩ := hchild
    have hcontexts := hsplits.context hruns ih.2
    exact ⟨List.forall_iff_forall_mem.mp hruns _ hmem, List.forall_iff_forall_mem.mp hcontexts _ hmem⟩

inductive Root : Body → Builder → Builder → Site → Prop
  | leaves {body b b'} : Root (.block body) b b' (.stmts body.stmts b.nextLabel b.grow none b')
  | fallsOff {body b last b'} :
    Root (.block body) b (b'.close last none .ret body.span)
      (.stmts body.stmts b.nextLabel b.grow (some last) b')
  | expr {value b r b'} :
    Root (.expr value) b (b'.result r value.span) (.expr value b.nextLabel b.grow r b')

theorem BodyRun.root {env : Env} {body : Body} {b b' : Builder} (h : BodyRun env body b b') :
    ∃ p, Root body b b' p ∧ p.Run env := by
  cases h with
  | leaves h => exact ⟨_, .leaves, h⟩
  | fallsOff h => exact ⟨_, .fallsOff, h⟩
  | expr h => exact ⟨_, .expr, h⟩

theorem Root.context {env : Env} {body : Body} {b bf : Builder} {p : Site} (h : Root body b bf p)
    (hrun : p.Run env) (hb : b.Sound) : p.Context bf := by
  have hb' : b.grow.Sound := (Step.grow b).sound hb
  have ho : b.grow.IsOpen b.nextLabel := isOpen_grow.mpr (.inr rfl)
  cases h with
  | leaves => exact ⟨⟨hb', ho, nofun⟩, (Frame.refl bf).sealed⟩
  | fallsOff =>
    have r := StmtsRun.region hrun hb' ho
    exact ⟨⟨hb', ho, nofun⟩, ((Frame.refl _).close (r.isOpen rfl)).sealed⟩
  | expr =>
    have e := ExprRun.evaluation hrun hb' ho
    exact ⟨⟨hb', ho, nofun⟩, ((Evaluation.refl e.open_last e.slots_lt).result (e.sound hb')).frame.sealed⟩

def SiteOf (env : Env) (stem : String) (f : FunctionDef) (g : Graph) (p : Site) : Prop :=
  ∃ b root, Root f.body (env.enter stem f) b root ∧ root.Run env ∧ g = b.graph env f ∧ Part env root p

theorem SiteOf.context {env : Env} {stem : String} {f : FunctionDef} {g : Graph} {p : Site}
    (h : SiteOf env stem f g p) : ∃ b, g = b.graph env f ∧ p.Run env ∧ p.Context b := by
  obtain ⟨b, root, hroot, hrun, hg, hpart⟩ := h
  exact ⟨b, hg, hpart.context hrun (hroot.context hrun (env.enter_sound stem f))⟩

end FlowGraph

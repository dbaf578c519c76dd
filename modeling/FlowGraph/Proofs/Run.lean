import FlowGraph.Lowering.Stmt
import FlowGraph.Proofs.Transition

/-!
The runs of lowering that succeed, as derivations: one rule for each form of the source, from the
builder before to the builder after it. Nothing here asks whether the blocks are open; that they are
is proved of every run that starts in an open block.
-/

namespace FlowGraph

namespace Builder

def call (b : Builder) (last : Label) (note : Note) (args : List Slot) (callee : Callee) : Builder :=
  (b.grow.addTemporary note.ty).close last (some b.nextSlot)
    (.call args callee false b.nextLabel) note.span

def fork (b : Builder) (cond : Placed) (note : Note) : Builder :=
  (b.addTemporary note.ty).grow.grow.close cond.block none
    (.branch cond.slot b.nextLabel (b.nextLabel + 1)) note.span

def join (b : Builder) (left right : Label) (span : Span) : Builder :=
  (b.grow.close left none (.goto b.nextLabel) span).close right none (.goto b.nextLabel) span

def enterLoop (b : Builder) (head : Label) (cond : Placed) (span : Span) : Builder :=
  (b.grow.grow.close cond.block none (.branch cond.slot b.nextLabel (b.nextLabel + 1)) span).pushLoop
    ⟨b.nextLabel + 1, head⟩

def result (b : Builder) (value : Placed) (span : Span) : Builder :=
  (b.append value.block 0 (.move value.slot) span).close value.block none .ret span

end Builder

section Expressions

variable (env : Env)

mutual

/-- `ExprRun env e here b r b'`: lowering `e` into block `here` of `b` gives `r` and leaves `b'`. -/
inductive ExprRun : Expr → Label → Builder → Placed → Builder → Prop
  | literal {note value here b} :
    ExprRun (.literal note value) here b ⟨b.nextSlot, here⟩ (b.load here value note.ty note.span)
  | variable {note name symbol here b slot} :
    b.locals.lookup? (env.refKey symbol) = some slot →
    ExprRun (.var note name symbol) here b ⟨slot, here⟩ b
  | constant {note name symbol here b c} :
    b.locals.lookup? (env.refKey symbol) = none → env.constant? (env.refKey symbol) = some c →
    ExprRun (.var note name symbol) here b ⟨b.nextSlot, here⟩ (b.load here c.value c.ty name.span)
  | binary {note op lhs rhs here b code left b₁ right b₂} :
    op.opcode? = some code → ExprRun lhs here b left b₁ → ExprRun rhs left.block b₁ right b₂ →
    ExprRun (.binary note op lhs rhs) here b ⟨b₂.nextSlot, right.block⟩
      (b₂.compute right.block note.ty (.binary code left.slot right.slot) note.span)
  | unary {note op operand here b code value b₁} :
    op.opcode? = some code → ExprRun operand here b value b₁ →
    ExprRun (.unary note op operand) here b ⟨b₁.nextSlot, value.block⟩
      (b₁.compute value.block note.ty (.unary code value.slot) note.span)
  | call {note qualifier name args here b callee slots last b₁} :
    env.callee qualifier name = .ok callee → ArgsRun args here b slots last b₁ →
    ExprRun (.call note qualifier name args) here b ⟨b₁.nextSlot, b₁.nextLabel⟩
      (b₁.call last note slots callee)
  | index {note container key here b k b₁ base b₂} :
    ExprRun key here b k b₁ → ExprRun container k.block b₁ base b₂ →
    ExprRun (.index note container key) here b ⟨b₂.nextSlot, base.block⟩
      (b₂.compute base.block note.ty (.access (.loadFrom container) k.slot base.slot) note.span)
  | list {note elements elementTy here b values last b₁} :
    ArgsRun elements here b values last b₁ →
    ExprRun (.list note elements elementTy) here b ⟨b₁.nextSlot + 1, last⟩
      ((b₁.load last (.int (.ofNat values.length)) (some .int) note.span).compute last (some .list)
        (.newArray elementTy b₁.nextSlot values) note.span)
  | cast {note operand target here b value b₁} :
    ExprRun operand here b value b₁ →
    ExprRun (.cast note operand target) here b ⟨b₁.nextSlot, value.block⟩
      (b₁.compute value.block (target.ty <|> note.ty) (.cast value.slot (target.ty <|> note.ty))
        note.span)
  | test {note operand target negated here b value b₁} :
    ExprRun operand here b value b₁ →
    ExprRun (.test note operand target negated) here b ⟨b₁.nextSlot, value.block⟩
      (b₁.compute value.block (some .boolean) (.test value.slot target.ty negated) note.span)
  | group {note inner here b r b₁} :
    ExprRun inner here b r b₁ → ExprRun (.group note inner) here b r b₁
  | wildcard {note here b} :
    ExprRun (.wildcard note) here b ⟨b.nextSlot, here⟩ (b.addTemporary none)
  | field {note base name here b r b₁} :
    ExprRun base here b r b₁ →
    ExprRun (.field note base name) here b ⟨b₁.nextSlot + 1, r.block⟩
      ((b₁.loadName r.block name).compute r.block note.ty (.access .mapLoad b₁.nextSlot r.slot)
        note.span)
  | mapping {note fields here b entries last b₁} :
    FieldsRun fields here b entries last b₁ →
    ExprRun (.mapping note fields) here b ⟨b₁.nextSlot, last⟩
      (b₁.compute last (note.ty <|> some .map) (.newMap (note.ty <|> some .map) entries) note.span)
  | ternary {note cond whenTrue whenFalse here b c b₁ x b₂ y b₃} :
    ExprRun cond here b c b₁ → ExprRun whenTrue b₁.nextLabel (b₁.fork c note) x b₂ →
    ExprRun whenFalse (b₁.nextLabel + 1)
      (b₂.append x.block b₁.nextSlot (.move x.slot) whenTrue.span) y b₃ →
    ExprRun (.ternary note cond whenTrue whenFalse) here b ⟨b₁.nextSlot, b₃.nextLabel⟩
      ((b₃.append y.block b₁.nextSlot (.move y.slot) whenFalse.span).join x.block y.block note.span)

inductive ArgsRun : List Expr → Label → Builder → List Slot → Label → Builder → Prop
  | nil {here b} : ArgsRun [] here b [] here b
  | cons {e es here b value b₁ slots last b₂} :
    ExprRun e here b value b₁ → ArgsRun es value.block b₁ slots last b₂ →
    ArgsRun (e :: es) here b (value.slot :: slots) last b₂

inductive FieldsRun : List (Ident × Expr) → Label → Builder → List MapEntry → Label → Builder → Prop
  | nil {here b} : FieldsRun [] here b [] here b
  | cons {name e fields here b value b₁ entries last b₂} :
    ExprRun e here (b.loadName here name) value b₁ →
    FieldsRun fields value.block b₁ entries last b₂ →
    FieldsRun ((name, e) :: fields) here b (.pair b.nextSlot value.slot :: entries) last b₂

end

end Expressions

section Statements

variable (env : Env)

inductive StoreRun : Expr → Placed → Span → Builder → Label → Builder → Prop
  | variable {note name symbol value span b slot} :
    b.locals.lookup? (env.refKey symbol) = some slot →
    StoreRun (.var note name symbol) value span b value.block
      (b.append value.block slot (.move value.slot) span)
  | index {note container key value span b base b₁ k b₂} :
    ExprRun env container value.block b base b₁ → ExprRun env key base.block b₁ k b₂ →
    StoreRun (.index note container key) value span b k.block
      (b₂.append k.block base.slot (.access (.storeInto container) k.slot value.slot) span)
  | field {note base name value span b r b₁} :
    ExprRun env base value.block b r b₁ →
    StoreRun (.field note base name) value span b r.block
      ((b₁.loadName r.block name).append r.block r.slot (.access .mapStore b₁.nextSlot value.slot) span)
  | wildcard {note value span b} :
    StoreRun (.wildcard note) value span b value.block
      (b.compute value.block none (.move value.slot) span)

mutual

/-- `StmtRun env s here b out b'`: lowering `s` into block `here` of `b` leaves `b'`, and control
goes on in `out`, if anywhere. -/
inductive StmtRun : Stmt → Label → Builder → Option Label → Builder → Prop
  | expr {span value here b r b₁} :
    ExprRun env value here b r b₁ → StmtRun (.expr span value) here b (some r.block) b₁
  | block {span body here b out b₁} :
    BlockRun body here b out b₁ → StmtRun (.block span body) here b out b₁
  | ifThen {span cond body here b c b₁ thenEnd b₂} :
    ExprRun env cond here b c b₁ → BlockRun body b₁.nextLabel b₁.grow thenEnd b₂ →
    StmtRun (.ifThen span cond body) here b (some b₂.nextLabel)
      ((b₂.grow.close c.block none (.branch c.slot b₁.nextLabel b₂.nextLabel) span).gotoFrom thenEnd
        b₂.nextLabel span)
  | ifElse {span cond body otherwise here b c b₁ thenEnd b₂ elseEnd b₃} :
    ExprRun env cond here b c b₁ → BlockRun body b₁.nextLabel b₁.grow thenEnd b₂ →
    StmtRun otherwise b₂.nextLabel
      (b₂.grow.close c.block none (.branch c.slot b₁.nextLabel b₂.nextLabel) span) elseEnd b₃ →
    StmtRun (.ifElse span cond body otherwise) here b (some b₃.nextLabel)
      ((b₃.grow.gotoFrom elseEnd b₃.nextLabel span).gotoFrom thenEnd b₃.nextLabel span)
  | whileLoop {span cond body here b c b₁ bodyEnd b₂} :
    ExprRun env cond b.nextLabel (b.grow.close here none (.goto b.nextLabel) span) c b₁ →
    BlockRun body b₁.nextLabel (b₁.enterLoop b.nextLabel c span) bodyEnd b₂ →
    StmtRun (.whileLoop span cond body) here b (some (b₁.nextLabel + 1))
      (b₂.gotoFrom bodyEnd b.nextLabel span).dropLoop
  | ret {span here b} : StmtRun (.ret span none) here b none (b.close here none .ret span)
  | retValue {span value here b r b₁} :
    ExprRun env value here b r b₁ → StmtRun (.ret span (some value)) here b none (b₁.result r span)
  | breakLoop {span here b frame} :
    b.loop? = some frame →
    StmtRun (.breakLoop span) here b none (b.close here none (.goto frame.onBreak) span)
  | continueLoop {span here b frame} :
    b.loop? = some frame →
    StmtRun (.continueLoop span) here b none (b.close here none (.goto frame.onContinue) span)
  | declare {span var here b} :
    var.init = none →
    StmtRun (.define span var) here b (some here)
      (b.addBound var.name.name var.ty .declared (env.refKey var.symbol))
  | define {span var init here b r b₁} :
    var.init = some init → ExprRun env init here b r b₁ →
    StmtRun (.define span var) here b (some r.block)
      ((b₁.addBound var.name.name var.ty .declared (env.refKey var.symbol)).append r.block b₁.nextSlot
        (.move r.slot) span)
  | assign {span target value here b r b₁ last b₂} :
    ExprRun env value here b r b₁ → StoreRun env target r span b₁ last b₂ →
    StmtRun (.assign span target value) here b (some last) b₂
  | update {span op target value ty here b r b₁ last b₂} :
    ExprRun env (.binary ⟨ty, span⟩ op target value) here b r b₁ →
    StoreRun env target r span b₁ last b₂ →
    StmtRun (.update span op target value ty) here b (some last) b₂
  | panic {span error here b r b₁} :
    ExprRun env error here b r b₁ →
    StmtRun (.panic span error) here b none (b₁.close r.block none (.panic r.slot) span)
  | lockLeft {span body here b b₁} :
    BlockRun body b.nextLabel (b.grow.close here none (.lock b.nextLabel) span) none b₁ →
    StmtRun (.lock span body) here b none b₁
  | lock {span body here b last b₁} :
    BlockRun body b.nextLabel (b.grow.close here none (.lock b.nextLabel) span) (some last) b₁ →
    StmtRun (.lock span body) here b (some b₁.nextLabel)
      (b₁.grow.close last none (.unlock b₁.nextLabel) span)

inductive BlockRun : Block → Label → Builder → Option Label → Builder → Prop
  | mk {stmts span here b out b₁} :
    StmtsRun stmts here b.enterScope out b₁ → BlockRun (.mk stmts span) here b out b₁.exitScope

inductive StmtsRun : List Stmt → Label → Builder → Option Label → Builder → Prop
  | nil {here b} : StmtsRun [] here b (some here) b
  | next {s stmts here b l b₁ out b₂} :
    StmtRun s here b (some l) b₁ → StmtsRun stmts l b₁ out b₂ → StmtsRun (s :: stmts) here b out b₂
  | leave {s stmts here b b₁} :
    StmtRun s here b none b₁ → StmtsRun (s :: stmts) here b none b₁

end

end Statements

end FlowGraph

import FlowGraph.Builder.Locals
import FlowGraph.Builder.Nesting
import FlowGraph.Error
import FlowGraph.Event

/-!
The construction of one function. A block takes instructions until it gets a terminator, and it
gets only one; both record the scope that is current. `trace` keeps what the builder reported.
-/

namespace FlowGraph

structure Builder where
  stem : String
  blocks : List BasicBlock := []
  locals : Locals := {}
  scopes : ScopeTree := {}
  loops : LoopStack := []
  trace : List Event := []
  deriving DecidableEq, Inhabited

namespace Builder

def report (b : Builder) (e : Event) : Builder := { b with trace := b.trace ++ [e] }

def block? (b : Builder) (l : Label) : Option BasicBlock := b.blocks[l]?

def addBlock (b : Builder) : Label × Builder :=
  let l := b.blocks.length
  (l, { b with blocks := b.blocks ++ [BasicBlock.empty b.stem l] }.report (.blockAdded l))

def updateOpen (b : Builder) (l : Label) (f : BasicBlock → BasicBlock) : Except Error Builder :=
  match b.block? l with
  | none => .error (.unplaced (.unknownBlock l))
  | some block =>
    if block.isOpen then .ok { b with blocks := b.blocks.set l (f block) }
    else .error (.unplaced (.closedBlock block.name))

theorem updateOpen_eq_ok_iff {b b' : Builder} {l : Label} {f : BasicBlock → BasicBlock} :
    b.updateOpen l f = .ok b' ↔
      ∃ block, b.block? l = some block ∧ block.isOpen = true ∧
        { b with blocks := b.blocks.set l (f block) } = b' := by
  unfold updateOpen
  cases b.block? l with
  | none => simp
  | some block => cases h : block.isOpen <;> simp [h]

def emit (b : Builder) (l : Label) (dst : Slot) (op : Operation) (span : Span) :
    Except Error Builder :=
  b.updateOpen l fun block =>
    { block with instructions := block.instructions ++ [⟨dst, op, b.scopes.current, span⟩] }

def terminate (b : Builder) (l : Label) (dst : Option Slot) (transfer : Transfer) (span : Span) :
    Except Error Builder :=
  b.updateOpen l fun block =>
    { block with terminator := some ⟨dst, transfer, b.scopes.current, span⟩ }

def enterScope (b : Builder) : Builder := { b with scopes := b.scopes.enter }

def exitScope (b : Builder) : Builder := { b with scopes := b.scopes.exit }

def pushLoop (b : Builder) (frame : LoopFrame) : Builder :=
  { b with loops := frame :: b.loops }.report
    (.loopPushed frame.onBreak frame.onContinue (b.loops.length + 1))

def popLoop (b : Builder) : Except Error (LoopFrame × Builder) :=
  match b.loops with
  | [] => .error (.unplaced (.noEnclosingLoop "loop exit"))
  | frame :: loops => .ok (frame, { b with loops }.report (.loopPopped loops.length))

def loop? (b : Builder) : Option LoopFrame := b.loops.head?

structure Parts where
  locals : List Variable
  blocks : List BasicBlock
  scopes : List Scope
  deriving DecidableEq, Inhabited

def finish (b : Builder) : Except Error Parts :=
  match b.blocks.find? (·.isOpen) with
  | some block => .error (.unplaced (.openBlock block.name))
  | none => .ok ⟨b.locals.vars, b.blocks, b.scopes.scopes⟩

end Builder

end FlowGraph

import FlowGraph.Builder.Build
import FlowGraph.Syntax.Expr
import Mathlib.Logic.Basic
import Mathlib.Logic.Relation
import Mathlib.Tactic.Simps.Basic

/-!
What the actions of a builder do to its state, as functions that cannot fail. An action on a block
succeeds exactly if the block is open, and then it is the function of the same name here.
-/

namespace FlowGraph

def OpenAt (blocks : List BasicBlock) (l : Label) : Prop :=
  ∃ block, blocks[l]? = some block ∧ block.terminator = none

theorem OpenAt.lt {blocks : List BasicBlock} {l : Label} (h : OpenAt blocks l) :
    l < blocks.length := by
  obtain ⟨block, hb, -⟩ := h
  exact (List.getElem?_eq_some_iff.mp hb).1

namespace BasicBlock

def append (i : Instruction) (block : BasicBlock) : BasicBlock :=
  { block with instructions := block.instructions ++ [i] }

def close (t : Terminator) (block : BasicBlock) : BasicBlock :=
  { block with terminator := some t }

@[simp] theorem append_terminator (i : Instruction) (block : BasicBlock) :
    (block.append i).terminator = block.terminator := rfl

@[simp] theorem close_terminator (t : Terminator) (block : BasicBlock) :
    (block.close t).terminator = some t := rfl

end BasicBlock

theorem openAt_append {blocks : List BasicBlock} {l m : Label} {i : Instruction} :
    OpenAt (blocks.modify l (·.append i)) m ↔ OpenAt blocks m := by
  by_cases hlm : l = m
  · subst hlm
    simp [OpenAt]
  · simp [OpenAt, List.getElem?_modify_ne _ _ hlm]

theorem openAt_close {blocks : List BasicBlock} {l m : Label} {t : Terminator} :
    OpenAt (blocks.modify l (·.close t)) m ↔ OpenAt blocks m ∧ m ≠ l := by
  by_cases hlm : l = m
  · subst hlm
    simp [OpenAt]
  · simp [OpenAt, List.getElem?_modify_ne _ _ hlm, Ne.symm hlm]

theorem openAt_snoc {blocks : List BasicBlock} {l : Label} {block : BasicBlock}
    (h : block.terminator = none) :
    OpenAt (blocks ++ [block]) l ↔ OpenAt blocks l ∨ l = blocks.length := by
  rcases Nat.lt_trichotomy l blocks.length with hl | rfl | hl
  · simp [OpenAt, List.getElem?_append_left hl, Nat.ne_of_lt hl]
  · simp [OpenAt, h]
  · have hnone : blocks[l]? = none := List.getElem?_eq_none (Nat.le_of_lt hl)
    have hnone' : (blocks ++ [block])[l]? = none := List.getElem?_eq_none (by simp; omega)
    simp [OpenAt, hnone, hnone', Nat.ne_of_gt hl]

namespace Builder

@[simp] abbrev nextLabel (b : Builder) : Label := b.blocks.length

@[simp] abbrev nextSlot (b : Builder) : Slot := b.locals.vars.length

@[simp] abbrev IsOpen (b : Builder) (l : Label) : Prop := OpenAt b.blocks l

def keys (b : Builder) : List Symbol := b.locals.bindings.map (·.1)

@[simps stem locals scopes loops]
def grow (b : Builder) : Builder :=
  { b with
    blocks := b.blocks ++ [BasicBlock.empty b.stem b.nextLabel]
    trace := b.trace ++ [.blockAdded b.nextLabel] }

@[simps stem blocks locals scopes loops]
def addTemporary (b : Builder) (ty : Option Ty) : Builder :=
  { b with locals := b.locals.push (.ofName s!"%{b.locals.size}" ty .temporary) }

@[simps stem blocks locals scopes loops]
def addBound (b : Builder) (name : String) (ty : Option Ty) (kind : VarKind) (key : Symbol) :
    Builder :=
  { b with locals := (b.locals.push (.ofName name ty kind)).bind key b.nextSlot }

@[simps stem locals scopes loops]
def append (b : Builder) (l : Label) (dst : Slot) (op : Operation) (span : Span) : Builder :=
  { b with blocks := b.blocks.modify l (·.append ⟨dst, op, b.scopes.current, span⟩) }

@[simps stem locals scopes loops]
def close (b : Builder) (l : Label) (dst : Option Slot) (transfer : Transfer) (span : Span) :
    Builder :=
  { b with blocks := b.blocks.modify l (·.close ⟨dst, transfer, b.scopes.current, span⟩) }

@[simps stem blocks locals scopes loops]
def dropLoop (b : Builder) : Builder :=
  { b with loops := b.loops.tail, trace := b.trace ++ [.loopPopped b.loops.tail.length] }

@[simp] theorem enterScope_blocks (b : Builder) : b.enterScope.blocks = b.blocks := rfl

@[simp] theorem enterScope_locals (b : Builder) : b.enterScope.locals = b.locals := rfl

@[simp] theorem enterScope_scopes (b : Builder) : b.enterScope.scopes = b.scopes.enter := rfl

@[simp] theorem enterScope_loops (b : Builder) : b.enterScope.loops = b.loops := rfl

@[simp] theorem exitScope_blocks (b : Builder) : b.exitScope.blocks = b.blocks := rfl

@[simp] theorem exitScope_locals (b : Builder) : b.exitScope.locals = b.locals := rfl

@[simp] theorem exitScope_scopes (b : Builder) : b.exitScope.scopes = b.scopes.exit := rfl

@[simp] theorem exitScope_loops (b : Builder) : b.exitScope.loops = b.loops := rfl

@[simp] theorem pushLoop_blocks (b : Builder) (frame : LoopFrame) :
    (b.pushLoop frame).blocks = b.blocks := rfl

@[simp] theorem pushLoop_locals (b : Builder) (frame : LoopFrame) :
    (b.pushLoop frame).locals = b.locals := rfl

@[simp] theorem pushLoop_scopes (b : Builder) (frame : LoopFrame) :
    (b.pushLoop frame).scopes = b.scopes := rfl

@[simp] theorem pushLoop_loops (b : Builder) (frame : LoopFrame) :
    (b.pushLoop frame).loops = frame :: b.loops := rfl

def compute (b : Builder) (l : Label) (ty : Option Ty) (op : Operation) (span : Span) : Builder :=
  (b.addTemporary ty).append l b.nextSlot op span

def load (b : Builder) (l : Label) (value : Literal) (ty : Option Ty) (span : Span) : Builder :=
  b.compute l ty (.load value ty) span

def loadName (b : Builder) (l : Label) (name : Ident) : Builder :=
  b.load l (.string name.name) (some .string) name.span

def gotoFrom (b : Builder) (fin : Option Label) (target : Label) (span : Span) : Builder :=
  match fin with
  | some l => b.close l none (.goto target) span
  | none => b

@[simp] theorem gotoFrom_locals (b : Builder) (fin : Option Label) (target : Label) (span : Span) :
    (b.gotoFrom fin target span).locals = b.locals := by
  cases fin <;> rfl

@[simp] theorem isOpen_grow {b : Builder} {l : Label} :
    b.grow.IsOpen l ↔ b.IsOpen l ∨ l = b.nextLabel := openAt_snoc rfl

@[simp] theorem isOpen_append {b : Builder} {l m : Label} {dst : Slot} {op : Operation} {span : Span} :
    (b.append l dst op span).IsOpen m ↔ b.IsOpen m := openAt_append

@[simp] theorem isOpen_close {b : Builder} {l m : Label} {dst : Option Slot} {t : Transfer}
    {span : Span} : (b.close l dst t span).IsOpen m ↔ b.IsOpen m ∧ m ≠ l := openAt_close

@[simp] theorem nextLabel_grow (b : Builder) : b.grow.nextLabel = b.nextLabel + 1 := by
  simp [grow]

@[simp] theorem nextLabel_append (b : Builder) (l : Label) (dst : Slot) (op : Operation)
    (span : Span) : (b.append l dst op span).nextLabel = b.nextLabel := by
  simp [append]

@[simp] theorem nextLabel_close (b : Builder) (l : Label) (dst : Option Slot) (t : Transfer)
    (span : Span) : (b.close l dst t span).nextLabel = b.nextLabel := by
  simp [close]

@[simp] theorem nextSlot_compute (b : Builder) (l : Label) (ty : Option Ty) (op : Operation)
    (span : Span) : (b.compute l ty op span).nextSlot = b.nextSlot + 1 := by
  simp [compute]

@[simp] theorem nextSlot_load (b : Builder) (l : Label) (value : Literal) (ty : Option Ty)
    (span : Span) : (b.load l value ty span).nextSlot = b.nextSlot + 1 := nextSlot_compute ..

theorem getElem?_grow {b : Builder} {l : Label} (h : l ≠ b.nextLabel) :
    b.grow.blocks[l]? = b.blocks[l]? := by
  rcases Nat.lt_or_gt_of_ne h with hlt | hgt
  · exact List.getElem?_append_left hlt
  · have hlen : b.grow.blocks.length ≤ l := Nat.le_trans (Nat.le_of_eq (nextLabel_grow b)) hgt
    rw [List.getElem?_eq_none hlen, List.getElem?_eq_none (Nat.le_of_lt hgt)]

theorem getElem?_append {b : Builder} {l m : Label} {dst : Slot} {op : Operation} {span : Span}
    (h : m ≠ l) : (b.append l dst op span).blocks[m]? = b.blocks[m]? :=
  List.getElem?_modify_ne _ _ h.symm

theorem getElem?_close {b : Builder} {l m : Label} {dst : Option Slot} {t : Transfer} {span : Span}
    (h : m ≠ l) : (b.close l dst t span).blocks[m]? = b.blocks[m]? :=
  List.getElem?_modify_ne _ _ h.symm

end Builder

end FlowGraph

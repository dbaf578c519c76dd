import FlowGraph.Error
import FlowGraph.Graph.Basic

/-!
Structural soundness of graphs: every reference is in range, every entry of a table has its own
position as its number, and every block is closed. `defect?` finds the first flaw.
-/

namespace FlowGraph

inductive Defect where
  | noResultSlot
  | notResultSlot (kind : VarKind) (name : String)
  | resultElsewhere (slot : Slot)
  | localOutOfRange (place : String) (slot : Slot) (count : Nat)
  | notArgument (position : Nat)
  | scopeMisnumbered (position : Nat) (id : ScopeId)
  | parentAfterScope (position : Nat) (parent : ScopeId)
  | noBlock
  | blockMisplaced (name : String) (position : Nat)
  | scopeUnknown (place : String) (scope : ScopeId)
  | noTerminator (block : String)
  | missingTarget (block : String) (target : Label)
  deriving DecidableEq, Inhabited

def Defect.message : Defect → String
  | .noResultSlot => "no return slot"
  | .notResultSlot kind name => s!"local 0 must be the return slot, found {kind.text} `{name}`"
  | .resultElsewhere slot => s!"return variable points at local {slot}"
  | .localOutOfRange place slot count => s!"{place} refers to local {slot} of {count}"
  | .notArgument position => s!"parameter {position} is not an argument local"
  | .scopeMisnumbered position id => s!"scope at position {position} has id {id}"
  | .parentAfterScope position parent => s!"scope {position} has parent {parent} created after it"
  | .noBlock => "no entry block"
  | .blockMisplaced name position => s!"block {name} stored at position {position}"
  | .scopeUnknown place scope => s!"{place} is in unknown scope {scope}"
  | .noTerminator block => s!"block {block} has no terminator"
  | .missingTarget block target => s!"block {block} jumps to missing block {target}"

namespace Graph

def ensure (ok : Bool) (d : Defect) : Option Defect := if ok then none else some d

def slotDefect? (g : Graph) (place : String) (s : Slot) : Option Defect :=
  ensure (s < g.locals.length) (.localOutOfRange place s g.locals.length)

def resultDefect? (g : Graph) : Option Defect :=
  match g.locals with
  | [] => some .noResultSlot
  | first :: _ =>
    ensure (first.kind = .result) (.notResultSlot first.kind first.name) <|>
      ensure (g.resultSlot = 0) (.resultElsewhere g.resultSlot)

def paramDefect? (g : Graph) (position : Nat) (p : Slot) : Option Defect :=
  g.slotDefect? "parameter list" p <|>
    ensure ((g.local? p).any (·.kind = .argument)) (.notArgument position)

def scopeDefect? (position : Nat) (s : Scope) : Option Defect :=
  ensure (s.id = position) (.scopeMisnumbered position s.id) <|>
    s.parent.bind fun parent => ensure (parent < position) (.parentAfterScope position parent)

def operandDefect? (g : Graph) (block : BasicBlock) (opcode : Opcode) (dst : Option Slot)
    (sources : List Slot) (scope : ScopeId) : Option Defect :=
  let place := s!"{opcode.symbol} in {block.name}"
  dst.bind (g.slotDefect? place) <|> sources.findSome? (g.slotDefect? place) <|>
    ensure (scope < g.scopes.length) (.scopeUnknown place scope)

def instructionDefect? (g : Graph) (block : BasicBlock) (i : Instruction) : Option Defect :=
  g.operandDefect? block i.opcode (some i.dst) i.sources i.scope

def terminatorDefect? (g : Graph) (block : BasicBlock) : Option Defect :=
  match block.terminator with
  | none => some (.noTerminator block.name)
  | some t =>
    g.operandDefect? block t.opcode t.dst t.sources t.scope <|>
      t.successors.findSome? fun l =>
        ensure (l < g.blocks.length) (.missingTarget block.name l)

def blockDefect? (g : Graph) (position : Nat) (b : BasicBlock) : Option Defect :=
  ensure (b.id = position) (.blockMisplaced b.name position) <|>
    b.instructions.findSome? (g.instructionDefect? b) <|> g.terminatorDefect? b

/-- The first flaw of a graph: in its locals, then in its scopes, then in its blocks. -/
def defect? (g : Graph) : Option Defect :=
  g.resultDefect? <|>
    g.params.zipIdx.findSome? (fun (p, i) => g.paramDefect? i p) <|>
    g.scopes.zipIdx.findSome? (fun (s, i) => scopeDefect? i s) <|>
    ensure (g.blocks ≠ []) .noBlock <|>
    g.blocks.zipIdx.findSome? fun (b, i) => g.blockDefect? i b

def verify (g : Graph) : Except Error Unit :=
  match g.defect? with
  | none => .ok ()
  | some d => .error ⟨.malformed g.name d.message, g.span⟩

end Graph

end FlowGraph

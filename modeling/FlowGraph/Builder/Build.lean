import FlowGraph.Builder.Basic

/-!
Actions on a builder. An action that fails leaves the builder, and with it the trace, as it was when
the failure arose.
-/

namespace FlowGraph

abbrev Build := EStateM Error Builder

namespace Build

def step {α : Type} (f : Builder → Except Error (α × Builder)) : Build α := fun b =>
  match f b with
  | .ok (a, b) => .ok a b
  | .error e => .error e b

theorem bind_eq_ok_iff {α β : Type} {x : Build α} {f : α → Build β} {b b' : Builder} {r : β} :
    (x >>= f) b = .ok r b' ↔ ∃ a c, x b = .ok a c ∧ f a c = .ok r b' := by
  change EStateM.bind x f b = _ ↔ _
  unfold EStateM.bind
  cases x b with
  | ok a c => exact ⟨fun h => ⟨a, c, rfl, h⟩, fun ⟨_, _, e, h⟩ => by cases e; exact h⟩
  | error e c => simp

theorem step_eq_ok_iff {α : Type} {f : Builder → Except Error (α × Builder)} {b b' : Builder} {r : α} :
    step f b = .ok r b' ↔ f b = .ok (r, b') := by
  unfold step
  cases f b with
  | ok p => simp [Prod.ext_iff]
  | error e => simp

def fail {α : Type} (cause : Cause) (span : Span) : Build α := throw ⟨cause, span⟩

def addBlock : Build Label := modifyGet Builder.addBlock

def emit (l : Label) (dst : Slot) (op : Operation) (span : Span) : Build Unit :=
  step fun b => (b.emit l dst op span).map ((), ·)

def terminate (l : Label) (dst : Option Slot) (transfer : Transfer) (span : Span) : Build Unit :=
  step fun b => (b.terminate l dst transfer span).map ((), ·)

def goto (l target : Label) (span : Span) : Build Unit := terminate l none (.goto target) span

def onLocals {α : Type} (f : Locals → α × Locals) : Build α :=
  modifyGet fun b => ((f b.locals).1, { b with locals := (f b.locals).2 })

def allocate (name : String) (ty : Option Ty) (kind : VarKind) : Build Slot :=
  onLocals (·.allocate name ty kind)

def allocateBound (name : String) (ty : Option Ty) (kind : VarKind) (key : Symbol) : Build Slot :=
  onLocals (·.allocateBound name ty kind key)

def temporary (ty : Option Ty) : Build Slot := onLocals (·.allocateTemporary ty)

def lookup? (key : Symbol) : Build (Option Slot) := return (← get).locals.lookup? key

def loop? : Build (Option LoopFrame) := return (← get).loop?

def enterScope : Build Unit := modify Builder.enterScope

def exitScope : Build Unit := modify Builder.exitScope

def pushLoop (frame : LoopFrame) : Build Unit := modify (·.pushLoop frame)

def popLoop : Build LoopFrame := step Builder.popLoop

def compute (l : Label) (ty : Option Ty) (op : Operation) (span : Span) : Build Slot := do
  let dst ← temporary ty
  emit l dst op span
  return dst

def load (l : Label) (value : Literal) (ty : Option Ty) (span : Span) : Build Slot :=
  compute l ty (.load value ty) span

end Build

end FlowGraph

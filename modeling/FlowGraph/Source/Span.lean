namespace FlowGraph

structure Span where
  start : Nat := 0
  stop : Nat := 0
  deriving DecidableEq, Inhabited

namespace Span

def cover (a b : Span) : Span := ⟨min a.start b.start, max a.stop b.stop⟩

def isEmpty (s : Span) : Bool := s.stop ≤ s.start

def text (s : Span) : String := s!"{s.start}..{s.stop}"

@[simp] theorem cover_start (a b : Span) : (a.cover b).start = min a.start b.start := rfl

@[simp] theorem cover_stop (a b : Span) : (a.cover b).stop = max a.stop b.stop := rfl

theorem cover_comm (a b : Span) : a.cover b = b.cover a := by
  simp [cover, Nat.min_comm, Nat.max_comm]

end Span

structure Ident where
  name : String
  span : Span := {}
  deriving DecidableEq, Inhabited

namespace Ident

def isEmpty (i : Ident) : Bool := i.name.isEmpty

end Ident

end FlowGraph

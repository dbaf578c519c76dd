namespace FlowGraph

structure Symbol where
  space : Nat
  index : Nat
  deriving DecidableEq, Inhabited

def Symbol.text (s : Symbol) : String := s!"sym#{s.space}.{s.index}"

end FlowGraph

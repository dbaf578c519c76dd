import FlowGraph.Graph.Instruction
import FlowGraph.Source.PackageId

/-!
Terminators end a block: they pass control on, to one of their `successors` or out of the function,
and some of them speak to other strands of execution.
-/

namespace FlowGraph

abbrev Label := Nat

/-- A called function, by the package it lives in. The key is what it is found by. -/
structure Callee where
  name : String
  package : PackageId
  key : String
  deriving DecidableEq, Inhabited

def Callee.ofName (package : PackageId) (name : String) : Callee :=
  ⟨name, package, package.functionKey name⟩

inductive Transfer where
  | goto (target : Label)
  | call (args : List Slot) (callee : Callee) (isVirtual : Bool) (next : Label)
  | asyncCall (args : List Slot) (callee : Callee) (next : Label)
  | branch (cond : Slot) (whenTrue whenFalse : Label)
  | ret
  | panic (error : Slot)
  | wait (futures : List Slot) (next : Label)
  | waitAll (keys : List String) (futures : List Slot) (next : Label)
  | pointerCall (pointer : Slot) (args : List Slot) (isAsync : Bool) (next : Label)
  | receive (channel : String) (sameStrand : Bool) (next : Label)
  | send (channel : String) (data : Slot) (sameStrand isSync : Bool) (next : Label)
  | flush (channels : List String) (next : Label)
  | lock (next : Label)
  | fieldLock (base : Slot) (field : String) (next : Label)
  | unlock (next : Label)
  | receiveAny (channels : List String) (sameStrand : Bool) (next : Label)
  | receiveAll (receives : List (String × String)) (ty : Option Ty) (sameStrand : Bool)
      (next : Label)
  deriving DecidableEq, Inhabited

namespace Transfer

def opcode : Transfer → Opcode
  | .goto _ => .goto
  | .call _ _ _ _ => .call
  | .asyncCall _ _ _ => .asyncCall
  | .branch _ _ _ => .branch
  | .ret => .ret
  | .panic _ => .panic
  | .wait _ _ => .wait
  | .waitAll _ _ _ => .waitAll
  | .pointerCall _ _ _ _ => .fpCall
  | .receive _ _ _ => .workerReceive
  | .send _ _ _ _ _ => .workerSend
  | .flush _ _ => .flush
  | .lock _ => .lock
  | .fieldLock _ _ _ => .fieldLock
  | .unlock _ => .unlock
  | .receiveAny _ _ _ => .workerAlternateReceive
  | .receiveAll _ _ _ _ => .workerMultipleReceive

def successors : Transfer → List Label
  | .ret | .panic _ => []
  | .goto target => [target]
  | .branch _ whenTrue whenFalse => [whenTrue, whenFalse]
  | .call _ _ _ next | .asyncCall _ _ next | .wait _ next | .waitAll _ _ next
  | .pointerCall _ _ _ next | .receive _ _ next | .send _ _ _ _ next | .flush _ next | .lock next
  | .fieldLock _ _ next | .unlock next | .receiveAny _ _ next | .receiveAll _ _ _ next => [next]

def sources : Transfer → List Slot
  | .call args _ _ _ | .asyncCall args _ _ => args
  | .branch cond _ _ => [cond]
  | .panic error => [error]
  | .wait futures _ | .waitAll _ futures _ => futures
  | .pointerCall pointer args _ _ => pointer :: args
  | .send _ data _ _ _ => [data]
  | .fieldLock base _ _ => [base]
  | .goto _ | .ret | .receive _ _ _ | .flush _ _ | .lock _ | .unlock _ | .receiveAny _ _ _
  | .receiveAll _ _ _ _ => []

def holes : Transfer → Holes Transfer
  | .call args callee isVirtual next => .many args.length (.call · callee isVirtual next)
  | .asyncCall args callee next => .many args.length (.asyncCall · callee next)
  | .branch _ whenTrue whenFalse => .one (.branch · whenTrue whenFalse)
  | .panic _ => .one .panic
  | .wait futures next => .many futures.length (.wait · next)
  | .waitAll keys futures next => .many futures.length (.waitAll keys · next)
  | .pointerCall _ args isAsync next => .before (.pointerCall · · isAsync next) (.many args.length id)
  | .send channel _ sameStrand isSync next => .one (.send channel · sameStrand isSync next)
  | .fieldLock _ field next => .one (.fieldLock · field next)
  | .goto target => .none (.goto target)
  | .ret => .none .ret
  | .receive channel sameStrand next => .none (.receive channel sameStrand next)
  | .flush channels next => .none (.flush channels next)
  | .lock next => .none (.lock next)
  | .unlock next => .none (.unlock next)
  | .receiveAny channels sameStrand next => .none (.receiveAny channels sameStrand next)
  | .receiveAll receives ty sameStrand next => .none (.receiveAll receives ty sameStrand next)

end Transfer

structure Terminator where
  dst : Option Slot := none
  transfer : Transfer
  scope : ScopeId := 0
  span : Span := {}
  deriving DecidableEq, Inhabited

namespace Terminator

def opcode (t : Terminator) : Opcode := t.transfer.opcode

def sources (t : Terminator) : List Slot := t.transfer.sources

def successors (t : Terminator) : List Label := t.transfer.successors

def holes (t : Terminator) : Holes Terminator := t.transfer.holes.map fun transfer => { t with transfer }

def setSources (t : Terminator) (ops : List Slot) : Except ArityError Terminator :=
  t.holes.assign t.opcode ops

end Terminator

end FlowGraph

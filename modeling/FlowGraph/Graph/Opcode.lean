namespace FlowGraph

inductive Opcode where
  | goto
  | call
  | branch
  | ret
  | asyncCall
  | wait
  | fpCall
  | workerReceive
  | workerSend
  | flush
  | lock
  | fieldLock
  | unlock
  | waitAll
  | workerAlternateReceive
  | workerMultipleReceive
  | move
  | constLoad
  | newStructure
  | mapStore
  | mapLoad
  | newArray
  | arrayStore
  | arrayLoad
  | newError
  | typeCast
  | isLike
  | typeTest
  | newInstance
  | objectStore
  | objectLoad
  | panic
  | fpLoad
  | stringLoad
  | newXmlElement
  | newXmlText
  | newXmlComment
  | newXmlPi
  | newXmlSequence
  | newXmlQName
  | newStringXmlQName
  | xmlSeqStore
  | xmlSeqLoad
  | xmlLoad
  | xmlLoadAll
  | xmlAttributeLoad
  | xmlAttributeStore
  | newTable
  | newTypedesc
  | newStream
  | tableStore
  | tableLoad
  | add
  | sub
  | mul
  | div
  | mod
  | equal
  | notEqual
  | greaterThan
  | greaterEqual
  | lessThan
  | lessEqual
  | and
  | or
  | refEqual
  | refNotEqual
  | closedRange
  | halfOpenRange
  | annotAccess
  | typeof
  | not
  | negate
  | bitwiseAnd
  | bitwiseOr
  | bitwiseXor
  | bitwiseLeftShift
  | bitwiseRightShift
  | bitwiseUnsignedRightShift
  | platform
  deriving DecidableEq, Inhabited

namespace Opcode

inductive Family where
  | terminator
  | structural
  | binary
  | unary
  | platform
  deriving DecidableEq, Inhabited

def all : List Opcode :=
  [.goto, .call, .branch, .ret, .asyncCall, .wait, .fpCall, .workerReceive, .workerSend, .flush,
    .lock, .fieldLock, .unlock, .waitAll, .workerAlternateReceive, .workerMultipleReceive, .move,
    .constLoad, .newStructure, .mapStore, .mapLoad, .newArray, .arrayStore, .arrayLoad,
    .newError, .typeCast, .isLike, .typeTest, .newInstance, .objectStore, .objectLoad, .panic,
    .fpLoad, .stringLoad, .newXmlElement, .newXmlText, .newXmlComment, .newXmlPi,
    .newXmlSequence, .newXmlQName, .newStringXmlQName, .xmlSeqStore, .xmlSeqLoad, .xmlLoad,
    .xmlLoadAll, .xmlAttributeLoad, .xmlAttributeStore, .newTable, .newTypedesc, .newStream,
    .tableStore, .tableLoad, .add, .sub, .mul, .div, .mod, .equal, .notEqual, .greaterThan,
    .greaterEqual, .lessThan, .lessEqual, .and, .or, .refEqual, .refNotEqual, .closedRange,
    .halfOpenRange, .annotAccess, .typeof, .not, .negate, .bitwiseAnd, .bitwiseOr, .bitwiseXor,
    .bitwiseLeftShift, .bitwiseRightShift, .bitwiseUnsignedRightShift, .platform]

def code : Opcode → Nat
  | .goto => 1
  | .call => 2
  | .branch => 3
  | .ret => 4
  | .asyncCall => 5
  | .wait => 6
  | .fpCall => 7
  | .workerReceive => 8
  | .workerSend => 9
  | .flush => 10
  | .lock => 11
  | .fieldLock => 12
  | .unlock => 13
  | .waitAll => 14
  | .workerAlternateReceive => 15
  | .workerMultipleReceive => 16
  | .move => 20
  | .constLoad => 21
  | .newStructure => 22
  | .mapStore => 23
  | .mapLoad => 24
  | .newArray => 25
  | .arrayStore => 26
  | .arrayLoad => 27
  | .newError => 28
  | .typeCast => 29
  | .isLike => 30
  | .typeTest => 31
  | .newInstance => 32
  | .objectStore => 33
  | .objectLoad => 34
  | .panic => 35
  | .fpLoad => 36
  | .stringLoad => 37
  | .newXmlElement => 38
  | .newXmlText => 39
  | .newXmlComment => 40
  | .newXmlPi => 41
  | .newXmlSequence => 42
  | .newXmlQName => 43
  | .newStringXmlQName => 44
  | .xmlSeqStore => 45
  | .xmlSeqLoad => 46
  | .xmlLoad => 47
  | .xmlLoadAll => 48
  | .xmlAttributeLoad => 49
  | .xmlAttributeStore => 50
  | .newTable => 51
  | .newTypedesc => 52
  | .newStream => 53
  | .tableStore => 54
  | .tableLoad => 55
  | .add => 61
  | .sub => 62
  | .mul => 63
  | .div => 64
  | .mod => 65
  | .equal => 66
  | .notEqual => 67
  | .greaterThan => 68
  | .greaterEqual => 69
  | .lessThan => 70
  | .lessEqual => 71
  | .and => 72
  | .or => 73
  | .refEqual => 74
  | .refNotEqual => 75
  | .closedRange => 76
  | .halfOpenRange => 77
  | .annotAccess => 78
  | .typeof => 80
  | .not => 81
  | .negate => 82
  | .bitwiseAnd => 83
  | .bitwiseOr => 84
  | .bitwiseXor => 85
  | .bitwiseLeftShift => 86
  | .bitwiseRightShift => 87
  | .bitwiseUnsignedRightShift => 88
  | .platform => 128

def name : Opcode → String
  | .goto => "Goto"
  | .call => "Call"
  | .branch => "Branch"
  | .ret => "Return"
  | .asyncCall => "AsyncCall"
  | .wait => "Wait"
  | .fpCall => "FpCall"
  | .workerReceive => "WorkerReceive"
  | .workerSend => "WorkerSend"
  | .flush => "Flush"
  | .lock => "Lock"
  | .fieldLock => "FieldLock"
  | .unlock => "Unlock"
  | .waitAll => "WaitAll"
  | .workerAlternateReceive => "WorkerAlternateReceive"
  | .workerMultipleReceive => "WorkerMultipleReceive"
  | .move => "Move"
  | .constLoad => "ConstLoad"
  | .newStructure => "NewStructure"
  | .mapStore => "MapStore"
  | .mapLoad => "MapLoad"
  | .newArray => "NewArray"
  | .arrayStore => "ArrayStore"
  | .arrayLoad => "ArrayLoad"
  | .newError => "NewError"
  | .typeCast => "TypeCast"
  | .isLike => "IsLike"
  | .typeTest => "TypeTest"
  | .newInstance => "NewInstance"
  | .objectStore => "ObjectStore"
  | .objectLoad => "ObjectLoad"
  | .panic => "Panic"
  | .fpLoad => "FpLoad"
  | .stringLoad => "StringLoad"
  | .newXmlElement => "NewXmlElement"
  | .newXmlText => "NewXmlText"
  | .newXmlComment => "NewXmlComment"
  | .newXmlPi => "NewXmlPi"
  | .newXmlSequence => "NewXmlSequence"
  | .newXmlQName => "NewXmlQName"
  | .newStringXmlQName => "NewStringXmlQName"
  | .xmlSeqStore => "XmlSeqStore"
  | .xmlSeqLoad => "XmlSeqLoad"
  | .xmlLoad => "XmlLoad"
  | .xmlLoadAll => "XmlLoadAll"
  | .xmlAttributeLoad => "XmlAttributeLoad"
  | .xmlAttributeStore => "XmlAttributeStore"
  | .newTable => "NewTable"
  | .newTypedesc => "NewTypedesc"
  | .newStream => "NewStream"
  | .tableStore => "TableStore"
  | .tableLoad => "TableLoad"
  | .add => "Add"
  | .sub => "Sub"
  | .mul => "Mul"
  | .div => "Div"
  | .mod => "Mod"
  | .equal => "Equal"
  | .notEqual => "NotEqual"
  | .greaterThan => "GreaterThan"
  | .greaterEqual => "GreaterEqual"
  | .lessThan => "LessThan"
  | .lessEqual => "LessEqual"
  | .and => "And"
  | .or => "Or"
  | .refEqual => "RefEqual"
  | .refNotEqual => "RefNotEqual"
  | .closedRange => "ClosedRange"
  | .halfOpenRange => "HalfOpenRange"
  | .annotAccess => "AnnotAccess"
  | .typeof => "Typeof"
  | .not => "Not"
  | .negate => "Negate"
  | .bitwiseAnd => "BitwiseAnd"
  | .bitwiseOr => "BitwiseOr"
  | .bitwiseXor => "BitwiseXor"
  | .bitwiseLeftShift => "BitwiseLeftShift"
  | .bitwiseRightShift => "BitwiseRightShift"
  | .bitwiseUnsignedRightShift => "BitwiseUnsignedRightShift"
  | .platform => "Platform"

def symbol : Opcode → String
  | .goto => "GOTO"
  | .call => "call"
  | .branch => "branch"
  | .ret => "return"
  | .asyncCall => "async"
  | .wait => "wait"
  | .fpCall => "fpcall"
  | .workerReceive => "wrk_receive"
  | .workerSend => "wrk_send"
  | .flush => "flush"
  | .lock => "lock"
  | .fieldLock => "field_lock"
  | .unlock => "unlock"
  | .waitAll => "wait_all"
  | .workerAlternateReceive => "wrk_alt_receive"
  | .workerMultipleReceive => "wrk_mul_receive"
  | .move => "move"
  | .constLoad => "ConstantLoad"
  | .newStructure => "newMap"
  | .mapStore => "mapStore"
  | .mapLoad => "mapLoad"
  | .newArray => "newArray"
  | .arrayStore => "arrayStore"
  | .arrayLoad => "arrayLoad"
  | .newError => "newError"
  | .typeCast => "typeCast"
  | .isLike => "isLike"
  | .typeTest => "typeTest"
  | .newInstance => "newObject"
  | .objectStore => "objectStore"
  | .objectLoad => "objectLoad"
  | .panic => "panic"
  | .fpLoad => "fpLoad"
  | .stringLoad => "stringLoad"
  | .newXmlElement => "newXMLElement"
  | .newXmlText => "newXMLText"
  | .newXmlComment => "newXMLComment"
  | .newXmlPi => "newXMLPI"
  | .newXmlSequence => "newXMLSequence"
  | .newXmlQName => "newXMLQName"
  | .newStringXmlQName => "newStringXMLQName"
  | .xmlSeqStore => "xmlSeqStore"
  | .xmlSeqLoad => "xmlSeqLoad"
  | .xmlLoad => "xmlLoad"
  | .xmlLoadAll => "xmlLoadAll"
  | .xmlAttributeLoad => "xmlAttrLoad"
  | .xmlAttributeStore => "xmlAttrStore"
  | .newTable => "newTable"
  | .newTypedesc => "newTypedesc"
  | .newStream => "newStream"
  | .tableStore => "tableStore"
  | .tableLoad => "tableLoad"
  | .add => "+"
  | .sub => "-"
  | .mul => "*"
  | .div => "/"
  | .mod => "%"
  | .equal => "=="
  | .notEqual => "!="
  | .greaterThan => ">"
  | .greaterEqual => ">="
  | .lessThan => "<"
  | .lessEqual => "<="
  | .and => "&&"
  | .or => "||"
  | .refEqual => "==="
  | .refNotEqual => "!=="
  | .closedRange => "..."
  | .halfOpenRange => "..<"
  | .annotAccess => ".@"
  | .typeof => "typeof"
  | .not => "!"
  | .negate => "-"
  | .bitwiseAnd => "&"
  | .bitwiseOr => "|"
  | .bitwiseXor => "^"
  | .bitwiseLeftShift => "<<"
  | .bitwiseRightShift => ">>"
  | .bitwiseUnsignedRightShift => ">>>"
  | .platform => "platform"

def ofCode? (n : Nat) : Option Opcode := all.find? (·.code == n)

def ofName? (s : String) : Option Opcode := all.find? (·.name == s)

def family (k : Opcode) : Family :=
  if k.code ≤ 19 then .terminator
  else if k.code ≤ 60 then .structural
  else if k.code ≤ 79 then .binary
  else if k.code ≤ 127 then .unary
  else .platform

/-- Does the opcode end a block? A panic does, although its code is among the structural ones. -/
def isTerminator (k : Opcode) : Bool := k.family == .terminator || k == .panic

/-- Does the opcode take two operands? The bitwise operators do, although their codes are among the
unary ones. -/
def isBinary (k : Opcode) : Bool :=
  k.family == .binary ||
    [.bitwiseAnd, .bitwiseOr, .bitwiseXor, .bitwiseLeftShift, .bitwiseRightShift,
      .bitwiseUnsignedRightShift].contains k

def isUnary (k : Opcode) : Bool := [.typeof, .not, .negate].contains k

theorem mem_all (k : Opcode) : k ∈ all := by cases k <;> decide

@[simp] theorem ofCode?_code (k : Opcode) : ofCode? k.code = some k := by cases k <;> rfl

end Opcode

end FlowGraph

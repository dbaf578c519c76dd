import FlowGraph.Lowering.Expr
import FlowGraph.Proofs.Check
import Mathlib.Logic.Function.Basic

/-!
What functions and graphs mean, over values and machine states that are left open. Functions are
evaluated over variables by reference key, graphs over slots; both run on fuel and give nothing when
it is used up, which only loops and jumps can bring about.
-/

namespace FlowGraph

universe u v

structure Interp (V : Type u) (S : Type v) where
  unset : V
  truth : V → Bool
  const : Literal → Option Ty → V
  unary : UnOp → S → V → V × S
  binary : BinOp → S → V → V → V × S
  cast : Option Ty → S → V → V × S
  test : Option Ty → Bool → S → V → V × S
  list : Option Ty → S → V → List V → V × S
  mapping : Option Ty → S → List (V × V) → V × S
  load : Access → S → V → V → V × S
  store : Access → S → V → V → V → S
  lock : S → S
  unlock : S → S
  call : String → S → List V → V × S

inductive Outcome (V : Type u) (S : Type v) where
  | returned (value : V) (state : S)
  | panicked (error : V) (state : S)
  | stuck

/-- Where control goes after a statement, with the variables as they are then. -/
inductive Flow (V : Type u) (S : Type v) where
  | next (σ : Symbol → V) (s : S)
  | broke (σ : Symbol → V) (s : S)
  | continued (σ : Symbol → V) (s : S)
  | halted (outcome : Outcome V S)

def Flow.andThen {V : Type u} {S : Type v} (flow : Option (Flow V S))
    (k : (Symbol → V) → S → Option (Flow V S)) : Option (Flow V S) :=
  match flow with
  | some (.next σ s) => k σ s
  | other => other

def Flow.outcome {V : Type u} {S : Type v} (unset : V) : Flow V S → Outcome V S
  | .next _ s => .returned unset s
  | .halted o => o
  | _ => .stuck

mutual

/-- The keys of the definitions that control can come to, the latest first. -/
def Stmt.declares (refKey : Symbol → Symbol) : Stmt → List Symbol
  | .define _ var => [refKey var.symbol]
  | .block _ body | .ifThen _ _ body | .whileLoop _ _ body | .lock _ body => body.declares refKey
  | .ifElse _ _ body otherwise => otherwise.declares refKey ++ body.declares refKey
  | _ => []

def Block.declares (refKey : Symbol → Symbol) : Block → List Symbol
  | .mk stmts _ => declaresList refKey stmts

def declaresList (refKey : Symbol → Symbol) : List Stmt → List Symbol
  | [] => []
  | s :: stmts =>
    if s.leaves then s.declares refKey else declaresList refKey stmts ++ s.declares refKey

end

def FunctionDef.paramKeys (refKey : Symbol → Symbol) (f : FunctionDef) : List Symbol :=
  f.params.map fun p => refKey p.symbol

def FunctionDef.declares (refKey : Symbol → Symbol) (f : FunctionDef) : List Symbol :=
  match f.body with
  | .block body => declaresList refKey body.stmts ++ (f.paramKeys refKey).reverse
  | _ => (f.paramKeys refKey).reverse

namespace Interp

variable {V : Type u} {S : Type v} (I : Interp V S)

def bind {α : Type} [DecidableEq α] : List α → List V → α → V
  | [], _ => fun _ => I.unset
  | x :: xs, vs => Function.update (bind xs vs.tail) x (vs.headD I.unset)

def fieldName (name : Ident) : V := I.const (.string name.name) (some .string)

section Source

variable (env : Env)

def lookup (keys : List Symbol) (σ : Symbol → V) (key : Symbol) : V :=
  if key ∈ keys then σ key
  else match env.constant? key with
    | some c => I.const c.value c.ty
    | none => I.unset

mutual

/-- The value of an expression, where `keys` are the variables declared so far. Expressions change
the state but no variable. -/
def expr (keys : List Symbol) (σ : Symbol → V) : Expr → S → V × S
  | .literal note value, s => (I.const value note.ty, s)
  | .var _ _ symbol, s => (I.lookup env keys σ (env.refKey symbol), s)
  | .binary _ op lhs rhs, s =>
    let x := expr keys σ lhs s
    let y := expr keys σ rhs x.2
    I.binary op y.2 x.1 y.1
  | .unary _ op operand, s =>
    let x := expr keys σ operand s
    I.unary op x.2 x.1
  | .call _ qualifier name args, s =>
    match env.callee qualifier name with
    | .ok callee =>
      let xs := exprs keys σ args s
      I.call callee.key xs.2 xs.1
    | .error _ => (I.unset, s)
  | .index _ container key, s =>
    let k := expr keys σ key s
    let c := expr keys σ container k.2
    I.load (.loadFrom container) c.2 c.1 k.1
  | .list _ elements elementTy, s =>
    let xs := exprs keys σ elements s
    I.list elementTy xs.2 (I.const (.int (.ofNat elements.length)) (some .int)) xs.1
  | .cast note operand target, s =>
    let x := expr keys σ operand s
    I.cast (target.ty <|> note.ty) x.2 x.1
  | .test _ operand target negated, s =>
    let x := expr keys σ operand s
    I.test target.ty negated x.2 x.1
  | .group _ inner, s => expr keys σ inner s
  | .wildcard _, s => (I.unset, s)
  | .field _ base name, s =>
    let c := expr keys σ base s
    I.load .mapLoad c.2 c.1 (I.fieldName name)
  | .mapping note fields, s =>
    let xs := members keys σ fields s
    I.mapping (note.ty <|> some .map) xs.2 xs.1
  | .ternary _ cond whenTrue whenFalse, s =>
    let c := expr keys σ cond s
    if I.truth c.1 then expr keys σ whenTrue c.2 else expr keys σ whenFalse c.2

def exprs (keys : List Symbol) (σ : Symbol → V) : List Expr → S → List V × S
  | [], s => ([], s)
  | e :: es, s =>
    let x := expr keys σ e s
    let xs := exprs keys σ es x.2
    (x.1 :: xs.1, xs.2)

def members (keys : List Symbol) (σ : Symbol → V) : List (Ident × Expr) → S → List (V × V) × S
  | [], s => ([], s)
  | (name, e) :: fields, s =>
    let x := expr keys σ e s
    let xs := members keys σ fields x.2
    ((I.fieldName name, x.1) :: xs.1, xs.2)

end

def assign (keys : List Symbol) (σ : Symbol → V) (target : Expr) (value : V) (s : S) :
    (Symbol → V) × S :=
  match target with
  | .var _ _ symbol => (Function.update σ (env.refKey symbol) value, s)
  | .index _ container key =>
    let c := I.expr env keys σ container s
    let k := I.expr env keys σ key c.2
    (σ, I.store (.storeInto container) k.2 c.1 k.1 value)
  | .field _ base name =>
    let c := I.expr env keys σ base s
    (σ, I.store .mapStore c.2 c.1 (I.fieldName name) value)
  | _ => (σ, s)

def loop (cond : (Symbol → V) → S → V × S) (body : (Symbol → V) → S → Option (Flow V S)) :
    Nat → (Symbol → V) → S → Option (Flow V S)
  | 0, _, _ => none
  | n + 1, σ, s =>
    let c := cond σ s
    if I.truth c.1 then
      match body σ c.2 with
      | some (.next σ s) | some (.continued σ s) => loop cond body n σ s
      | some (.broke σ s) => some (.next σ s)
      | other => other
    else some (.next σ c.2)

mutual

def stmt (fuel : Nat) (keys : List Symbol) : Stmt → (Symbol → V) → S → Option (Flow V S)
  | .expr _ e, σ, s => some (.next σ (I.expr env keys σ e s).2)
  | .block _ body, σ, s => block fuel keys body σ s
  | .ifThen _ cond body, σ, s =>
    let c := I.expr env keys σ cond s
    if I.truth c.1 then block fuel keys body σ c.2 else some (.next σ c.2)
  | .ifElse _ cond body otherwise, σ, s =>
    let c := I.expr env keys σ cond s
    if I.truth c.1 then block fuel keys body σ c.2
    else stmt fuel (body.declares env.refKey ++ keys) otherwise σ c.2
  | .whileLoop _ cond body, σ, s =>
    I.loop (fun σ s => I.expr env keys σ cond s) (fun σ s => block fuel keys body σ s) fuel σ s
  | .ret _ none, _, s => some (.halted (.returned I.unset s))
  | .ret _ (some e), σ, s =>
    let x := I.expr env keys σ e s
    some (.halted (.returned x.1 x.2))
  | .breakLoop _, σ, s => some (.broke σ s)
  | .continueLoop _, σ, s => some (.continued σ s)
  | .define _ var, σ, s =>
    match var.init with
    | none => some (.next σ s)
    | some init =>
      let x := I.expr env keys σ init s
      some (.next (Function.update σ (env.refKey var.symbol) x.1) x.2)
  | .assign _ target value, σ, s =>
    let x := I.expr env keys σ value s
    let r := I.assign env keys σ target x.1 x.2
    some (.next r.1 r.2)
  | .update _ op target value _, σ, s =>
    let x := I.expr env keys σ target s
    let y := I.expr env keys σ value x.2
    let z := I.binary op y.2 x.1 y.1
    let r := I.assign env keys σ target z.1 z.2
    some (.next r.1 r.2)
  | .panic _ e, σ, s =>
    let x := I.expr env keys σ e s
    some (.halted (.panicked x.1 x.2))
  | .lock _ body, σ, s =>
    Flow.andThen (block fuel keys body σ (I.lock s)) fun σ s => some (.next σ (I.unlock s))
  | .foreach _ _ _ _, _, _ => some (.halted .stuck)

def block (fuel : Nat) (keys : List Symbol) : Block → (Symbol → V) → S → Option (Flow V S)
  | .mk ss _, σ, s => stmts fuel keys ss σ s

def stmts (fuel : Nat) (keys : List Symbol) : List Stmt → (Symbol → V) → S → Option (Flow V S)
  | [], σ, s => some (.next σ s)
  | st :: ss, σ, s =>
    Flow.andThen (stmt fuel keys st σ s) fun σ s => stmts fuel (st.declares env.refKey ++ keys) ss σ s

end

def function (f : FunctionDef) (fuel : Nat) (args : List V) (s : S) : Option (Outcome V S) :=
  let keys := f.paramKeys env.refKey
  let σ := I.bind keys args
  match f.body with
  | .block body => (I.stmts env fuel keys.reverse body.stmts σ s).map (Flow.outcome I.unset)
  | .expr value =>
    let x := I.expr env keys.reverse σ value s
    some (.returned x.1 x.2)
  | .external => some .stuck

end Source

section Graph

def entries (ρ : Slot → V) : List MapEntry → Option (List (V × V))
  | [] => some []
  | .pair key value :: es => (entries ρ es).map ((ρ key, ρ value) :: ·)
  | .spread _ :: _ => none

/-- The value that an operation gives its destination. An opcode computes the operator that has its
name. -/
def compute (ρ : Slot → V) (s : S) : Operation → Option (V × S)
  | .move source => some (ρ source, s)
  | .load value ty => some (I.const value ty, s)
  | .newMap ty es => (entries ρ es).map (I.mapping ty s)
  | .newArray elementTy size values => some (I.list elementTy s (ρ size) (values.map ρ))
  | .access how key source => some (I.load how s (ρ source) (ρ key))
  | .cast source ty => some (I.cast ty s (ρ source))
  | .test source ty negated => some (I.test ty negated s (ρ source))
  | .binary code lhs rhs => (BinOp.ofName? code.name).map (I.binary · s (ρ lhs) (ρ rhs))
  | .unary code source => (UnOp.ofName? code.name).map (I.unary · s (ρ source))
  | _ => none

def instruction (i : Instruction) (ρ : Slot → V) (s : S) : Option ((Slot → V) × S) :=
  match i.op, i.op.isStore with
  | .access how key source, true => some (ρ, I.store how s (ρ i.dst) (ρ key) (ρ source))
  | op, _ => (I.compute ρ s op).map fun x => (Function.update ρ i.dst x.1, x.2)

def code : List Instruction → (Slot → V) → S → Option ((Slot → V) × S)
  | [], ρ, s => some (ρ, s)
  | i :: is, ρ, s => (I.instruction i ρ s).bind fun r => code is r.1 r.2

inductive Next (V : Type u) (S : Type v) where
  | jump (l : Label) (ρ : Slot → V) (s : S)
  | halt (outcome : Outcome V S)

def terminator (resultSlot : Slot) (t : Terminator) (ρ : Slot → V) (s : S) : Next V S :=
  match t.transfer with
  | .goto target => .jump target ρ s
  | .branch cond whenTrue whenFalse => .jump (if I.truth (ρ cond) then whenTrue else whenFalse) ρ s
  | .call args callee _ next =>
    let x := I.call callee.key s (args.map ρ)
    .jump next (match t.dst with | some dst => Function.update ρ dst x.1 | none => ρ) x.2
  | .ret => .halt (.returned (ρ resultSlot) s)
  | .panic error => .halt (.panicked (ρ error) s)
  | .lock next => .jump next ρ (I.lock s)
  | .unlock next => .jump next ρ (I.unlock s)
  | _ => .halt .stuck

/-- A place in a graph, before the instruction of that index, and what the slots hold there. -/
structure Config (V : Type u) (S : Type v) where
  label : Label
  index : Nat
  ρ : Slot → V
  s : S

def run (g : Graph) : Nat → Config V S → Option (Outcome V S)
  | 0, _ => none
  | n + 1, c =>
    match g.block? c.label with
    | none => some .stuck
    | some block =>
      match I.code (block.instructions.drop c.index) c.ρ c.s, block.terminator with
      | some (ρ, s), some t =>
        match I.terminator g.resultSlot t ρ s with
        | .jump l ρ s => run g n ⟨l, 0, ρ, s⟩
        | .halt o => some o
      | _, _ => some .stuck

def graph (g : Graph) (fuel : Nat) (args : List V) (s : S) : Option (Outcome V S) :=
  I.run g fuel ⟨0, 0, I.bind g.params args, s⟩

end Graph

end Interp

end FlowGraph

import FlowGraph.Graph.Terminator
import Mathlib.Data.List.OfFn

/-!
Replacing the operands of instructions and terminators. Operands that were put in are read back in
the same order, and all else that an instruction or a terminator says stays as it is.
-/

namespace FlowGraph

def MapEntry.isPair : MapEntry → Bool
  | .pair _ _ => true
  | .spread _ => false

inductive Operation.Alike : Operation → Operation → Prop
  | move {s s'} : Alike (.move s) (.move s')
  | load {value ty} : Alike (.load value ty) (.load value ty)
  | newMap {ty entries entries'} : entries.map MapEntry.isPair = entries'.map MapEntry.isPair →
    Alike (.newMap ty entries) (.newMap ty entries')
  | newArray {ty size size' values values'} : values.length = values'.length →
    Alike (.newArray ty size values) (.newArray ty size' values')
  | newError {ty message message' cause cause' detail detail'} :
    Alike (.newError ty message cause detail) (.newError ty message' cause' detail')
  | newObject {className} : Alike (.newObject className) (.newObject className)
  | newTypedesc {ty} : Alike (.newTypedesc ty) (.newTypedesc ty)
  | access {how key key' source source'} : Alike (.access how key source) (.access how key' source')
  | cast {s s' ty} : Alike (.cast s ty) (.cast s' ty)
  | test {s s' ty negated} : Alike (.test s ty negated) (.test s' ty negated)
  | isLike {s s' ty} : Alike (.isLike s ty) (.isLike s' ty)
  | functionPointer {key closure closure'} : closure.length = closure'.length →
    Alike (.functionPointer key closure) (.functionPointer key closure')
  | binary {op lhs lhs' rhs rhs'} : Alike (.binary op lhs rhs) (.binary op lhs' rhs')
  | unary {op s s'} : Alike (.unary op s) (.unary op s')
  | platform {name operands operands'} : operands.length = operands'.length →
    Alike (.platform name operands) (.platform name operands')

inductive Transfer.Alike : Transfer → Transfer → Prop
  | goto {target} : Alike (.goto target) (.goto target)
  | call {args args' callee isVirtual next} : args.length = args'.length →
    Alike (.call args callee isVirtual next) (.call args' callee isVirtual next)
  | asyncCall {args args' callee next} : args.length = args'.length →
    Alike (.asyncCall args callee next) (.asyncCall args' callee next)
  | branch {cond cond' whenTrue whenFalse} :
    Alike (.branch cond whenTrue whenFalse) (.branch cond' whenTrue whenFalse)
  | ret : Alike .ret .ret
  | panic {error error'} : Alike (.panic error) (.panic error')
  | wait {futures futures' next} : futures.length = futures'.length →
    Alike (.wait futures next) (.wait futures' next)
  | waitAll {keys futures futures' next} : futures.length = futures'.length →
    Alike (.waitAll keys futures next) (.waitAll keys futures' next)
  | pointerCall {pointer pointer' args args' isAsync next} : args.length = args'.length →
    Alike (.pointerCall pointer args isAsync next) (.pointerCall pointer' args' isAsync next)
  | receive {channel sameStrand next} :
    Alike (.receive channel sameStrand next) (.receive channel sameStrand next)
  | send {channel data data' sameStrand isSync next} :
    Alike (.send channel data sameStrand isSync next) (.send channel data' sameStrand isSync next)
  | flush {channels next} : Alike (.flush channels next) (.flush channels next)
  | lock {next} : Alike (.lock next) (.lock next)
  | fieldLock {base base' field next} : Alike (.fieldLock base field next) (.fieldLock base' field next)
  | unlock {next} : Alike (.unlock next) (.unlock next)
  | receiveAny {channels sameStrand next} :
    Alike (.receiveAny channels sameStrand next) (.receiveAny channels sameStrand next)
  | receiveAll {receives ty sameStrand next} :
    Alike (.receiveAll receives ty sameStrand next) (.receiveAll receives ty sameStrand next)

theorem exists_ofFn {n : Nat} {ops : List Slot} (h : ops.length = n) :
    ∃ v : Fin n → Slot, List.ofFn v = ops := by
  subst h
  exact ⟨ops.get, List.ofFn_get ops⟩

namespace Holes

variable {α : Type} {h : Holes α} {opcode : Opcode} {ops : List Slot}

theorem assign_eq_ok_iff {a : α} : h.assign opcode ops = .ok a ↔ ∃ v, List.ofFn v = ops ∧ h.fill v = a := by
  constructor
  · intro ha
    unfold assign at ha
    split at ha
    next hlen =>
      obtain rfl := Except.ok.inj ha
      exact ⟨_, (List.ofFn_congr hlen _).symm.trans (List.ofFn_get ops), rfl⟩
    next => cases ha
  · rintro ⟨v, rfl, rfl⟩
    simp [assign]

theorem assign_eq_error_iff {e : ArityError} :
    h.assign opcode ops = .error e ↔ ops.length ≠ h.count ∧ e = ⟨opcode, h.count, ops.length⟩ := by
  unfold assign
  split
  next hlen => simp [hlen]
  next hlen => simp [hlen, @eq_comm _ e]

end Holes

namespace MapEntry

variable {entries entries' : List MapEntry}

theorem isPair_fill (entries : List MapEntry) (v : Fin (holes entries).count → Slot) :
    entries.map isPair = ((holes entries).fill v).map isPair := by
  induction entries with
  | nil => rfl
  | cons e entries ih => cases e <;> exact congrArg (List.cons _) (ih _)

theorem sources_fill (entries : List MapEntry) (v : Fin (holes entries).count → Slot) :
    ((holes entries).fill v).flatMap sources = List.ofFn v := by
  induction entries with
  | nil => rfl
  | cons e entries ih =>
    cases e with
    | pair =>
      refine (congrArg (_ :: _ :: ·) (ih _)).trans ?_
      exact (List.ofFn_succ.trans (congrArg _ List.ofFn_succ)).symm
    | spread => exact (congrArg (_ :: ·) (ih _)).trans List.ofFn_succ.symm

theorem exists_fill (h : entries.map isPair = entries'.map isPair) :
    ∃ v, (holes entries).fill v = entries' := by
  induction entries generalizing entries' with
  | nil =>
    obtain rfl : entries' = [] := by simpa using h.symm
    exact ⟨nofun, rfl⟩
  | cons e entries ih =>
    cases entries' with
    | nil => simp at h
    | cons e' entries' =>
      obtain ⟨hkind, hrest⟩ := List.cons.inj h
      obtain ⟨v, rfl⟩ := ih hrest
      match e, e' with
      | .pair _ _, .pair key value => exact ⟨Fin.cons key (Fin.cons value v), rfl⟩
      | .spread _, .spread source => exact ⟨Fin.cons source v, rfl⟩

end MapEntry

namespace Operation

variable {op op' : Operation}

theorem alike_equivalence : Equivalence Alike where
  refl op := by cases op <;> constructor <;> rfl
  symm h := by cases h <;> constructor <;> simp [*]
  trans h h' := by cases h <;> cases h' <;> constructor <;> simp [*]

theorem Alike.opcode_eq (h : op.Alike op') : op'.opcode = op.opcode := by
  cases h <;> rfl

theorem alike_fill (op : Operation) (v : Fin op.holes.count → Slot) : op.Alike (op.holes.fill v) := by
  cases op with
  | newMap ty entries => exact .newMap (MapEntry.isPair_fill entries v)
  | newArray | functionPointer | platform => exact by constructor; exact List.length_ofFn.symm
  | _ => constructor

theorem sources_fill (op : Operation) (v : Fin op.holes.count → Slot) :
    (op.holes.fill v).sources = List.ofFn v := by
  cases op with
  | newMap ty entries => exact MapEntry.sources_fill entries v
  | newArray => exact List.ofFn_succ.symm
  | _ => rfl

theorem Alike.exists_fill (h : op.Alike op') : ∃ v, op.holes.fill v = op' := by
  cases h with
  | @newMap ty _ _ h =>
    obtain ⟨v, hv⟩ := MapEntry.exists_fill h
    exact ⟨v, congrArg (Operation.newMap ty) hv⟩
  | @newArray ty _ size' _ _ h =>
    obtain ⟨v, rfl⟩ := exists_ofFn h.symm
    exact ⟨Fin.cons size' v, rfl⟩
  | functionPointer h | platform h =>
    obtain ⟨v, rfl⟩ := exists_ofFn h.symm
    exact ⟨v, rfl⟩
  | load | newObject | newTypedesc => exact ⟨nofun, rfl⟩
  | @newError _ _ message' _ cause' _ detail' => exact ⟨[message', cause', detail'].get, rfl⟩
  | @access _ _ s _ s' | @binary _ _ s _ s' => exact ⟨[s, s'].get, rfl⟩
  | @move _ s | @cast _ s | @test _ s | @isLike _ s | @unary _ _ s => exact ⟨[s].get, rfl⟩

end Operation

namespace Transfer

variable {t t' : Transfer}

theorem alike_equivalence : Equivalence Alike where
  refl t := by cases t <;> constructor <;> rfl
  symm h := by cases h <;> constructor <;> simp [*]
  trans h h' := by cases h <;> cases h' <;> constructor <;> simp [*]

theorem Alike.opcode_eq (h : t.Alike t') : t'.opcode = t.opcode := by
  cases h <;> rfl

theorem Alike.successors_eq (h : t.Alike t') : t'.successors = t.successors := by
  cases h <;> rfl

theorem alike_fill (t : Transfer) (v : Fin t.holes.count → Slot) : t.Alike (t.holes.fill v) := by
  cases t with
  | call | asyncCall | wait | waitAll | pointerCall => exact by constructor; exact List.length_ofFn.symm
  | _ => constructor

theorem sources_fill (t : Transfer) (v : Fin t.holes.count → Slot) :
    (t.holes.fill v).sources = List.ofFn v := by
  cases t with
  | pointerCall => exact List.ofFn_succ.symm
  | _ => rfl

theorem Alike.exists_fill (h : t.Alike t') : ∃ v, t.holes.fill v = t' := by
  cases h with
  | @pointerCall _ pointer' _ _ _ _ h =>
    obtain ⟨v, rfl⟩ := exists_ofFn h.symm
    exact ⟨Fin.cons pointer' v, rfl⟩
  | call h | asyncCall h | wait h | waitAll h =>
    obtain ⟨v, rfl⟩ := exists_ofFn h.symm
    exact ⟨v, rfl⟩
  | @branch _ s | @panic _ s | @send _ _ s | @fieldLock _ s => exact ⟨[s].get, rfl⟩
  | _ => exact ⟨nofun, rfl⟩

end Transfer

def assignSources {α : Type} (set : α → List Slot → Except ArityError α) (ops : List Slot) :
    EStateM ArityError α Unit := fun x =>
  match set x ops with
  | .ok y => .ok () y
  | .error e => .error e x

/-- The laws of operands that `get` lists and `set` replaces; what is `Alike` differs in nothing else. -/
structure OperandLaws {α : Type} (opcode : α → Opcode) (get : α → List Slot)
    (set : α → List Slot → Except ArityError α) (Alike : α → α → Prop) : Prop where
  accepted_iff : ∀ x ops, (∃ y, set x ops = .ok y) ↔ ops.length = (get x).length
  get_set : ∀ x ops y, set x ops = .ok y → get y = ops
  alike : ∀ x ops y, set x ops = .ok y → Alike x y
  set_get : ∀ x, set x (get x) = .ok x
  set_set : ∀ x ops y, set x ops = .ok y → ∀ ops', set y ops' = set x ops'
  refused : ∀ x ops, ops.length ≠ (get x).length →
    assignSources set ops x = .error ⟨opcode x, (get x).length, ops.length⟩ x

theorem OperandLaws.of_holes {α : Type} {opcode : α → Opcode} {get : α → List Slot} {holes : α → Holes α}
    {Alike : α → α → Prop} (halike : Equivalence Alike) (hopcode : ∀ x y, Alike x y → opcode y = opcode x)
    (hfill : ∀ x v, Alike x ((holes x).fill v)) (hget : ∀ x v, get ((holes x).fill v) = List.ofFn v)
    (hexists : ∀ x y, Alike x y → ∃ v, (holes x).fill v = y) :
    OperandLaws opcode get (fun x => (holes x).assign (opcode x)) Alike := by
  have hset : ∀ x ops y, (holes x).assign (opcode x) ops = .ok y ↔ Alike x y ∧ get y = ops := by
    intro x ops y
    rw [Holes.assign_eq_ok_iff]
    constructor
    · rintro ⟨v, rfl, rfl⟩
      exact ⟨hfill x v, hget x v⟩
    · rintro ⟨hxy, rfl⟩
      obtain ⟨v, rfl⟩ := hexists x y hxy
      exact ⟨v, (hget x v).symm, rfl⟩
  have hlength : ∀ x y, Alike x y → (get y).length = (holes x).count := by
    intro x y hxy
    obtain ⟨v, rfl⟩ := hexists x y hxy
    rw [hget, List.length_ofFn]
  have hcount : ∀ x, (get x).length = (holes x).count := fun x => hlength x x (halike.refl x)
  refine ⟨fun x ops => ?_, fun x ops y h => ((hset x ops y).mp h).2, fun x ops y h => ((hset x ops y).mp h).1,
    fun x => (hset x _ x).mpr ⟨halike.refl x, rfl⟩, fun x ops y h ops' => ?_, fun x ops hne => ?_⟩
  · rw [hcount]
    constructor
    · rintro ⟨y, h⟩
      obtain ⟨hxy, rfl⟩ := (hset x ops y).mp h
      exact hlength x y hxy
    · intro hlen
      obtain ⟨v, rfl⟩ := exists_ofFn hlen
      exact ⟨_, Holes.assign_eq_ok_iff.mpr ⟨v, rfl, rfl⟩⟩
  · obtain ⟨hxy, -⟩ := (hset x ops y).mp h
    -- what comes of `x` comes of `y`, and if nothing does, the error is the same
    cases hx : (holes x).assign (opcode x) ops' with
    | ok z =>
      obtain ⟨hxz, hz⟩ := (hset x ops' z).mp hx
      exact (hset y ops' z).mpr ⟨halike.trans (halike.symm hxy) hxz, hz⟩
    | error e =>
      obtain ⟨hne, rfl⟩ := Holes.assign_eq_error_iff.mp hx
      have hxy' : (holes y).count = (holes x).count := (hcount y).symm.trans (hlength x y hxy)
      exact Holes.assign_eq_error_iff.mpr ⟨hxy' ▸ hne, by rw [hxy', hopcode x y hxy]⟩
  · rw [hcount] at hne ⊢
    have herror : (holes x).assign (opcode x) ops = .error _ := Holes.assign_eq_error_iff.mpr ⟨hne, rfl⟩
    simp [assignSources, herror]

structure Instruction.Alike (i i' : Instruction) : Prop where
  opcode : i'.opcode = i.opcode
  dst : i'.dst = i.dst
  scope : i'.scope = i.scope
  span : i'.span = i.span
  op : i.op.Alike i'.op

structure Terminator.Alike (t t' : Terminator) : Prop where
  opcode : t'.opcode = t.opcode
  dst : t'.dst = t.dst
  scope : t'.scope = t.scope
  span : t'.span = t.span
  successors : t'.successors = t.successors
  transfer : t.transfer.Alike t'.transfer

namespace Instruction

theorem alike_equivalence : Equivalence Alike where
  refl _ := ⟨rfl, rfl, rfl, rfl, Operation.alike_equivalence.refl _⟩
  symm h := ⟨h.opcode.symm, h.dst.symm, h.scope.symm, h.span.symm, Operation.alike_equivalence.symm h.op⟩
  trans h h' := ⟨h'.opcode.trans h.opcode, h'.dst.trans h.dst, h'.scope.trans h.scope,
    h'.span.trans h.span, Operation.alike_equivalence.trans h.op h'.op⟩

theorem alike_fill (i : Instruction) (v : Fin i.holes.count → Slot) : i.Alike (i.holes.fill v) :=
  have halike := i.op.alike_fill v
  ⟨halike.opcode_eq, rfl, rfl, rfl, halike⟩

theorem sources_fill (i : Instruction) (v : Fin i.holes.count → Slot) :
    (i.holes.fill v).sources = List.ofFn v :=
  i.op.sources_fill v

theorem exists_fill (i i' : Instruction) (h : i.Alike i') : ∃ v, i.holes.fill v = i' := by
  cases i'
  obtain ⟨-, rfl, rfl, rfl, hop⟩ := h
  obtain ⟨v, rfl⟩ := hop.exists_fill
  exact ⟨v, rfl⟩

end Instruction

namespace Terminator

theorem alike_equivalence : Equivalence Alike where
  refl _ := ⟨rfl, rfl, rfl, rfl, rfl, Transfer.alike_equivalence.refl _⟩
  symm h := ⟨h.opcode.symm, h.dst.symm, h.scope.symm, h.span.symm, h.successors.symm,
    Transfer.alike_equivalence.symm h.transfer⟩
  trans h h' := ⟨h'.opcode.trans h.opcode, h'.dst.trans h.dst, h'.scope.trans h.scope,
    h'.span.trans h.span, h'.successors.trans h.successors,
    Transfer.alike_equivalence.trans h.transfer h'.transfer⟩

theorem alike_fill (t : Terminator) (v : Fin t.holes.count → Slot) : t.Alike (t.holes.fill v) :=
  have halike := t.transfer.alike_fill v
  ⟨halike.opcode_eq, rfl, rfl, rfl, halike.successors_eq, halike⟩

theorem sources_fill (t : Terminator) (v : Fin t.holes.count → Slot) :
    (t.holes.fill v).sources = List.ofFn v :=
  t.transfer.sources_fill v

theorem exists_fill (t t' : Terminator) (h : t.Alike t') : ∃ v, t.holes.fill v = t' := by
  cases t'
  obtain ⟨-, rfl, rfl, rfl, -, htransfer⟩ := h
  obtain ⟨v, rfl⟩ := htransfer.exists_fill
  exact ⟨v, rfl⟩

end Terminator

/-- Operands can be replaced by as many others, and nothing else changes. -/
theorem setSources_lawful :
    OperandLaws Instruction.opcode Instruction.sources Instruction.setSources Instruction.Alike ∧
    OperandLaws Terminator.opcode Terminator.sources Terminator.setSources Terminator.Alike := by
  constructor
  · exact .of_holes Instruction.alike_equivalence (fun _ _ h => h.opcode) Instruction.alike_fill
      Instruction.sources_fill Instruction.exists_fill
  · exact .of_holes Terminator.alike_equivalence (fun _ _ h => h.opcode) Terminator.alike_fill
      Terminator.sources_fill Terminator.exists_fill

example : Instruction.setSources ⟨5, .newMap none [.pair 0 1, .spread 2], 1, {}⟩ [7, 8, 9] =
    .ok ⟨5, .newMap none [.pair 7 8, .spread 9], 1, {}⟩ := by rfl

end FlowGraph

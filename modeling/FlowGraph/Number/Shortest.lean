/-!
Shortest decimals. Of the decimals that read back as a given binary value, `shortest` takes one
with the fewest digits, and of those the nearest. The arithmetic is exact: a binary value and the
ends of the interval that rounds to it are fractions over one denominator.
-/

namespace FlowGraph.Number

structure Decimal where
  coefficient : Nat
  exponent : Int
  deriving DecidableEq, Inhabited

/-- The positive value `significand * 2 ^ exponent` of a binary format. Its lower neighbour is at
half the distance of its upper one when `narrow`. -/
structure Binary where
  significand : Nat
  exponent : Int
  narrow : Bool
  deriving DecidableEq, Inhabited

def digitCount (n : Nat) : Nat := (Nat.toDigits 10 n).length

/-- The `k` with `10 ^ (k - 1) ≤ num / den < 10 ^ k`, for a positive fraction. -/
def magnitude (num den : Nat) : Int :=
  if den ≤ num then digitCount (num / den) else 1 - digitCount ((den - 1) / num)

namespace Binary

/-- A quarter of a unit in the last place is `b.numerator / b.denominator`, so that the value and
the ends of the interval that rounds to it are whole numbers of quarters. -/
def numerator (b : Binary) : Nat := Nat.pow 2 (b.exponent - 2).toNat

@[inherit_doc numerator]
def denominator (b : Binary) : Nat := Nat.pow 2 (2 - b.exponent).toNat

/-- A multiple of `10 ^ e` that reads back as `b`: of the two next to it, the one that does, and if
both do the nearer one, a half going up. -/
def onGrid? (b : Binary) (e : Int) : Option Nat :=
  let scale := b.numerator * Nat.pow 10 (-e).toNat
  let step := b.denominator * Nat.pow 10 e.toNat
  let low := (4 * b.significand - if b.narrow then 1 else 2) * scale
  let value := 4 * b.significand * scale
  let high := (4 * b.significand + 2) * scale
  let closed := b.significand % 2 == 0
  let below := value / step
  let reads (n : Nat) : Bool :=
    if closed then low ≤ n * step && n * step ≤ high else low < n * step && n * step < high
  match reads below, reads (below + 1) with
  | true, true => some (if 2 * (value % step) < step then below else below + 1)
  | true, false => some below
  | false, true => some (below + 1)
  | false, false => none

/-- The shortest decimal that reads back as `b`. A significand of 53 bits needs seventeen digits at
most, so that one of the grids always has a hit. -/
def shortest (b : Binary) : Decimal :=
  let k := magnitude (4 * b.significand * b.numerator) b.denominator
  let hit? (i : Nat) : Option Decimal :=
    let e := k - (i + 1 : Nat)
    (b.onGrid? e).map fun n => ⟨n, e⟩
  match ((List.range 17).findSome? hit?).getD ⟨b.significand, b.exponent⟩ with
  | ⟨10, e⟩ => ⟨1, e + 1⟩
  | d => d

end Binary

end FlowGraph.Number

import FlowGraph.Number.Shortest

/-!
Binary floating-point numbers of 64 bits, as bit patterns, and how they are written: by their
shortest decimal, positionally in a middle range and with an exponent outside it.
-/

namespace FlowGraph.Number

/-- Which decimal exponents are written positionally: from `least`, and below `bound`. -/
structure Layout where
  least : Int
  bound : Int

namespace Decimal

def positional (digits : List Char) (point : Int) : List Char :=
  let zeros (n : Int) : List Char := List.replicate n.toNat '0'
  if point ≤ 0 then ['0', '.'] ++ zeros (-point) ++ digits
  else if digits.length ≤ point then digits ++ zeros (point - digits.length) ++ ['.', '0']
  else digits.take point.toNat ++ ['.'] ++ digits.drop point.toNat

def scientific (digits : List Char) (exponent : Int) : List Char :=
  let fraction := digits.drop 1
  digits.take 1 ++ (if fraction.isEmpty then [] else '.' :: fraction) ++
    'e' :: (toString exponent).toList

def text (layout : Layout) (d : Decimal) : String :=
  let digits := Nat.toDigits 10 d.coefficient
  let point := digits.length + d.exponent
  String.ofList <|
    if layout.least < point ∧ point ≤ layout.bound then positional digits point
    else scientific digits (point - 1)

end Decimal

structure Binary64 where
  bits : UInt64
  deriving DecidableEq, Inhabited

namespace Binary64

def isNegative (x : Binary64) : Bool := x.bits >>> 63 != 0

def biasedExponent (x : Binary64) : Nat := (x.bits >>> 52).toNat % 0x800

def fraction (x : Binary64) : Nat := x.bits.toNat % 0x10000000000000

def magnitude (x : Binary64) : Binary :=
  if x.biasedExponent = 0 then ⟨x.fraction, -1074, false⟩
  else ⟨0x10000000000000 + x.fraction, x.biasedExponent - 1075, x.fraction == 0 && x.biasedExponent != 1⟩

def layout : Layout := ⟨-4, 16⟩

def text (x : Binary64) : String :=
  let sign := if x.isNegative then "-" else ""
  if x.biasedExponent = 0x7ff then
    if x.fraction = 0 then sign ++ "inf" else "NaN"
  else if x.biasedExponent = 0 ∧ x.fraction = 0 then sign ++ "0.0"
  else sign ++ x.magnitude.shortest.text layout

end Binary64

end FlowGraph.Number

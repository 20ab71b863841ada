/-!
  The exact number behind a double.

  A double is a NaN, an infinity, or a rational number of the form `m · 2^q`.  `exactly` reads that
  number off the bits, so that questions about doubles (equality with a whole number, the digits to
  print) become questions about rationals, where they have one answer.  The way back is rounding:
  `nearestOfInt` is the double closest to a whole number, or nothing when that number is too large
  for any finite double.
-/

namespace ExprGraph.Number

/-- What a double stands for. -/
inductive Exact where
  | nan
  | infinite (negative : Bool)
  | finite (value : Rat)
  deriving DecidableEq, Inhabited

/-- The bit fields of a double: sign, biased exponent, fraction. -/
structure Fields where
  /-- the sign bit is set -/
  negative : Bool
  /-- the eleven exponent bits -/
  exponent : Nat
  /-- the fifty-two fraction bits -/
  fraction : Nat
  deriving DecidableEq

/-- Cuts the sixty-four bits of a double into its fields. -/
def Fields.ofBits (bits : UInt64) : Fields where
  negative := bits >>> 63 == 1
  exponent := ((bits >>> 52) &&& 0x7FF).toNat
  fraction := (bits &&& 0xFFFFFFFFFFFFF).toNat

/-- The magnitude of a finite double, `mantissa · 2^scale`. -/
structure Magnitude where
  /-- the whole-number factor, below `2^53` -/
  mantissa : Nat
  /-- the power of two -/
  scale : Int
  /-- the gap to the double below is half the gap to the double above -/
  narrowBelow : Bool
  deriving DecidableEq

/-- Subnormal doubles have no leading one; all others have it in front of the fraction. -/
def Fields.magnitude (f : Fields) : Magnitude :=
  if f.exponent == 0 then ⟨f.fraction, -1074, false⟩
  else ⟨Nat.pow 2 52 + f.fraction, (f.exponent : Int) - 1075, f.fraction == 0 && 1 < f.exponent⟩

/-- `m · 2^q` as a rational. -/
def scaled (m : Nat) (q : Int) : Rat :=
  if 0 ≤ q then ((m * Nat.pow 2 q.toNat : Nat) : Rat) else mkRat m (Nat.pow 2 (-q).toNat)

/-- The number a magnitude denotes. -/
def Magnitude.toRat (g : Magnitude) : Rat := scaled g.mantissa g.scale

/-- The exact number behind the bit fields: the top exponent is kept for NaN and the infinities. -/
def Fields.exact (f : Fields) : Exact :=
  if f.exponent == 0x7FF then
    if f.fraction == 0 then .infinite f.negative else .nan
  else if f.negative then .finite (-f.magnitude.toRat) else .finite f.magnitude.toRat

/-- The exact number behind a double; both zeros denote zero. -/
def exactly (x : Float) : Exact := (Fields.ofBits x.toBits).exact

/-- **Equality of doubles as numbers**: no NaN equals anything, the two zeros are equal. -/
def same (x y : Float) : Bool :=
  match exactly x with
  | .nan => false
  | e => decide (e = exactly y)

/-- The double nearest to a whole number, ties to even; an infinity when it is too large. -/
def roundInt (n : Int) : Float :=
  if n < 0 then -(Float.ofScientific n.natAbs false 0) else Float.ofScientific n.natAbs false 0

/-- The finite double nearest to a whole number, if there is one. -/
def nearestOfInt (n : Int) : Option Float :=
  let x := roundInt n
  if x.isInf then none else some x

/-- A sixty-four bit word as a double. -/
def ofWord (w : Int64) : Float := roundInt w.toInt

/-- The first whole number too large for a signed sixty-four bit word, `2^63`. -/
def wordBound : Int := 9223372036854775808

/-- The whole numbers a signed sixty-four bit word can hold. -/
def fitsWord (n : Int) : Bool := decide (-wordBound ≤ n) && decide (n < wordBound)

/-- The word of a whole number, when it fits. -/
def wordOfInt (n : Int) : Option Int64 := if fitsWord n then some (Int64.ofInt n) else none

end ExprGraph.Number

import ExprGraph.Number.Exact
/-!
  Decimal digits of a double, by exact integer arithmetic.

  Two questions are answered, both for a positive magnitude `m · 2^q`:

    * `digitsAt n`: the `n` significant digits of the number, correctly rounded, a tie going to the
      even neighbour;
    * `shortest`: the fewest digits that read back to the same double, and among those the nearest.

  A double reads back from a decimal exactly when the decimal lies in the interval of reals that round
  to it, whose ends belong to it when the mantissa is even (`readsBack`).  `shortest` walks through the
  decimal grids from coarse to fine and tests the two grid points beside the number: if any point of a
  grid reads back, one of those two does.
-/

namespace ExprGraph.Number

/-- Significant digits with the decimal exponent of the first: `7.25e3` is `⟨[7, 2, 5], 3⟩`. -/
structure Decimal where
  /-- the digits, first one first -/
  digits : List Nat
  /-- the power of ten of the first digit -/
  exponent : Int
  deriving DecidableEq

/-- A quotient rounded to the nearest whole number, ties to even. -/
def roundDiv (num den : Nat) : Nat :=
  let q := num / den
  let r := num % den
  if 2 * r < den then q
  else if den < 2 * r then q + 1
  else if q % 2 == 0 then q else q + 1

/-- The decimal digits of a whole number, first one first. -/
def natDigits (n : Nat) : List Nat := (Nat.toDigits 10 n).map fun c => c.toNat - '0'.toNat

/-- Numerator and denominator of `m · 2^q · 10^k`. -/
def ratioAt (g : Magnitude) (k : Int) : Nat × Nat :=
  (g.mantissa * Nat.pow 2 g.scale.toNat * Nat.pow 10 k.toNat,
    Nat.pow 2 (-g.scale).toNat * Nat.pow 10 (-k).toNat)

/-- The decimal exponent of the first digit of a positive magnitude: counted on the whole part, or,
    below one, on the reciprocal scaled up far enough for every double. -/
def leadingExponent (g : Magnitude) : Int :=
  let (num, den) := ratioAt g 0
  if den ≤ num then ((natDigits (num / den)).length : Int) - 1
  else
    let (num, den) := ratioAt g 400
    ((natDigits (num / den)).length : Int) - 1 - 400

/-- **Exactly `n` significant digits**, correctly rounded.  When rounding carries past the first digit
    the exponent grows by one. -/
def digitsAt (n : Nat) (g : Magnitude) : Decimal :=
  let e := leadingExponent g
  let (num, den) := ratioAt g ((n : Int) - 1 - e)
  let r := roundDiv num den
  if Nat.pow 10 n ≤ r then ⟨natDigits (r / 10), e + 1⟩ else ⟨natDigits r, e⟩

/-- Compares `a · 10^i` with `n · 2^j`. -/
def compareScaled (a : Nat) (i : Int) (n : Nat) (j : Int) : Ordering :=
  compare (a * Nat.pow 10 i.toNat * Nat.pow 2 (-j).toNat)
    (n * Nat.pow 2 j.toNat * Nat.pow 10 (-i).toNat)

/-- **`a · 10^i` rounds to this magnitude**: it lies between the midpoints to the neighbours, and at a
    midpoint only when the mantissa is even. -/
def Magnitude.readsBack (g : Magnitude) (a : Nat) (i : Int) : Bool :=
  let low := if g.narrowBelow then 4 * g.mantissa - 1 else 4 * g.mantissa - 2
  let high := 4 * g.mantissa + 2
  let ends := g.mantissa % 2 == 0
  let below := compareScaled a i low (g.scale - 2)
  let above := compareScaled a i high (g.scale - 2)
  (below == .gt || (ends && below == .eq)) && (above == .lt || (ends && above == .eq))

/-- The grid of `n`-digit decimals: the reading neighbour nearest to the magnitude, if one reads back. -/
def onGrid (g : Magnitude) (e : Int) (n : Nat) : Option Nat :=
  let (num, den) := ratioAt g ((n : Int) - 1 - e)
  let i := e + 1 - (n : Int)
  let q := num / den
  let near := roundDiv num den
  let far := if near == q then q + 1 else q
  if g.readsBack near i then some near
  else if g.readsBack far i then some far
  else none

/-- Drops the zeros at the end of a digit list, keeping one digit. -/
def dropZeros (digits : List Nat) : List Nat :=
  match (digits.reverse.dropWhile (· == 0)).reverse with
  | [] => [0]
  | ds => ds

/-- **The fewest digits that read back.**  Seventeen always do. -/
def shortest (g : Magnitude) : Decimal :=
  let e := leadingExponent g
  match (List.range 17).findSome? fun k => (onGrid g e (k + 1)).map fun r => (k + 1, r) with
  | some (n, r) =>
    if Nat.pow 10 n ≤ r then ⟨dropZeros (natDigits r), e + 1⟩ else ⟨dropZeros (natDigits r), e⟩
  | none => digitsAt 17 g

example : digitsAt 3 ⟨2 ^ 52, -52, true⟩ = ⟨[1, 0, 0], 0⟩ := by decide +kernel      -- 1.00
example : shortest ⟨1, -1074, false⟩ = ⟨[5], -324⟩ := by decide +kernel              -- 5e-324

end ExprGraph.Number

import ExprGraph.Number.Half
/-!
  How a double is written.

  Three written forms share one layout: `scientific n` (a fixed number of digits, always with an
  exponent), `general` (six significant digits, zeros at the end dropped) and `roundTrip` (the fewest
  digits that read back).  What they differ in is kept in one record, `Layout`.
-/

namespace ExprGraph.Number

/-- The decisions of a written form. -/
structure Layout where
  /-- exponents of the first digit that are written without an exponent part -/
  positional : Int → Bool
  /-- a whole number written positionally ends in `.0` -/
  pointZero : Bool

/-- A digit as a character. -/
def digitChar (d : Nat) : Char := Char.ofNat ('0'.toNat + d)

/-- A run of digits as text. -/
def digitText (ds : List Nat) : String := String.ofList (ds.map digitChar)

/-- The exponent part: a sign and at least two digits. -/
def exponentText (e : Int) : String :=
  let digits := natDigits e.natAbs
  let padded := if digits.length < 2 then 0 :: digits else digits
  (if e < 0 then "e-" else "e+") ++ digitText padded

/-- First digit, point, other digits, exponent; no point without other digits. -/
def scientificText (d : Decimal) : String :=
  match d.digits with
  | [] => "0" ++ exponentText d.exponent
  | [a] => digitText [a] ++ exponentText d.exponent
  | a :: rest => digitText [a] ++ "." ++ digitText rest ++ exponentText d.exponent

/-- The digits around the point: after it with leading zeros, or before it with zeros filled in. -/
def positionalText (pointZero : Bool) (d : Decimal) : String :=
  if d.exponent < 0 then
    "0." ++ digitText (List.replicate ((-d.exponent).toNat - 1) 0 ++ d.digits)
  else
    let whole := d.exponent.toNat + 1
    let front := d.digits.take whole
    let front := front ++ List.replicate (whole - front.length) 0
    match d.digits.drop whole with
    | [] => digitText front ++ (if pointZero then ".0" else "")
    | rest => digitText front ++ "." ++ digitText rest

/-- Lays out a decimal as the record says. -/
def Layout.write (l : Layout) (d : Decimal) : String :=
  if l.positional d.exponent then positionalText l.pointZero d else scientificText d

/-- Sign and special values in front of the digits of the magnitude; a NaN has no sign. -/
def signed (x : Float) (write : Magnitude → String) : String :=
  let f := Fields.ofBits x.toBits
  if f.exponent == 0x7FF then
    if f.fraction == 0 then (if f.negative then "-inf" else "inf") else "nan"
  else (if f.negative then "-" else "") ++ write f.magnitude

/-- **Scientific form with `n` significant digits.** -/
def scientific (n : Nat) (x : Float) : String :=
  signed x fun g =>
    scientificText (if g.mantissa == 0 then ⟨List.replicate n 0, 0⟩ else digitsAt n g)

/-- Six significant digits are positional from `1e-4` up to `999999`. -/
def generalLayout : Layout := ⟨fun e => decide (-4 ≤ e) && decide (e < 6), false⟩

/-- **General form**: six significant digits without the zeros at the end. -/
def general (x : Float) : String :=
  signed x fun g =>
    if g.mantissa == 0 then "0"
    else
      let d := digitsAt 6 g
      generalLayout.write ⟨dropZeros d.digits, d.exponent⟩

/-- Round-trip text is positional from `1e-4` up to below `1e16`. -/
def roundTripLayout : Layout := ⟨fun e => decide (-4 ≤ e) && decide (e < 16), true⟩

/-- **Round-trip form**: the fewest digits that read back to the same double. -/
def roundTrip (x : Float) : String :=
  signed x fun g => if g.mantissa == 0 then "0.0" else roundTripLayout.write (shortest g)

/-- **Round-trip form of a half**: the fewest digits that read back to the same half. -/
def roundTripHalf (h : Half) : String :=
  signed h.toFloat fun g =>
    if g.mantissa == 0 then "0.0" else roundTripLayout.write (shortest h.magnitude)

example : scientific 17 0.1 = "1.0000000000000001e-01" := by decide +kernel
example : general 123456.789 = "123457" := by decide +kernel
example : general 1e10 = "1e+10" := by decide +kernel
example : roundTrip 1e16 = "1e+16" := by decide +kernel
example : roundTrip 0.0001 = "0.0001" := by decide +kernel
example : roundTrip 1e22 = "1e+22" := by decide +kernel

end ExprGraph.Number

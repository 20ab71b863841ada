import ExprGraph.Number.Decimal
/-!
  Half precision.

  A half has eleven significant bits, and its exponents run from `-24` up to `15`.  Every half is a double,
  so a half is held as the double it denotes; arithmetic computes with doubles and rounds the result
  (`Half.round`).  Sum, difference and product of two halves come out correctly rounded that way, because a
  double has more than twice as many bits.
-/

namespace ExprGraph.Number

/-- A number in half precision, held as a double. -/
structure Half where
  toFloat : Float

namespace Half

/-- The exponent of the last bit of a half that is nearest to a magnitude. -/
def lastBit (g : Magnitude) : Int := max (g.scale + g.mantissa.log2 - 10) (-24)

/-- A magnitude in units of the given power of two, rounded, ties to even. -/
def unitsOf (g : Magnitude) (step : Int) : Nat :=
  let shift := g.scale - step
  roundDiv (g.mantissa * Nat.pow 2 shift.toNat) (Nat.pow 2 (-shift).toNat)

/-- **The half nearest to a double**, ties to even; beyond the greatest half lies infinity. -/
def round (x : Float) : Half :=
  let f := Fields.ofBits x.toBits
  if f.exponent == 0x7FF || f.magnitude.mantissa == 0 then ⟨x⟩
  else
    let step := lastBit f.magnitude
    let units := unitsOf f.magnitude step
    let size := if 65536 ≤ scaled units step then 1.0 / 0.0 else (Float.ofNat units).scaleB step
    ⟨if f.negative then -size else size⟩

/-- A half as eleven bits times a power of two. -/
def magnitude (h : Half) : Magnitude :=
  let g := (Fields.ofBits h.toFloat.toBits).magnitude
  let step := lastBit g
  let units := unitsOf g step
  ⟨units, step, units == 1024 && decide (-24 < step)⟩

/-- A function of a half, computed in single precision. -/
def lift (f : Float → Float) (h : Half) : Half := round (f h.toFloat).toFloat32.toFloat

/-- A function of two halves, computed in single precision. -/
def lift₂ (f : Float → Float → Float) (a b : Half) : Half :=
  round (f a.toFloat b.toFloat).toFloat32.toFloat

end Half

end ExprGraph.Number

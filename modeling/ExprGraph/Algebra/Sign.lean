import ExprGraph.Algebra.Order
/-!
  What is known of the sign of an expression.

  Nothing is known of symbols and undefined functions.  Absolute values are not negative, real and imaginary
  parts are real, and sums, products, powers and functions inherit what their parts allow to conclude.  The
  sign of a numeric expression is that of its value.

  Real numbers include the two infinities with a sign; whether an expression is finite is a question of its
  own.
-/

namespace ExprGraph

open Number (Binary)

/-- What is known of an expression; what is not known counts as not so. -/
structure Sign where
  /-- it is real, or an infinity with a sign -/
  real : Bool
  /-- it is real and not below zero -/
  nonneg : Bool
  /-- it is real and not above zero -/
  nonpos : Bool
  /-- it is not zero -/
  nonzero : Bool
  /-- it is finite -/
  finite : Bool

namespace Sign

/-- Nothing is known. -/
def unknown : Sign := ⟨false, false, false, false, false⟩

/-- It is real, and nothing else is known. -/
def someReal : Sign := ⟨true, false, false, false, false⟩

/-- It is not below zero. -/
def atLeastZero : Sign := ⟨true, true, false, false, false⟩

/-- It is above zero. -/
def positive : Sign := ⟨true, true, false, true, false⟩

/-- The same, and finite if so said. -/
def andFinite (finite : Bool) (s : Sign) : Sign := { s with finite }

/-- The sign of a binary number; of one that vanished in a computation only that it is real. -/
def ofBinary (x : Binary) : Sign :=
  if x.isZero then ⟨true, false, false, false, true⟩ else ⟨true, !x.isNegative, x.isNegative, true, true⟩

/-- The sign of a number. -/
def ofScalar (q : Scalar) : Sign :=
  if q = .undefined then unknown else ⟨true, !q.isNegative, !q.isPositive, !q.isZero, q.isFinite⟩

/-- The sign of a point of the complex plane. -/
def ofPoint (p : Point) : Sign :=
  if p.isReal then ofBinary p.re else ⟨false, false, false, true, true⟩

/-- It is above zero. -/
def isPositive (s : Sign) : Bool := s.nonneg && s.nonzero

/-- It is below zero. -/
def isNegative (s : Sign) : Bool := s.nonpos && s.nonzero

/-- The sign of a sum. -/
def ofSum (signs : List Sign) : Sign :=
  let nonneg := signs.all Sign.nonneg
  let nonpos := signs.all Sign.nonpos
  ⟨signs.all Sign.real, nonneg, nonpos, (nonneg || nonpos) && signs.any Sign.nonzero, signs.all Sign.finite⟩

/-- The sign of a product of two. -/
def mul (s t : Sign) : Sign :=
  ⟨s.real && t.real, (s.nonneg && t.nonneg) || (s.nonpos && t.nonpos),
    (s.nonneg && t.nonpos) || (s.nonpos && t.nonneg), s.nonzero && t.nonzero, s.finite && t.finite⟩

/-- The sign of a power, where the exponent is the given number if it is one. -/
def ofPower (b x : Sign) (exponent : Option Rat) : Sign :=
  andFinite (b.finite && x.finite && (x.nonneg || b.nonzero)) <|
  if b.isPositive then (if x.real then positive else unknown)
  else
    match exponent with
    | some q =>
      if b.nonneg then
        (if 0 ≤ q then ⟨true, true, false, b.nonzero, false⟩
          else ⟨b.nonzero, b.nonzero, false, b.nonzero, false⟩)
      else if q.den = 1 then
        if b.real && (0 ≤ q || b.nonzero) then
          ⟨true, decide (q.num % 2 = 0), decide (q.num % 2 = 1) && b.nonpos, b.nonzero, false⟩
        else unknown
      else unknown
    | none => if b.nonneg && x.nonneg then atLeastZero else unknown

/-- The sign of a function of an argument whose sign is given. -/
def ofFunction (f : FunctionName) (inner : Sign) : Sign :=
  match f with
  | .abs => ⟨true, true, false, inner.nonzero, inner.finite⟩
  | .re | .im | .angle | .argument => someReal.andFinite inner.finite
  | .sin | .cos => if inner.real then someReal.andFinite true else unknown
  | .sinh => if inner.real then inner else unknown
  | .exp | .cosh => if inner.real then positive.andFinite inner.finite else unknown
  | .log => if inner.isPositive then someReal.andFinite inner.finite else unknown
  | .between => someReal
  | .tuple | .array | .undefined _ => unknown

end Sign

namespace Algebra

/-- The number in a sum, and its other terms. -/
def splitNumber (ts : List Algebra) : Scalar × List Algebra :=
  match ts.partition fun t => t.number?.isSome with
  | (number q :: _, rest) => (q, rest)
  | _ => (.exact 0, ts)

/-- The sign of the value of a numeric expression, or else what its parts tell. -/
def signOr (e : Algebra) (fromParts : Sign) : Sign :=
  match (if e.isNumeric then e.approximate? else none) with
  | some p => .ofPoint p
  | none => fromParts

mutual

/-- **What is known of the sign of an expression.** -/
def sign : Algebra → Sign
  | number q => .ofScalar q
  | constant .e | constant .pi => Sign.positive.andFinite true
  | constant .i => ⟨false, false, false, true, true⟩
  | symbol _ | constant _ => .unknown
  | sum ts => signOr (sum ts) (.ofSum (signs ts))
  | product fs => signOr (product fs) ((signs fs).foldl Sign.mul (Sign.positive.andFinite true))
  | power b x => signOr (power b x) (.ofPower (sign b) (sign x) x.rational?)
  | apply .log [sum ts] =>
    let (q, rest) := splitNumber ts
    let known := Sign.ofFunction .log (.ofSum (signs ts))
    let above := (Scalar.exact 1).less q
    let least := (Scalar.exact 1).compare q != .gt
    if known.real && least && (signs ts).all Sign.nonneg && !rest.isEmpty then
      signOr (apply .log [sum ts]) ⟨true, true, false, above, known.finite⟩
    else signOr (apply .log [sum ts]) known
  | apply f es => signOr (apply f es) (.ofFunction f ((signs es).headD .unknown))

/-- What is known of the signs of several expressions. -/
def signs : List Algebra → List Sign
  | [] => []
  | e :: es => sign e :: signs es

end

/-- The expression is known to be real. -/
def isReal (e : Algebra) : Bool := e.sign.real

/-- The expression is known not to be negative. -/
def isNonneg (e : Algebra) : Bool := e.sign.nonneg

/-- It is known whether the expression is real. -/
def isRealnessKnown (e : Algebra) : Bool := e.isReal || (e.isNumeric && e.approximate?.isSome)

end Algebra

end ExprGraph

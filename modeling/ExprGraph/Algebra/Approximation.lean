import ExprGraph.Algebra.Basic
/-!
  Numeric expressions as points of the complex plane.

  An expression without symbols and undefined functions has a value.  The approximation computes it with a
  hundred and fifty significant bits (`Algebra.approximate?`).  What remains of a sum that cancels almost
  entirely counts as zero, and so does a coordinate that almost vanishes beside the other one.  Expressions
  that have no value in the plane, or a value of enormous size, have no approximation.
-/

namespace ExprGraph

open Number (Binary)

/-- A point of the complex plane. -/
structure Point where
  re : Binary
  im : Binary

namespace Point

/-- The bits that approximations carry. -/
def bits : Nat := 150

/-- What is this many bits smaller than its neighbour counts as zero. -/
def significantBits : Int := 110

/-- A point of the real line. -/
def real (x : Binary) : Point := ⟨x, .zero⟩

/-- A point without coordinates that almost vanish. -/
def settle (p : Point) : Point :=
  if p.re.isZero || p.im.isZero then p
  else if p.re.top < p.im.top - significantBits then ⟨.zero, p.im⟩
  else if p.im.top < p.re.top - significantBits then ⟨p.re, .zero⟩
  else p

/-- A sum of coordinates. -/
def plus (a b : Binary) : Binary :=
  let sum := Binary.add .nearest bits a b
  if sum.top < max a.top b.top - significantBits && !a.isZero && !b.isZero then .zero else sum

/-- A product of coordinates. -/
def times (a b : Binary) : Binary := Binary.mul .nearest bits a b

/-- Sum of two points. -/
def add (p q : Point) : Point := settle ⟨plus p.re q.re, plus p.im q.im⟩

/-- Product of two points. -/
def mul (p q : Point) : Point :=
  settle ⟨plus (times p.re q.re) (times p.im q.im).negate, plus (times p.re q.im) (times p.im q.re)⟩

/-- The point lies on the real line. -/
def isReal (p : Point) : Bool := p.im.isZero

/-- The point is zero. -/
def isZero (p : Point) : Bool := p.re.isZero && p.im.isZero

/-- The distance from zero. -/
def size (p : Point) : Binary :=
  if p.isReal then p.re.abs else Binary.sqrt .nearest bits (plus (times p.re p.re) (times p.im p.im))

/-- Exponents have no more binary digits than this. -/
def exponentLimit : Int := 200

/-- The exponential of a point. -/
def exp? (p : Point) : Option Point :=
  if exponentLimit < p.re.top || exponentLimit < p.im.top then none
  else
    let size := Binary.exp bits p.re
    let (s, c) := Binary.sinCos bits p.im
    some (settle ⟨times size c, times size s⟩)

/-- The logarithm of a point other than zero. -/
def log? (p : Point) : Option Point :=
  if p.isZero then none else some (settle ⟨Binary.log bits p.size, Binary.angle bits p.im p.re⟩)

/-- The power of two points, on the principal branch. -/
def pow? (b x : Point) : Option Point :=
  if x.isZero then some (real .one)
  else if b.isZero then (if 0 < x.re.mantissa then some (real .zero) else none)
  else if exponentLimit < x.re.top then none
  else if b.isReal && x.isReal && x.re.isWhole then some (real (Binary.powInt .nearest bits b.re x.re.floor))
  else do (← b.log?).mul x |>.exp?

/-- Sine or cosine, or with the coordinates exchanged their hyperbolic companions, of a point. -/
def circular? (f : FunctionName) (p : Point) : Option Point :=
  if exponentLimit < p.re.top || exponentLimit < p.im.top then none
  else
    let (s, c) := Binary.sinCos bits p.re
    let (sh, ch) := (Binary.sinh bits p.im, Binary.cosh bits p.im)
    match f with
    | .sin => some (settle ⟨times s ch, times c sh⟩)
    | .cos => some (settle ⟨times c ch, (times s sh).negate⟩)
    | _ => none

/-- The point turned by a right angle, forward or backward. -/
def turn (forward : Bool) (p : Point) : Point :=
  if forward then ⟨p.im.negate, p.re⟩ else ⟨p.im, p.re.negate⟩

/-- A function of points. -/
def image? (f : FunctionName) : List Point → Option Point
  | [p] =>
    match f with
    | .exp => p.exp?
    | .log => p.log?
    | .abs => some (real p.size)
    | .re => some (real p.re)
    | .im => some (real p.im)
    | .argument => if p.isZero then none else some (real (Binary.angle bits p.im p.re))
    | .sin => p.circular? .sin
    | .cos => p.circular? .cos
    | .sinh => ((p.turn true).circular? .sin).map (turn false)
    | .cosh => (p.turn true).circular? .cos
    | _ => none
  | [y, x] =>
    match f with
    | .angle =>
      if y.isReal && x.isReal && !(y.isZero && x.isZero) then some (real (Binary.angle bits y.re x.re)) else none
    | _ => none
  | _ => none

end Point

namespace Algebra

mutual

/-- **The approximation of a numeric expression.** -/
def approximate? : Algebra → Option Point
  | number q => if q.isFinite then some (.real (q.toBinary Point.bits)) else none
  | constant .e => some (.real (Binary.exp Point.bits .one))
  | constant .pi => some (.real (Binary.pi Point.bits))
  | constant .i => some ⟨.zero, .one⟩
  | sum es => (approximateAll? es).map fun ps => ps.foldl Point.add (.real .zero)
  | product es => (approximateAll? es).map fun ps => ps.foldl Point.mul (.real .one)
  | power b x => do (← approximate? b).pow? (← approximate? x)
  | apply f es => do Point.image? f (← approximateAll? es)
  | symbol _ | constant _ => none

/-- The approximations of numeric expressions. -/
def approximateAll? : List Algebra → Option (List Point)
  | [] => some []
  | e :: es => do
    let p ← approximate? e
    return p :: (← approximateAll? es)

end

end Algebra

end ExprGraph

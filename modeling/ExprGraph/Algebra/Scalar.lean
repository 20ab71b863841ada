import ExprGraph.Number.Series
/-!
  The numbers of algebra.

  A number is an exact rational, a decimal, an infinity with a sign, or undefined.  A decimal is a binary
  number with a count of the bits that are significant in it; what is computed from a decimal is a decimal of
  as many bits, and of the greater count where two meet.  A decimal result that is zero is the exact zero.
-/

namespace ExprGraph

open Number (Binary)

/-- A number of algebra. -/
inductive Scalar where
  | exact (q : Rat)
  | decimal (x : Binary) (bits : Nat)
  | infinite (negative : Bool)
  | undefined
  deriving DecidableEq

namespace Scalar

/-- The number as a binary one of so many bits; a decimal as it is. -/
def toBinary (bits : Nat) : Scalar → Binary
  | exact q => .ofRat .nearest bits q
  | decimal x _ => x
  | infinite _ | undefined => .zero

/-- The significant bits of a decimal. -/
def bits : Scalar → Nat
  | decimal _ n => n
  | _ => 0

/-- The result of a computation with decimals. -/
def ofResult (bits : Nat) (x : Binary) : Scalar :=
  if x.isZero then exact 0 else decimal (x.cut .nearest bits) bits

/-- The number is zero. -/
def isZero : Scalar → Bool
  | exact q => decide (q = 0)
  | decimal x _ => x.isZero
  | infinite _ | undefined => false

/-- The number is below zero. -/
def isNegative : Scalar → Bool
  | exact q => decide (q < 0)
  | decimal x _ => x.isNegative
  | infinite negative => negative
  | undefined => false

/-- The number is above zero. -/
def isPositive : Scalar → Bool
  | exact q => decide (0 < q)
  | decimal x _ => decide (0 < x.mantissa)
  | infinite negative => !negative
  | undefined => false

/-- The number is rational or a decimal. -/
def isFinite : Scalar → Bool
  | exact _ | decimal _ _ => true
  | infinite _ | undefined => false

/-! ## Arithmetic -/

/-- The negative of a number. -/
def negate : Scalar → Scalar
  | exact q => exact (-q)
  | decimal x n => decimal x.negate n
  | infinite negative => infinite !negative
  | undefined => undefined

/-- The magnitude of a number; that of a decimal zero is the exact zero. -/
def abs (q : Scalar) : Scalar :=
  match q with
  | decimal x n => ofResult n x.abs
  | q => if q.isNegative then q.negate else q

/-- An operation on decimals. -/
def onDecimals (op : Number.Cut → Nat → Binary → Binary → Binary) (a b : Scalar) : Scalar :=
  let n := max a.bits b.bits
  ofResult n (op .nearest n (a.toBinary n) (b.toBinary n))

/-- **Sum.**  Opposite infinities have none. -/
def add (a b : Scalar) : Scalar :=
  match a, b with
  | undefined, _ | _, undefined => undefined
  | infinite p, infinite q => if p = q then infinite p else undefined
  | infinite p, _ | _, infinite p => infinite p
  | exact p, exact q => exact (p + q)
  | a, b => onDecimals Binary.add a b

/-- **Product.**  Zero times an infinity has none. -/
def mul (a b : Scalar) : Scalar :=
  match a, b with
  | undefined, _ | _, undefined => undefined
  | infinite _, _ | _, infinite _ =>
    if a.isZero || b.isZero then undefined else infinite (a.isNegative != b.isNegative)
  | exact p, exact q => exact (p * q)
  | a, b => onDecimals Binary.mul a b

/-- Quotient of a decimal and a number other than zero, rounded once. -/
def div (a b : Scalar) : Scalar := onDecimals Binary.div a b

/-- The number is exactly the given one. -/
def isExactly (q : Rat) : Scalar → Bool
  | exact p => decide (p = q)
  | _ => false

/-- The rational number, if it is exact. -/
def rational? : Scalar → Option Rat
  | exact q => some q
  | _ => none

/-- The whole number, if it is one. -/
def integer? : Scalar → Option Int
  | exact q => if q.den = 1 then some q.num else none
  | _ => none

/-- The number is a decimal. -/
def isDecimal : Scalar → Bool
  | decimal _ _ => true
  | _ => false

/-! ## Order -/

/-- Bits that tell a rational number from a decimal. -/
def compareBits : Nat := 300

/-- **The order of two numbers**; the infinities are the ends, and the undefined number comes last. -/
def compare (a b : Scalar) : Ordering :=
  let rank : Scalar → Int := fun
    | exact _ | decimal _ _ => 0
    | infinite negative => if negative then -1 else 1
    | undefined => 2
  match a, b with
  | exact p, exact q => if p < q then .lt else if p = q then .eq else .gt
  | a, b =>
    (Ord.compare (rank a) (rank b)).then
      (Binary.compare (a.toBinary compareBits) (b.toBinary compareBits))

/-- The first number is below the second. -/
def less (a b : Scalar) : Bool := compare a b == .lt

/-! ## Digits and bits -/

/-- The binary digits that a decimal one is worth, in units of `10 ^ -16`. -/
def bitsPerDigit : Nat := 33219280948873626

/-- The bits that so many decimal digits need. -/
def bitsFor (digits : Nat) : Nat :=
  max 1 ((2 * (digits + 1) * bitsPerDigit + Nat.pow 10 16) / (2 * Nat.pow 10 16))

/-- The decimal digits that so many bits are good for. -/
def digitsOf (bits : Nat) : Nat :=
  max 1 ((2 * bits * Nat.pow 10 16 + bitsPerDigit) / (2 * bitsPerDigit) - 1)

example : bitsFor 15 = 53 ∧ digitsOf 53 = 15 := by decide +kernel

/-! ## Functions of decimals -/

/-- A function of a decimal: computed with four bits more than its digits need, and rounded again. -/
def apply (f : Nat → Binary → Binary) (cut : Number.Cut) (x : Binary) (n : Nat) : Scalar :=
  let n := bitsFor (digitsOf n)
  ofResult n ((f (n + 4) x).cut cut (n + 4))

/-- The exponential of a decimal. -/
def exp : Binary → Nat → Scalar := apply Binary.exp .towardZero

/-- The sine of a decimal. -/
def sin : Binary → Nat → Scalar := apply Binary.sin .nearest

/-- The cosine of a decimal. -/
def cos : Binary → Nat → Scalar := apply Binary.cos .nearest

/-- The hyperbolic sine of a decimal. -/
def sinh : Binary → Nat → Scalar := apply Binary.sinh .nearest

/-- The hyperbolic cosine of a decimal. -/
def cosh : Binary → Nat → Scalar := apply Binary.cosh .nearest

/-- The logarithm of a decimal above zero. -/
def log : Binary → Nat → Scalar := apply Binary.log .nearest

/-- Bits that a power is computed with beyond those asked for. -/
def spareBits : Nat := 10

/-- A binary number above zero to another one. -/
def positivePower (bits : Nat) (b x : Binary) : Binary :=
  let wide := bits + spareBits
  if 0 ≤ x.exponent then .powInt .nearest bits b x.floor
  else if x.exponent = -1 then
    if x.mantissa = 1 then .sqrt .nearest bits b
    else if x.mantissa = -1 then .div .nearest bits .one (.sqrt .nearest wide b)
    else .powInt .nearest bits (.sqrt .nearest wide b) x.mantissa
  else
    let log := (Binary.log wide b).cut .nearest wide
    (Binary.exp bits (x.times log)).cut .nearest bits

/-- **A decimal power**: real and imaginary part.  That of a negative number to a fraction is a point on the
    principal branch. -/
def power (bits : Nat) (b x : Binary) : Binary × Binary :=
  let wide := bits + spareBits
  if !b.isNegative then (positivePower bits b x, .zero)
  else if 0 ≤ x.exponent then (.powInt .nearest bits b x.floor, .zero)
  else if x.exponent = -1 then
    let size := Binary.powInt .nearest bits (.sqrt .towardZero wide b.abs) x.mantissa
    (.zero, if x.mantissa % 4 = 1 then size else size.negate)
  else
    let log := (Binary.log wide b.abs).cut .towardZero wide
    let turn := ((Binary.pi wide).times x).cut .towardZero wide
    let size := Binary.exp wide ((log.times x).cut .towardZero wide)
    let (s, c) := Binary.sinCos wide turn
    ((size.times c).cut .nearest bits, (size.times s).cut .nearest bits)

/-! ## Text -/

/-- A text that tells numbers apart. -/
def text : Scalar → String
  | exact q => if q.den = 1 then toString q.num else toString q.num ++ "/" ++ toString q.den
  | decimal x n => toString x.mantissa ++ "p" ++ toString x.exponent ++ "." ++ toString n
  | infinite negative => if negative then "-oo" else "oo"
  | undefined => "nan"

end Scalar

end ExprGraph

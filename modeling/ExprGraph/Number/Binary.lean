import ExprGraph.Number.Decimal
import ExprGraph.Number.Root
/-!
  Binary numbers of any length and size.

  A binary number is a whole number times a power of two (`Binary`).  Its mantissa is odd, or it is zero with
  exponent zero, so that equal numbers are equal structures; `Binary.ofParts` brings any mantissa and exponent
  into that form.

  Arithmetic is exact, and then cut to a number of bits: to the nearest number, ties to the even one, or
  towards zero (`Binary.cut`).  Every operation takes the number of bits to keep and the way to cut.
-/

namespace ExprGraph.Number

/-- How digits beyond the last one are dropped. -/
inductive Cut where
  /-- to the nearest number, ties to even -/
  | nearest
  /-- to the number next to zero -/
  | towardZero
  deriving DecidableEq

/-- The number `mantissa · 2 ^ exponent`. -/
structure Binary where
  mantissa : Int
  exponent : Int
  deriving DecidableEq, Inhabited

/-- Number of binary digits. -/
def bitLength (n : Nat) : Nat := if n = 0 then 0 else n.log2 + 1

/-- Number of zeros behind the last one among the binary digits of a positive number. -/
def zerosBehind (n : Nat) : Nat := (Nat.xor n (n - 1)).log2

/-- A quotient of whole numbers cut to a whole number. -/
def Cut.quotient (c : Cut) (num den : Nat) : Nat :=
  match c with
  | .nearest => roundDiv num den
  | .towardZero => num / den

namespace Binary

/-- **A whole number times a power of two.** -/
def ofParts (mantissa exponent : Int) : Binary :=
  if mantissa = 0 then ⟨0, 0⟩
  else
    let zeros := zerosBehind mantissa.natAbs
    ⟨mantissa / (Nat.pow 2 zeros : Nat), exponent + zeros⟩

/-- A whole number. -/
def ofInt (n : Int) : Binary := ofParts n 0

/-- Zero. -/
def zero : Binary := ⟨0, 0⟩

/-- One. -/
def one : Binary := ⟨1, 0⟩

/-- The number is zero. -/
def isZero (a : Binary) : Bool := a.mantissa == 0

/-- The number is below zero. -/
def isNegative (a : Binary) : Bool := decide (a.mantissa < 0)

/-- Number of digits of the mantissa. -/
def length (a : Binary) : Nat := bitLength a.mantissa.natAbs

/-- The exponent of the power of two just above the number. -/
def top (a : Binary) : Int := a.exponent + a.length

/-- The negative. -/
def negate (a : Binary) : Binary := ⟨-a.mantissa, a.exponent⟩

/-- The absolute value. -/
def abs (a : Binary) : Binary := ⟨a.mantissa.natAbs, a.exponent⟩

/-- The number times a power of two. -/
def scale (a : Binary) (k : Int) : Binary := if a.isZero then a else ⟨a.mantissa, a.exponent + k⟩

/-! ## Cutting -/

/-- A size with the sign of another number. -/
def signed (sign : Int) (size : Nat) : Int := if sign < 0 then -(size : Int) else size

/-- **The number cut to a number of bits.** -/
def cut (c : Cut) (bits : Nat) (a : Binary) : Binary :=
  if a.length ≤ bits then a
  else
    let drop := a.length - bits
    ofParts (signed a.mantissa (c.quotient a.mantissa.natAbs (Nat.pow 2 drop))) (a.exponent + drop)

/-- A fraction of natural numbers cut to a number of bits. -/
def ofFraction (c : Cut) (bits num den : Nat) : Binary :=
  let shift : Int := (bits : Int) + 2 + bitLength den - bitLength num
  let num := num * Nat.pow 2 shift.toNat
  let den := den * Nat.pow 2 (-shift).toNat
  let sticky := if num % den = 0 then 0 else 1
  (ofParts (4 * (num / den) + sticky : Nat) (-shift - 2)).cut c bits

/-- A rational number cut to a number of bits. -/
def ofRat (c : Cut) (bits : Nat) (q : Rat) : Binary :=
  let size := ofFraction c bits q.num.natAbs q.den
  if q < 0 then size.negate else size

/-! ## Arithmetic -/

/-- The sum of two numbers, without cutting. -/
def plus (a b : Binary) : Binary :=
  if a.isZero then b else if b.isZero then a
  else
    let low := min a.exponent b.exponent
    ofParts (a.mantissa * (Nat.pow 2 (a.exponent - low).toNat : Nat)
      + b.mantissa * (Nat.pow 2 (b.exponent - low).toNat : Nat)) low

/-- A number with a trace of another one, which lies more than `bits` bits below its last one. -/
def withTrace (bits : Nat) (a b : Binary) : Binary :=
  ofParts (a.mantissa * (Nat.pow 2 (bits + 2) : Nat) + (if b.isNegative then -1 else 1))
    (a.exponent - bits - 2)

/-- **Sum.**  Of a number that lies below all bits that count only the sign matters. -/
def add (c : Cut) (bits : Nat) (a b : Binary) : Binary :=
  let sum :=
    if a.isZero || b.isZero then a.plus b
    else if b.top < a.exponent - bits - 2 then a.withTrace bits b
    else if a.top < b.exponent - bits - 2 then b.withTrace bits a
    else a.plus b
  sum.cut c bits

/-- **Difference.** -/
def sub (c : Cut) (bits : Nat) (a b : Binary) : Binary := add c bits a b.negate

/-- The product of two numbers, without cutting. -/
def times (a b : Binary) : Binary := ofParts (a.mantissa * b.mantissa) (a.exponent + b.exponent)

/-- **Product.** -/
def mul (c : Cut) (bits : Nat) (a b : Binary) : Binary := (a.times b).cut c bits

/-- **Quotient**; the divisor is not zero. -/
def div (c : Cut) (bits : Nat) (a b : Binary) : Binary :=
  let size := ofFraction c bits a.mantissa.natAbs b.mantissa.natAbs
  let q := size.scale (a.exponent - b.exponent)
  if a.isNegative != b.isNegative then q.negate else q

/-- **Square root** of a number that is not negative. -/
def sqrt (c : Cut) (bits : Nat) (a : Binary) : Binary :=
  let spare : Int := 2 * (bits + 4) - a.length
  let shift := if (a.exponent - spare) % 2 = 0 then spare.toNat else spare.toNat + 1
  let shift := if (a.exponent - shift) % 2 = 0 then shift else shift + 1
  let n := a.mantissa.natAbs * Nat.pow 2 shift
  let r := wholeRoot 2 n
  let sticky := if r * r = n then 0 else 1
  (ofParts (4 * r + sticky : Nat) ((a.exponent - shift) / 2 - 2)).cut c bits

/-- A whole power by repeated squaring, where `n` has at most `depth` binary digits. -/
def powWithin (bits : Nat) : Nat → Binary → Nat → Binary
  | 0, _, _ => one
  | depth + 1, a, n =>
    if n = 0 then one
    else
      let rest := powWithin bits depth (mul .towardZero bits a a) (n / 2)
      if n % 2 = 0 then rest else mul .towardZero bits rest a

/-- A power with a natural exponent: exact for short results, otherwise with spare bits. -/
def powNat (c : Cut) (bits : Nat) (a : Binary) (n : Nat) : Binary :=
  if n = 0 then one
  else if a.length ≤ 1 then ⟨if n % 2 = 0 then a.mantissa.natAbs else a.mantissa, a.exponent * n⟩
  else if a.length * n < 1000 then (ofParts (Int.pow a.mantissa n) (a.exponent * n)).cut c bits
  else (powWithin (bits + 4 * bitLength n + 20) (bitLength n) a n).cut c bits

/-- **A power with a whole exponent**; zero has no negative powers. -/
def powInt (c : Cut) (bits : Nat) (a : Binary) (n : Int) : Binary :=
  if 0 ≤ n then powNat c bits a n.toNat
  else if n = -1 then div c bits one a
  else div c bits one (powNat c (bits + 5) a n.natAbs)

/-! ## Order -/

/-- **The order of two numbers**, by sign and size before digits. -/
def compare (a b : Binary) : Ordering :=
  if a.isNegative != b.isNegative || a.isZero || b.isZero then
    Ord.compare a.mantissa.sign b.mantissa.sign
  else
    let bySize := Ord.compare a.top b.top
    let size := if bySize == .eq then Ord.compare (a.abs.plus b.abs.negate).mantissa 0 else bySize
    if a.isNegative then size.swap else size

/-- The first number is below the second. -/
def less (a b : Binary) : Bool := compare a b == .lt

/-! ## Other forms -/

/-- The exact value. -/
def toRat (a : Binary) : Rat :=
  let size := scaled a.mantissa.natAbs a.exponent
  if a.isNegative then -size else size

/-- The number is whole. -/
def isWhole (a : Binary) : Bool := decide (0 ≤ a.exponent)

/-- The greatest whole number that is not above the number. -/
def floor (a : Binary) : Int :=
  if 0 ≤ a.exponent then a.mantissa * (Nat.pow 2 a.exponent.toNat : Nat)
  else if a.top < 0 then (if a.isNegative then -1 else 0)
  else Int.fdiv a.mantissa (Nat.pow 2 (-a.exponent).toNat : Nat)

/-- The nearest double; an infinity beyond the greatest. -/
def toFloat (a : Binary) : Float :=
  if 1100 < a.top then (if a.isNegative then -1.0 / 0.0 else 1.0 / 0.0)
  else if a.top < -1100 then (if a.isNegative then -0.0 else 0.0)
  else
    let step := max (a.top - 53) (-1074)
    let shift := a.exponent - step
    let units := roundDiv (a.mantissa.natAbs * Nat.pow 2 shift.toNat) (Nat.pow 2 (-shift).toNat)
    let size := (Float.ofNat units).scaleB step
    if a.isNegative then -size else size

/-- A finite double. -/
def ofFloat (x : Float) : Binary :=
  let f := Fields.ofBits x.toBits
  let g := f.magnitude
  ofParts (if f.negative then -(g.mantissa : Int) else g.mantissa) g.scale

example : ofRat .nearest 3 (mkRat 1 3) = ⟨5, -4⟩ := by decide +kernel
example : (ofInt 11).cut .nearest 3 = ⟨3, 2⟩ := by decide +kernel
example : (ofInt 11).cut .towardZero 3 = ⟨5, 1⟩ := by decide +kernel
example : sqrt .nearest 10 (ofInt 49) = ofInt 7 := by decide +kernel

end Binary

end ExprGraph.Number

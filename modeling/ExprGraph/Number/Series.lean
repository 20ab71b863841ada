import ExprGraph.Number.Binary
/-!
  Elementary functions of binary numbers, by series.

  A function is summed in fixed point: a whole number `n` stands for `n / 2 ^ p`.  The argument is first
  reduced by multiples of `log 2` or of half a circle, then the series of the remainder converges fast.  The
  results carry some twenty bits more than asked for; whoever needs a cut number cuts it.
-/

namespace ExprGraph.Number

namespace Fixed

/-- A fixed number with fewer places. -/
def drop (places : Nat) (n : Int) : Int := Int.fdiv n (Nat.pow 2 places : Nat)

/-- Product of two fixed numbers with `p` places. -/
def mul (p : Nat) (a b : Int) : Int := drop p (a * b)

/-- `1/n + 1/(3 n³) + 1/(5 n⁵) + …`, or with alternating signs, from the given power on. -/
def inverseTerms (alternate : Bool) (n : Nat) : Nat → Nat → Nat → Int
  | 0, _, _ => 0
  | bound + 1, k, power =>
    if power = 0 then 0
    else
      let rest := inverseTerms alternate n bound (k + 1) (power / (n * n))
      (power / (2 * k + 1) : Nat) + (if alternate then -rest else rest)

/-- The inverse hyperbolic or circular tangent of `1/n`. -/
def inverseSeries (alternate : Bool) (p n : Nat) : Int :=
  inverseTerms alternate n (p + 2) 0 (Nat.pow 2 p / n)

/-- The natural logarithm of two. -/
def log2 (p : Nat) : Int :=
  let s := inverseSeries false (p + 20)
  drop 20 (18 * s 26 - 2 * s 4801 + 8 * s 8749)

/-- Half the circumference of the unit circle. -/
def pi (p : Nat) : Int :=
  let s := inverseSeries true (p + 20)
  drop 20 (16 * s 5 - 4 * s 239)

/-- `1 + t/k + t²/(k (k + 1)) + …`. -/
def expTerms (p : Nat) (t : Int) : Nat → Nat → Int → Int
  | 0, _, _ => 0
  | bound + 1, k, term =>
    if term = 0 || term = -1 then 0 else term + expTerms p t bound (k + 1) (mul p term t / k)

/-- The exponential of a number from zero to one: that of a fraction of it, squared again. -/
def exp (p : Nat) (t : Int) : Int :=
  let q := p + 32
  let small := t * (Nat.pow 2 24 : Nat)
  let e := expTerms q small q 1 (Nat.pow 2 q : Nat)
  drop 32 ((List.range 8).foldl (fun e _ => mul q e e) e)

/-- `term - term · t²/((k + 1) (k + 2)) + …`, the series of sine and cosine. -/
def circleTerms (p : Nat) (square : Int) : Nat → Nat → Int → Int
  | 0, _, _ => 0
  | bound + 1, k, term =>
    if term = 0 || term = -1 then 0
    else term - circleTerms p square bound (k + 2) (mul p term square / ((k + 1) * (k + 2) : Nat))

/-- The sine of a number between `-1` and `1`. -/
def sin (p : Nat) (t : Int) : Int := circleTerms p (mul p t t) p 1 t

/-- The cosine of a number between `-1` and `1`. -/
def cos (p : Nat) (t : Int) : Int := circleTerms p (mul p t t) p 0 (Nat.pow 2 p : Nat)

/-- `z + z³/3 + z⁵/5 + …`, or with alternating signs, from the given power on. -/
def tangentTerms (alternate : Bool) (p : Nat) (square : Int) : Nat → Nat → Int → Int
  | 0, _, _ => 0
  | bound + 1, k, power =>
    if power = 0 || power = -1 then 0
    else
      let rest := tangentTerms alternate p square bound (k + 2) (mul p power square)
      power / (k : Int) + (if alternate then -rest else rest)

/-- The inverse hyperbolic or circular tangent of a small number. -/
def inverseTangent (alternate : Bool) (p : Nat) (z : Int) : Int :=
  tangentTerms alternate p (mul p z z) (p + 2) 1 z

end Fixed

namespace Binary

/-- A number in fixed point with `p` places. -/
def toFixed (p : Nat) (a : Binary) : Int := (a.scale p).floor

/-- The circumference of the unit circle, halved. -/
def pi (bits : Nat) : Binary := ofParts (Fixed.pi (bits + 20)) (-(bits + 20))

/-- **The exponential.** -/
def exp (bits : Nat) (a : Binary) : Binary :=
  if a.isZero then one
  else if a.top < -(bits + 20 : Int) then withTrace (bits + 20) one a
  else
    let p := bits + 30 + a.top.toNat
    let t := a.toFixed p
    let log2 := Fixed.log2 p
    let n := Int.fdiv t log2
    ofParts (Fixed.exp p (t - n * log2)) (n - p)

/-- **The natural logarithm** of a number above zero. -/
def log (bits : Nat) (a : Binary) : Binary :=
  if a = one then zero
  else
    let half : Int := a.length - 1
    let m := a.mantissa
    let above := decide (3 * (Nat.pow 2 half.toNat : Nat) ≤ 2 * m)
    let unit : Int := if above then (Nat.pow 2 (half.toNat + 1) : Nat) else (Nat.pow 2 half.toNat : Nat)
    let k := a.exponent + half + (if above then 1 else 0)
    let nearOne := if k = 0 then (bitLength unit.natAbs : Int) - bitLength (m - unit).natAbs else 0
    let p := bits + 40 + nearOne.toNat + bitLength k.natAbs
    let z := Int.fdiv ((m - unit) * (Nat.pow 2 p : Nat)) (m + unit)
    ofParts (k * Fixed.log2 p + 2 * Fixed.inverseTangent false p z) (-p)

/-- Sine and cosine together. -/
def sinCos (bits : Nat) (a : Binary) : Binary × Binary :=
  if a.isZero then (zero, one)
  else if a.top < -(bits + 20 : Int) then (withTrace (bits + 20) a a.negate, withTrace (bits + 20) one (ofInt (-1)))
  else
    let p := bits + 140 + a.top.natAbs
    let quarter := Fixed.drop 1 (Fixed.pi p)
    let t := a.toFixed p
    let n := Int.fdiv (2 * t + quarter) (2 * quarter)
    let rest := t - n * quarter
    let s := ofParts (Fixed.sin p rest) (-p)
    let c := ofParts (Fixed.cos p rest) (-p)
    match n % 4 with
    | 0 => (s, c)
    | 1 => (c, s.negate)
    | 2 => (s.negate, c.negate)
    | _ => (c.negate, s)

/-- **Sine.** -/
def sin (bits : Nat) (a : Binary) : Binary := (sinCos bits a).1

/-- **Cosine.** -/
def cos (bits : Nat) (a : Binary) : Binary := (sinCos bits a).2

/-- Half the sum or half the difference of the exponentials of a number and its negative. -/
def halfExponentials (sum : Bool) (bits : Nat) (a : Binary) : Binary :=
  let bits := bits + 20 + (-a.top).toNat
  let e := exp bits a
  let d := div .nearest (bits + 20) one e
  (add .nearest (bits + 20) e (if sum then d else d.negate)).scale (-1)

/-- **Hyperbolic cosine.** -/
def cosh (bits : Nat) (a : Binary) : Binary :=
  if a.top < -(bits + 20 : Int) then withTrace (bits + 20) one one else halfExponentials true bits a

/-- **Hyperbolic sine.** -/
def sinh (bits : Nat) (a : Binary) : Binary :=
  if a.top < -(bits + 20 : Int) then withTrace (bits + 20) a a else halfExponentials false bits a

/-- The angle whose tangent is given, halved `n` times by the half-angle rule before the series is summed. -/
def arctanBy (bits : Nat) : Nat → Binary → Binary
  | 0, t =>
    let p := bits + 20 + t.top.natAbs
    ofParts (Fixed.inverseTangent true p (t.toFixed p)) (-p)
  | n + 1, t =>
    let root := sqrt .nearest bits (add .nearest bits one (mul .nearest bits t t))
    (arctanBy bits n (div .nearest bits t (add .nearest bits one root))).scale 1

/-- **The angle of a point**, from its second and first coordinate, of which one is not zero. -/
def angle (bits : Nat) (y x : Binary) : Binary :=
  let bits := bits + 30
  let pi := pi bits
  let steep := x.abs.less y.abs
  let t := if steep then div .nearest bits x.abs y.abs else div .nearest bits y.abs x.abs
  let a := if t.isZero then zero else if t.top < -(bits : Int) then t else arctanBy bits 4 t
  let a := if steep then sub .nearest bits (pi.scale (-1)) a else a
  let a := if x.isNegative then sub .nearest bits pi a else a
  if y.isNegative then a.negate else a

example : (exp 53 one).cut .nearest 20 = (ofRat .nearest 20 (mkRat 2718281828 1000000000)) := by decide +kernel
example : (pi 53).cut .nearest 20 = (ofRat .nearest 20 (mkRat 3141592654 1000000000)) := by decide +kernel

end Binary

end ExprGraph.Number

import ExprGraph.Number.Series
/-!
  The leading decimal digits of a binary number.

  `leading n` is the first `n` significant digits, cut off (`Binary.leading`).  Numbers of moderate size are
  expanded exactly; very large and very small ones are first divided by a power of ten near to them.

  `places` is what a number is shown with: three digits more than wanted are cut off, and the first of them
  decides, a five upwards (`Binary.places`).
-/

namespace ExprGraph.Number

namespace Binary

/-- The first `n` digits when the first one has about the given exponent; for at most `tries` corrections
    of it. -/
def leadingAt (num den n : Nat) : Nat → Int → Decimal
  | 0, e => ⟨[0], e⟩
  | tries + 1, e =>
    let k := (n : Int) - 1 - e
    let m := num * Nat.pow 10 k.toNat / (den * Nat.pow 10 (-k).toNat)
    if Nat.pow 10 n ≤ m then leadingAt num den n tries (e + 1)
    else if m < Nat.pow 10 (n - 1) then leadingAt num den n tries (e - 1)
    else ⟨natDigits m, e⟩

/-- The first digits of a positive number of moderate size. -/
def leadingExact (n : Nat) (a : Binary) : Decimal :=
  leadingAt (a.mantissa.natAbs * Nat.pow 2 a.exponent.toNat) (Nat.pow 2 (-a.exponent).toNat) n 10
    (a.top * 30103 / 100000)

/-- The greatest size of an exponent of two that is expanded exactly. -/
def exactLimit : Nat := 3500

/-- **The first `n` digits** of a positive number, cut off. -/
def leading (n : Nat) (a : Binary) : Decimal :=
  if a.top.natAbs ≤ exactLimit then leadingExact n a
  else
    let bits := bitLength a.exponent.natAbs + 20
    let k := (div .nearest bits (mul .nearest bits (ofInt a.exponent) (log bits (ofInt 2)))
      (log bits (ofInt 10))).floor
    let bits := 4 * n + 20
    let d := leadingExact n (div .towardZero bits a (powInt .towardZero bits (ofInt 10) k))
    ⟨d.digits, d.exponent + k⟩

/-- Adds one to the last of some digits; when all are nines, they become a one and zeros. -/
def increment (digits : List Nat) : List Nat × Bool :=
  let (nines, rest) := (digits.reverse.takeWhile (· == 9), digits.reverse.dropWhile (· == 9))
  match rest with
  | d :: rest => ((List.replicate nines.length 0 ++ (d + 1) :: rest).reverse, false)
  | [] => (1 :: List.replicate (digits.length - 1) 0, true)

/-- **A positive number with `n` digits.** -/
def places (n : Nat) (a : Binary) : Decimal :=
  let d := leading (n + 3) a
  let kept := d.digits.take n
  if 5 ≤ d.digits.getD n 0 then
    let (kept, carried) := increment kept
    ⟨kept, if carried then d.exponent + 1 else d.exponent⟩
  else ⟨kept, d.exponent⟩

example : places 3 (ofRat .nearest 53 (mkRat 2 3)) = ⟨[6, 6, 7], -1⟩ := by decide +kernel
example : places 2 (ofInt 999) = ⟨[1, 0], 3⟩ := by decide +kernel

end Binary

end ExprGraph.Number

import ExprGraph.Number.Root
/-!
  Powers of rational numbers with rational exponents.

  Such a power is a rational number times roots of whole numbers (`Radical`): each root has an exponent
  between zero and one, no two roots share an exponent, and what can be drawn out of a root is drawn out.
  `8 ^ (1/2)` is `2 · 2 ^ (1/2)`, and `(2/3) ^ (1/2)` is `1/3 · 6 ^ (1/2)`.  A negative number contributes
  its power of `-1`, which is kept by its exponent.
-/

namespace ExprGraph

/-- A whole number under a root: base and exponent. -/
abbrev Root := Nat × Rat

/-- A rational number times a power of `-1` times roots. -/
structure Radical where
  factor : Rat
  /-- the exponent of `-1` -/
  turn : Rat
  roots : List Root

open Number (exactRoot?)

namespace Radical

/-! ## Factors -/

/-- A number as the highest power of a whole number that it is, with an exponent above one. -/
def perfectPower? (n : Nat) : Option (Nat × Nat) :=
  if n < 4 then none
  else ((List.range (n.log2 + 1)).reverse.filter (2 ≤ ·)).findSome? fun k =>
    (exactRoot? k n).map fun r => (r, k)

/-- Divides by a number as often as it goes, for at most `bound` times: how often, and what is left. -/
def divideOut (d : Nat) : Nat → Nat → Nat × Nat
  | 0, n => (0, n)
  | bound + 1, n =>
    if n % d = 0 ∧ 1 < d then
      let (k, rest) := divideOut d bound (n / d)
      (k + 1, rest)
    else (0, n)

/-- Factors are searched up to this number. -/
def factorLimit : Nat := 32768

/-- Factors from `d` on, for `bound` candidates; a remainder without small factors counts as one. -/
def factorsFrom : Nat → Nat → Nat → List (Nat × Nat)
  | 0, _, n => if n = 1 then [] else [(n, 1)]
  | bound + 1, d, n =>
    if n < d * d then (if n = 1 then [] else [(n, 1)])
    else
      match divideOut d n.log2 n with
      | (0, _) => factorsFrom bound (d + 1) n
      | (k, rest) => (d, k) :: factorsFrom bound (d + 1) rest

/-- A number above one as a product of powers. -/
def powerFactors (n : Nat) : List (Nat × Nat) :=
  match perfectPower? n with
  | some p => [p]
  | none => factorsFrom factorLimit 2 n

/-! ## Roots -/

/-- What is left under a root of a power with exponent `p / q`, all below one: roots whose exponents share a
    factor with `q` stand alone, the others share the exponent that is left when the greatest common divisor
    of theirs is taken out. -/
def leftUnder (q : Nat) (left : List (Nat × Nat)) : List Root :=
  let (alone, joint) := left.partition fun p => p.2.gcd q != 1
  let common := (joint.map Prod.snd).foldl Nat.gcd 0
  let base := joint.foldl (fun n p => n * Nat.pow p.1 (p.2 / common)) 1
  alone.map (fun p => (p.1, mkRat p.2 q)) ++ (if base = 1 then [] else [(base, mkRat common q)])

/-- **A whole number to a positive exponent**: a whole factor and roots. -/
def wholePower (n : Nat) (r : Rat) : Nat × List Root :=
  let p := r.num.toNat
  match exactRoot? r.den n with
  | some x => (Nat.pow x p, [])
  | none =>
    let powers := (powerFactors n).map fun f => (f.1, f.2 * p)
    let out := powers.foldl (fun m f => m * Nat.pow f.1 (f.2 / r.den)) 1
    let left := (powers.map fun f => (f.1, f.2 % r.den)).filter fun f => f.2 != 0
    (out, leftUnder r.den left)

/-- The whole part of an exponent is carried out. -/
def splitWhole (root : Root) : Nat × Root :=
  let whole := (root.2.num / root.2.den).toNat
  (Nat.pow root.1 whole, (root.1, root.2 - whole))

/-- Adds to the value of a key, or puts one. -/
def collect {α β : Type} [BEq α] (join : β → β → β) (key : α) (value : β) :
    List (α × β) → List (α × β)
  | [] => [(key, value)]
  | (k, v) :: rest => if k == key then (k, join v value) :: rest else (k, v) :: collect join key value rest

/-- Roots of one exponent, with their bases multiplied. -/
def joinBases (roots : List Root) : List Root :=
  (roots.foldl (fun acc r => collect (· * ·) r.2 r.1 acc) []).map fun p => (p.2, p.1)

/-- Takes the common divisors with one root out of others: what is left of the base, the others, the roots
    that grew from the divisors, and the factor that came out of these. -/
def takeCommon (e : Rat) : Nat → List Root → Nat × List Root × List Root × Nat
  | b, [] => (b, [], [], 1)
  | b, (c, f) :: rest =>
    let g := b.gcd c
    if g = 1 then
      let (b, rest, grown, out) := takeCommon e b rest
      (b, (c, f) :: rest, grown, out)
    else
      let (out, root) := splitWhole (g, e + f)
      let (b, rest, grown, more) := takeCommon e (b / g) rest
      (b, (c / g, f) :: rest, if root.2 = 0 then grown else root :: grown, out * more)

/-- Roots without common divisors, and the factor that comes out; for at most `bound` roots. -/
def withoutCommon : Nat → List Root → Nat × List Root
  | 0, roots => (1, roots)
  | _, [] => (1, [])
  | bound + 1, (b, e) :: rest =>
    if b = 1 then withoutCommon bound rest
    else
      let (b, rest, grown, out) := takeCommon e b rest
      let (more, roots) := withoutCommon bound (rest ++ grown)
      (out * more, (b, e) :: roots)

/-- **A product of roots**: a whole factor, and roots with exponents below one of which no two agree. -/
def joinRoots (roots : List Root) : Nat × List Root :=
  let byBase := roots.foldl (fun acc r => collect (· + ·) r.1 r.2 acc) []
  let split := (joinBases byBase).map splitWhole
  let out := split.foldl (fun m s => m * s.1) 1
  let kept := (split.map Prod.snd).filter fun r => r.2 != 0
  let (common, kept) := withoutCommon (kept.length * kept.length + 1) kept
  let drawn := (kept.filter fun r => r.1 != 1).map fun r => wholePower r.1 r.2
  (drawn.foldl (fun m d => m * d.1) (out * common), joinBases (drawn.flatMap Prod.snd))

/-! ## Powers -/

/-- **A rational number other than zero to a rational exponent.** -/
def ofPower (p r : Rat) : Radical :=
  let turn := if p < 0 then r else 0
  let size := if p < 0 then -p else p
  let base := if r < 0 then size⁻¹ else size
  let x := if r < 0 then -r else r
  if x.den = 1 then ⟨base ^ x.num.toNat, turn, []⟩
  else
    let whole := (x.num / x.den).toNat + 1
    let (above, roots) := wholePower base.num.toNat x
    let (below, others) :=
      if base.den = 1 then (1, []) else wholePower base.den (whole - x)
    let bottom : Nat := if base.den = 1 then 1 else Nat.pow base.den whole
    let (out, roots) := joinRoots (roots ++ others)
    ⟨mkRat (above * below * out) bottom, turn, roots⟩

/-- **A product of radicals.** -/
def mul (a b : Radical) : Radical :=
  let (out, roots) := joinRoots (a.roots ++ b.roots)
  ⟨a.factor * b.factor * out, a.turn + b.turn, roots⟩

/-- The radical one. -/
def one : Radical := ⟨1, 0, []⟩

/-- The power of `-1` with its whole part carried out. -/
def settle (a : Radical) : Radical :=
  let whole := a.turn.num / a.turn.den
  ⟨if whole % 2 = 0 then a.factor else -a.factor, a.turn - whole, a.roots⟩

end Radical

end ExprGraph

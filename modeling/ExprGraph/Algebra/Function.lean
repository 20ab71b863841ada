import ExprGraph.Algebra.Power
/-!
  Sine, cosine, their hyperbolic companions, and the logarithm.

  Odd functions hand the sign of an argument that leans to the negative side on, even ones drop it.  A
  factor `i` turns the circular functions into the hyperbolic ones and back.  Functions of decimals are carried
  out, and sine and cosine of rational multiples of `π` as far as their denominators allow.
-/

namespace ExprGraph

open Number (Binary)

namespace Algebra

/-! ## Factors of arguments -/

/-- What multiplies the imaginary unit, when that is a factor. -/
def imaginaryFactor? (e : Algebra) : Option Algebra :=
  let isI := fun f : Algebra => match f with
    | constant .i => true
    | _ => false
  if e.factors.any isI then
    let rest := e.factors.filter fun f => !isI f
    some (match rest with
      | [] => int 1
      | [f] => f
      | fs => product fs)
  else none

/-- The rational number that multiplies `π`, when there is nothing else. -/
def piFactor? (e : Algebra) : Option Rat :=
  match e.coefficient with
  | (.exact q, constant .pi) => some q
  | _ => none

/-- The rational multiple of `π` in a sum, cut to a multiple of `π/2`, and what is left. -/
def withoutQuarters (ts : List Algebra) : Option (Rat × Algebra) :=
  let q := (ts.filterMap piFactor?).foldl (· + ·) 0
  let quarters : Rat := mkRat (2 * q).floor 2
  if quarters = 0 then none
  else some (quarters,
    sumOf ((ts.filter fun t => t.piFactor?.isNone) ++ [times (.exact (q - quarters)) (constant .pi)]))

/-! ## Multiples of half a circle -/

/-- Denominators whose fractions are differences of fractions with the two given denominators. -/
def angleTable : List (Nat × Nat × Nat) :=
  [(12, 3, 4), (20, 4, 5), (30, 5, 6), (15, 6, 10), (24, 6, 8), (40, 8, 10), (60, 20, 30), (120, 40, 60)]

/-- The cosine of a rational multiple of `π`, if its denominator allows; bounded. -/
def cosPi? : Nat → Rat → Option Algebra
  | 0, _ => none
  | depth + 1, r =>
    let r := r - 2 * ((r / 2).floor : Rat)
    if 1 < r then (cosPi? depth (r - 1)).map negate
    else if 1 < 2 * r then (cosPi? depth (1 - r)).map negate
    else if r = 0 then some (int 1)
    else if r = mkRat 1 2 then some (int 0)
    else
      match angleTable.lookup r.den with
      | some (m, n) => do
        let a := mkRat r.num m
        let b := mkRat r.num n
        let half := mkRat 1 2
        return sumOf [productOf [← cosPi? depth a, ← cosPi? depth b],
          productOf [← cosPi? depth (half - a), ← cosPi? depth (half - b)]]
      | none =>
        if 12 < r.den then none
        else if r.den = 3 then some half
        else if r.den = 5 then
          let root := times (.exact (mkRat 1 4)) (powerOf (int 5) half)
          some (sumOf [root, rational (if r.num = 1 then mkRat 1 4 else -mkRat 1 4)])
        else if r.den % 2 = 0 then
          (cosPi? depth (2 * r)).map fun c => powerOf (times (.exact (mkRat 1 2)) (sumOf [int 1, c])) half
        else none

/-- A bound for the halvings of an angle. -/
def angleDepth : Nat := 16

/-- The argument of a cosine of a rational multiple of `π` between zero and `π/2`, and the sign in front. -/
def foldedAngle (r : Rat) : Rat × Bool :=
  let r := r - 2 * ((r / 2).floor : Rat)
  let (r, flip) := if 1 < r then (r - 1, true) else (r, false)
  if 1 < 2 * r then (1 - r, !flip) else (r, flip)

/-- The cosine of a rational multiple of `π`. -/
def cosPi (r : Rat) : Algebra :=
  match cosPi? angleDepth r with
  | some e => e
  | none =>
    let (r, flip) := foldedAngle r
    let c := apply .cos [times (.exact r) (constant .pi)]
    if flip then negate c else c

/-- The sine of a rational multiple of `π`. -/
def sinPi (r : Rat) : Algebra :=
  match cosPi? angleDepth (mkRat 1 2 - r) with
  | some e => e
  | none =>
    let r := r - 2 * ((r / 2).floor : Rat)
    let (r, flip) := if 1 < r then (r - 1, true) else (r, false)
    let r := if 1 < 2 * r then 1 - r else r
    let s := apply .sin [times (.exact r) (constant .pi)]
    if flip then negate s else s

/-! ## Sine and cosine -/

/-- A sine without a value of its own. -/
def plainSin (e : Algebra) : Algebra :=
  if e.isZero then int 0 else if e.leansNegative then negate (apply .sin [e.negate]) else apply .sin [e]

/-- A cosine without a value of its own. -/
def plainCos (e : Algebra) : Algebra :=
  if e.isZero then int 1 else apply .cos [if e.leansNegative then e.negate else e]

/-- Some number between `-1` and `1`. -/
def betweenOnes : Algebra := apply .between [int (-1), int 1]

/-- **Sine.** -/
def sinOf (e : Algebra) : Algebra :=
  match e with
  | number q =>
    if q.isZero then int 0
    else match q with
      | .decimal x n => number (.sin x n)
      | .infinite _ => betweenOnes
      | .undefined => e
      | .exact p => if p < 0 then negate (apply .sin [e.negate]) else apply .sin [e]
  | constant .complexInfinity => undefined
  | e =>
    let (flip, e) := if e.leansNegative then (true, e.negate) else (false, e)
    let value :=
      match e.imaginaryFactor?, e.piFactor?, e with
      | some y, _, _ => productOf [i, apply .sinh [y]]
      | none, some r, _ => sinPi r
      | none, none, sum ts =>
        match withoutQuarters ts with
        | some (m, rest) =>
          sumOf [productOf [sinPi m, plainCos rest], productOf [cosPi m, plainSin rest]]
        | none => apply .sin [e]
      | none, none, e => apply .sin [e]
    if flip then negate value else value

/-- **Cosine.** -/
def cosOf (e : Algebra) : Algebra :=
  match e with
  | number q =>
    if q.isZero then int 1
    else match q with
      | .decimal x n => number (.cos x n)
      | .infinite _ => betweenOnes
      | .undefined => e
      | .exact p => apply .cos [if p < 0 then e.negate else e]
  | constant .complexInfinity => undefined
  | e =>
    let e := if e.leansNegative then e.negate else e
    match e.imaginaryFactor?, e.piFactor?, e with
    | some y, _, _ => apply .cosh [y]
    | none, some r, _ => cosPi r
    | none, none, sum ts =>
      match withoutQuarters ts with
      | some (m, rest) =>
        sumOf [productOf [cosPi m, plainCos rest], negate (productOf [sinPi m, plainSin rest])]
      | none => apply .cos [e]
    | none, none, e => apply .cos [e]

/-- **Hyperbolic sine.** -/
def sinhOf (e : Algebra) : Algebra :=
  match e with
  | number q =>
    if q.isZero then int 0
    else match q with
      | .decimal x n => number (.sinh x n)
      | .infinite _ | .undefined => e
      | .exact p => if p < 0 then negate (apply .sinh [e.negate]) else apply .sinh [e]
  | constant .complexInfinity => undefined
  | e =>
    match e.imaginaryFactor? with
    | some y => productOf [i, sinOf y]
    | none => if e.leansNegative then negate (apply .sinh [e.negate]) else apply .sinh [e]

/-- **Hyperbolic cosine.** -/
def coshOf (e : Algebra) : Algebra :=
  match e with
  | number q =>
    if q.isZero then int 1
    else match q with
      | .decimal x n => number (.cosh x n)
      | .infinite _ => infinity
      | .undefined => e
      | .exact p => apply .cosh [if p < 0 then e.negate else e]
  | constant .complexInfinity => undefined
  | e =>
    match e.imaginaryFactor? with
    | some y => cosOf y
    | none => apply .cosh [if e.leansNegative then e.negate else e]

/-! ## Logarithm -/

/-- The logarithm of a number. -/
def logNumber (q : Scalar) : Algebra :=
  if q.isZero then complexInfinity
  else match q with
    | .exact p =>
      if p = 1 then int 0
      else if p.num = 1 then negate (apply .log [int p.den])
      else apply .log [number q]
    | .decimal x n => number (.log x n)
    | .infinite _ => infinity
    | .undefined => undefined

/-- **The logarithm.**  It undoes a real exponential, that of a reciprocal is negative, and a number below zero
    adds `i · π`. -/
def logOf (e : Algebra) : Algebra :=
  match e with
  | constant .e => int 1
  | constant .complexInfinity => e
  | number q =>
    if q.isNegative && q.isFinite then
      (if q.isExactly (-1) then productOf [constant .pi, i]
        else sumOf [productOf [constant .pi, i], logNumber q.negate])
    else logNumber q
  | apply .exp [x] => if x.isReal then x else apply .log [e]
  | e =>
    if e.isNumeric && e.sign.isNegative then sumOf [productOf [constant .pi, i], apply .log [e.negate]]
    else
      match e.imaginaryFactor? with
      | some (number q) =>
        if q.isFinite && !q.isDecimal then
          let quarter := productOf [half, constant .pi, i]
          sumOf [if q.isNegative then negate quarter else quarter, logNumber q.abs]
        else if q.isDecimal then apply .log [e]
        else infinity
      | _ => apply .log [e]

/-- The square root. -/
def sqrtOf (e : Algebra) : Algebra := powerOf e half

end Algebra

end ExprGraph

import ExprGraph.Algebra.Function
/-!
  Absolute value, real part and imaginary part.

  The absolute value of a product takes out the factors whose own absolute value is known; that of an
  exponential is the exponential of the real part.  Real and imaginary part go through sums, exponentials,
  sine, cosine and whole powers, and through products as far as the factors are real.  What cannot be taken
  apart keeps the function around it.

  An absolute value does not depend on the sign of its argument.  Of a sum and its negative it keeps the one
  that does not lean to the negative side, also deep inside the argument, where `-1` is left in front.

  The four functions call each other on ever smaller expressions; the first argument bounds how deep.
-/

namespace ExprGraph

namespace Algebra

/-! ## Fractions -/

/-- The rational number that can be drawn out of a sum so that its terms have coprime whole factors. -/
def content (ts : List Algebra) : Rat :=
  let qs := ts.map fun t => (t.coefficient.1.rational?).getD 1
  let common : Nat := qs.foldl (fun g q => Nat.gcd g q.num.natAbs) 0
  mkRat common (qs.foldl (fun l q => Nat.lcm l q.den) 1)

/-- The exponent counts for the denominator: it is negative, or a product of unknown sign with a minus in
    front. -/
def isBelow (x : Algebra) : Bool :=
  let s := x.sign
  s.isNegative || (x.factors.length != 1 && !s.isPositive && x.leansNegative)

/-- Numerator and denominator of a power whose base has the given ones.  A root goes to a denominator only if
    that is known to be positive. -/
def powerFraction (b x n d : Algebra) : Algebra × Algebra :=
  let whole := x.integer?.isSome
  let (n, d) : Algebra × Algebra :=
    if !whole && !d.isReal then (b, int 1)
    else if d.sign.nonpos then (negate n, negate d)
    else if !whole && !d.sign.isPositive then (b, int 1)
    else (n, d)
  if x.isBelow then (powerOf d x.negate, powerOf n x.negate) else (powerOf n x, powerOf d x)

/-- A whole factor in front of an expression; a sum stays together. -/
def keepFactor (k : Int) (e : Algebra) : Algebra :=
  match e with
  | sum ts => if k = 1 then sum ts else product [int k, sum ts]
  | e => times (.exact k) e

/-- A sum of fractions times a number as one fraction; those with one denominator are taken together
    first. -/
def sumFraction (c : Rat) (parts : List (Algebra × Algebra)) : Algebra × Algebra :=
  let denominators := distinct (parts.map Prod.snd)
  let numerators := fun d : Algebra => (parts.filter fun p => p.2.same d).map Prod.fst
  match denominators with
  | [d] => (sumOf ((numerators d).map (times (.exact c.num))), keepFactor c.den d)
  | ds =>
    let numerator := fun d : Algebra =>
      productOf (sumOf (numerators d) :: ds.filter fun d' => !d'.same d)
    (keepFactor c.num (sumOf (ds.map numerator)), keepFactor c.den (productOf ds))

/-- The fraction of a term as that of the term over the content of its sum. -/
def overContent (c : Rat) (t : Algebra) (p : Algebra × Algebra) : Algebra × Algebra :=
  let q := (t.coefficient.1.rational?).getD 1
  (times (.exact (q / c / q.num)) p.1, times (.exact (mkRat 1 q.den)) p.2)

mutual

/-- **Numerator and denominator of an expression.** -/
def fraction : Algebra → Algebra × Algebra
  | number (.exact q) => (int q.num, int q.den)
  | power b x =>
    let (n, d) := fraction b
    powerFraction b x n d
  | apply .exp [x] =>
    if x.sign.isNegative || (!x.negate.sign.isNegative && x.leansNegative) then (int 1, expOf x.negate)
    else (apply .exp [x], int 1)
  | product fs =>
    let parts := fractions fs
    (productOf (parts.map Prod.fst), productOf (parts.map Prod.snd))
  | sum ts =>
    let c := content ts
    sumFraction c (List.zipWith (overContent c) ts (fractions ts))
  | e => (e, int 1)

/-- Numerators and denominators of several expressions. -/
def fractions : List Algebra → List (Algebra × Algebra)
  | [] => []
  | e :: es => fraction e :: fractions es

end

/-! ## Signs -/

/-- A function of arguments that have changed. -/
def rebuild (f : FunctionName) (es : List Algebra) : Algebra :=
  match f, es with
  | .sin, [e] => sinOf e
  | .cos, [e] => cosOf e
  | .sinh, [e] => sinhOf e
  | .cosh, [e] => coshOf e
  | .exp, [e] => expOf e
  | .log, [e] => logOf e
  | f, es => apply f es

mutual

/-- Puts `-1` in front of the outermost sums that lean to the negative side; what contains one is built
    anew. -/
def frontSigns (e : Algebra) : Algebra :=
  match e with
  | sum ts =>
    if (sum ts).leansNegative then product [int (-1), negate (sum ts)]
    else
      let ts' := frontSignsAll ts
      if codes ts' == codes ts then e else sumOf ts'
  | product fs =>
    let fs' := frontSignsAll fs
    if codes fs' == codes fs then e else productOf fs'
  | power b x =>
    let b' := frontSigns b
    let x' := frontSigns x
    if b'.same b && x'.same x then e else powerOf b' x'
  | apply f es =>
    let es' := frontSignsAll es
    if codes es' == codes es then e else rebuild f es'
  | e => e

/-- The same for several expressions. -/
def frontSignsAll : List Algebra → List Algebra
  | [] => []
  | e :: es => frontSigns e :: frontSignsAll es

end

mutual

/-- Carries out the products of a number and a sum. -/
def spreadNumbers (e : Algebra) : Algebra :=
  match e with
  | product [number q, sum ts] => times q (sum ts)
  | sum ts =>
    let ts' := spreadNumbersAll ts
    if codes ts' == codes ts then e else sumOf ts'
  | product fs =>
    let fs' := spreadNumbersAll fs
    if codes fs' == codes fs then e else productOf fs'
  | power b x =>
    let b' := spreadNumbers b
    let x' := spreadNumbers x
    if b'.same b && x'.same x then e else powerOf b' x'
  | apply f es =>
    let es' := spreadNumbersAll es
    if codes es' == codes es then e else rebuild f es'
  | e => e

/-- The same for several expressions. -/
def spreadNumbersAll : List Algebra → List Algebra
  | [] => []
  | e :: es => spreadNumbers e :: spreadNumbersAll es

end

/-- **The argument of an absolute value with its sign in front.**  Inside of a sum nothing changes; a sum
    inside of a sum that has been turned turns too, and the outer one back. -/
def signInFront (e : Algebra) : Algebra :=
  match e.spreadNumbers with
  | sum ts => if (sum ts).leansNegative then product [int (-1), negate (sum ts)] else sum ts
  | e => e.frontSigns.frontSigns

/-! ## Complex numbers -/

/-- A number as the sum of a real and an imaginary part. -/
structure Parts where
  re : Algebra
  im : Algebra

namespace Parts

/-- A real number. -/
def real (e : Algebra) : Parts := ⟨e, int 0⟩

/-- Product of two numbers. -/
def mul (p q : Parts) : Parts :=
  ⟨sumOf [productOf [p.re, q.re], negate (productOf [p.im, q.im])],
    sumOf [productOf [p.im, q.re], productOf [p.re, q.im]]⟩

/-- The terms of `(re + im · i) ^ n`, those with even or with odd powers of `i`. -/
def powerTerms (p : Parts) (n : Nat) (odd : Bool) : List Algebra :=
  (List.range (n + 1)).filterMap fun k =>
    if (k % 2 == 1) == odd then
      let choose := (List.range k).foldl (fun c i => c * (n - i) / (i + 1)) 1
      let q : Int := if (k / 2) % 2 = 0 then choose else -(choose : Int)
      some (productOf [int q, powerOf p.re (int (n - k : Nat)), powerOf p.im (int k)])
    else none

/-- A whole power. -/
def pow (p : Parts) (n : Nat) : Parts := ⟨sumOf (p.powerTerms n false), sumOf (p.powerTerms n true)⟩

/-- The square of the distance from zero. -/
def square (p : Parts) : Algebra := sumOf [powerOf p.re (int 2), powerOf p.im (int 2)]

/-- The reciprocal. -/
def inverse (p : Parts) : Parts := ⟨quotient p.re p.square, quotient p.im.negate p.square⟩

end Parts

/-- The terms of the product of two sums. -/
def crossTerms (a b : Algebra) : Algebra :=
  sumOf (a.terms.flatMap fun s => b.terms.map fun t => productOf [s, t])

/-- The conjugate of a sum whose terms are real, or real multiples of the imaginary unit. -/
def conjugate? (e : Algebra) : Option Algebra :=
  (e.terms.mapM fun (t : Algebra) =>
    if t.isReal then some t
    else match t.imaginaryFactor? with
      | some (y : Algebra) => if y.isReal then some t.negate else none
      | none => none).map sumOf

mutual

/-- Absolute values, bounded; the second argument is the expression with its sign in front.  Where nothing
    is known the expression stays as it is. -/
def absWithin : Nat → Algebra → Algebra
  | 0, e => apply .abs [e]
  | depth + 1, original =>
    let e := original.signInFront
    let unknown := apply .abs [original]
    let (above, below) := e.fraction
    if below.hasSymbol && !above.hasSymbol then quotient (absWithin depth above) (absWithin depth below)
    else
      let bySign :=
        let s := e.sign
        if s.nonneg then (if e.isZero then int 0 else e) else if s.nonpos then negate e
        else match (if s.real then none else conjugate? e) with
          | some c => if c.same e then unknown else sqrtOf (crossTerms e c)
          | none => unknown
      match e with
      | number .undefined => e
      | number q => number q.abs
      | constant .complexInfinity => infinity
      | constant .i => int 1
      | product fs =>
        let parts := fs.map fun f =>
          let (b, outer) : Algebra × (Algebra → Algebra) := match f with
            | power b (number q) =>
              if q.isNegative && q.integer?.isSome then (b, fun a => powerOf a (number q)) else (f, id)
            | f => (f, id)
          match absWithin depth b with
          | apply .abs _ => (none, some f)
          | known => (some (outer known), none)
        let known := productOf (parts.filterMap Prod.fst)
        match parts.filterMap Prod.snd with
        | [] => known
        | rest => productOf [known, apply .abs [productOf rest]]
      | power b x =>
        let s := b.sign
        if s.real then
          match x.integer? with
          | some n =>
            if n % 2 = 0 then e else if b.same (int (-1)) then int 1 else powerOf (absWithin depth b) x
          | none =>
            if s.nonneg then powerOf b (reWithin depth x)
            else if s.isNegative then
              productOf [powerOf b.negate (reWithin depth x),
                expOf (productOf [int (-1), constant .pi, imWithin depth x])]
            else unknown
        else if !b.hasSymbol then
          match partsWithin depth (logOf b) none with
          | some p =>
            expOf (reWithin depth (productOf [x, sumOf [p.re, productOf [i, p.im]]]))
          | none => bySign
        else bySign
      | apply .exp [x] => expOf (reWithin depth x)
      | apply (.undefined _) _ => unknown
      | _ => bySign

/-- Real parts, bounded. -/
def reWithin : Nat → Algebra → Algebra
  | 0, e => apply .re [e]
  | depth + 1, e =>
    if e.isUndefined || e.isComplexInfinity then undefined
    else if e.isReal then e
    else if (e.imaginaryFactor?).any isReal then int 0
    else
      let parts := e.terms.map fun t => (t, t.imaginaryFactor?,
        if t.isReal then some t else (partsWithin depth t (some e)).map Parts.re)
      let included := parts.filter fun p => p.2.1.isNone && p.2.2.isNone
      if included.length = e.terms.length then apply .re [e]
      else
        let rest := sumOf (included.map Prod.fst)
        let turned := sumOf ((parts.filterMap fun p => p.2.1).filter fun y => !y.isReal)
        let known := sumOf (parts.filterMap fun p => if p.2.1.isNone then p.2.2 else none)
        sumOf [if rest.isZero then rest else reWithin depth rest,
          if turned.isZero then turned else negate (imWithin depth turned), known]

/-- Imaginary parts, bounded. -/
def imWithin : Nat → Algebra → Algebra
  | 0, e => apply .im [e]
  | depth + 1, e =>
    if e.isUndefined || e.isComplexInfinity then undefined
    else if e.isReal then int 0
    else match (e.imaginaryFactor?).filter isReal with
    | some y => y
    | none =>
      let parts := e.terms.map fun t => (t, t.imaginaryFactor?,
        if t.isReal then some (int 0) else (partsWithin depth t (some e)).map Parts.im)
      let included := parts.filter fun p => p.2.1.isNone && p.2.2.isNone
      if included.length = e.terms.length then apply .im [e]
      else
        let rest := sumOf (included.map Prod.fst)
        let factors := parts.filterMap fun p => p.2.1
        let turned := sumOf (factors.filter fun y => !y.isReal)
        let known := sumOf ((factors.filter isReal)
          ++ parts.filterMap fun p => if p.2.1.isNone then p.2.2 else none)
        sumOf [if rest.isZero then rest else imWithin depth rest,
          if turned.isZero then turned else reWithin depth turned, known]

/-- Both parts of an expression, bounded; nothing when they could only be written as the parts of `whole`,
    which is what they are wanted for. -/
def partsWithin : Nat → Algebra → Option Algebra → Option Parts
  | 0, _, _ => none
  | depth + 1, e, whole =>
    let plain := fun e : Algebra =>
      if whole.any (same e) then none else some (⟨reWithin depth e, imWithin depth e⟩ : Parts)
    let inner := fun e : Algebra =>
      (partsWithin depth e none).getD ⟨apply .re [e], apply .im [e]⟩
    if e.isReal then some (.real e)
    else
      match e with
      | constant .i => some ⟨int 0, int 1⟩
      | sum ts =>
        let parts := ts.map inner
        some ⟨sumOf (parts.map Parts.re), sumOf (parts.map Parts.im)⟩
      | product fs =>
        let parts := fs.map fun f => (f, inner f)
        let real := (parts.filter fun p => p.2.im.isZero).map fun p => p.2
        let turned := (parts.filter fun p => !p.2.im.isZero && p.2.re.isZero).map fun p => p.2
        let others := parts.filter fun p => !p.2.im.isZero && !p.2.re.isZero
        let (sums, single) := others.partition fun p => match p.1 with
          | sum _ => true
          | _ => false
        let rest := productOf (single.map Prod.fst)
        if whole.any (same rest) then none
        else
          let rest := if single.isEmpty then Parts.real (int 1)
            else ⟨reWithin depth rest, imWithin depth rest⟩
          some ((real ++ turned ++ sums.map Prod.snd).foldl Parts.mul rest)
      | power b (number (.exact q)) =>
        let p := inner b
        if q.den = 1 then
          if p.im.isZero then some (.real e)
          else if 0 ≤ q then some (p.pow q.num.toNat)
          else some (p.inverse.pow q.num.natAbs)
        else if p.im.isZero && q == mkRat 1 2 && p.re.isNonneg then some (.real e)
        else
          let size := powerOf p.square (rational (q / 2))
          let turn := productOf [rational q, apply .angle [p.im, p.re]]
          some ⟨productOf [size, cosOf turn], productOf [size, sinOf turn]⟩
      | apply .exp [x] =>
        let p := inner x
        some ⟨productOf [expOf p.re, cosOf p.im], productOf [expOf p.re, sinOf p.im]⟩
      | apply .sin [x] =>
        let p := inner x
        some ⟨productOf [sinOf p.re, coshOf p.im], productOf [cosOf p.re, sinhOf p.im]⟩
      | apply .cos [x] =>
        let p := inner x
        some ⟨productOf [cosOf p.re, coshOf p.im], negate (productOf [sinOf p.re, sinhOf p.im])⟩
      | apply .log [x] =>
        let size := absWithin depth x
        if size.same x then some (.real e)
        else some ⟨logOf size, if x.sign.isNegative then constant .pi else apply .argument [x]⟩
      | e => plain e

end

/-- **The absolute value.** -/
def absOf (e : Algebra) : Algebra := absWithin (depthFor [e]) e

/-- **The real part.** -/
def realPart (e : Algebra) : Algebra := reWithin (depthFor [e]) e

/-- **The imaginary part.** -/
def imaginaryPart (e : Algebra) : Algebra := imWithin (depthFor [e]) e

end Algebra

end ExprGraph

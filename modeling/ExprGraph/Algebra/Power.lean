import ExprGraph.Algebra.Radical
import ExprGraph.Algebra.Sum
/-!
  Products, powers and exponentials.

  A product merges its numbers and the powers of one base whose exponents differ in a numeric factor only;
  powers of numbers with one exponent become the power of their product.  A power with a whole exponent is
  carried out on numbers, products, powers and exponentials.  With any other exponent it is carried out on
  numbers, and on the factors and inner powers of its base whose sign allows it.  An exponential undoes
  logarithms.

  The three call each other on ever smaller expressions; the first argument bounds how deep.
-/

namespace ExprGraph

open Number (Binary)

namespace Algebra

/-! ## Collected factors -/

/-- The factors of a product, collected. -/
structure Factors where
  factor : Scalar
  /-- the infinity without direction is among the factors -/
  directionless : Bool
  /-- roots of whole numbers, and the power of `-1` -/
  radical : Radical
  /-- bases with the symbolic parts of their exponents and the numeric factors of these -/
  powers : List ((Algebra × Algebra) × Scalar)
  /-- numbers above zero with symbolic or decimal exponents, taken apart likewise -/
  numberPowers : List ((Algebra × Algebra) × Scalar)

namespace Factors

/-- No factors. -/
def empty : Factors := ⟨.exact 1, false, .one, [], []⟩

/-- Adds to the exponent of a base. -/
def collect (b x : Algebra) (powers : List ((Algebra × Algebra) × Scalar)) :
    List ((Algebra × Algebra) × Scalar) :=
  let (q, t) := x.coefficient
  match powers with
  | [] => [((b, t), q)]
  | ((c, u), p) :: rest =>
    if c.same b && u.same t then ((c, u), p.add q) :: rest else ((c, u), p) :: collect b x rest

/-- Zero has no product with a sum of which one term is infinite. -/
def hasInfiniteTerm (e : Algebra) : Bool :=
  match e with
  | sum ts => ts.any fun t => t.factors.any isInfinity
  | _ => false

/-- Takes in a number.  Zero has no product with an infinity. -/
def takeNumber (s : Factors) (q : Scalar) : Factors :=
  if s.directionless then (if q.isZero || q = .undefined then { s with factor := .undefined } else s)
  else { s with factor := s.factor.mul q }

/-- Takes in a factor that is neither a product nor a power of a number that has a value. -/
def takeOne (s : Factors) (e : Algebra) : Factors :=
  match e with
  | number q => s.takeNumber q
  | constant .complexInfinity =>
    if s.factor.isZero then { s with factor := .undefined } else { s with directionless := true }
  | constant .i => { s with radical := { s.radical with turn := s.radical.turn + mkRat 1 2 } }
  | e =>
    if s.factor.isZero && hasInfiniteTerm e then { s with factor := .undefined }
    else
      let (b, x) := e.baseExponent
      match e, b, x.rational? with
      | power _ _, number (.exact p), some r =>
        if p = 0 then { s with powers := collect b x s.powers }
        else { s with radical := s.radical.mul (Radical.ofPower p r) }
      | power _ _, number p, none =>
        if p.isPositive && p.isFinite then { s with numberPowers := collect b x s.numberPowers }
        else { s with powers := collect b x s.powers }
      | _, _, _ => { s with powers := collect b x s.powers }

/-- The collected powers, without those whose exponents have gone. -/
def remaining (powers : List ((Algebra × Algebra) × Scalar)) : List (Algebra × Algebra) :=
  (powers.filter fun p => !p.2.isZero).map fun ((b, t), q) => (b, times q t)

/-- Infinities cancel in a base whose exponent has gone. -/
def cancelsInfinity (powers : List ((Algebra × Algebra) × Scalar)) : Bool :=
  powers.any fun ((b, _), q) => q.isZero && match b with
    | sum es | product es => es.any isInfinity
    | _ => false

/-- Powers of numbers with one exponent, as the power of the product of the numbers. -/
def shared (powers : List (Algebra × Algebra)) : List (Scalar × Algebra) :=
  (powers.foldl (fun acc (b, x) => Radical.collect (fun (p : Algebra × Scalar) (q : Algebra × Scalar) =>
    (p.1, p.2.mul q.2)) x.code (x, (b.number?).getD (.exact 1)) acc) []).map fun (_, x, q) => (q, x)

end Factors

/-- The factors of expressions: those of products come behind the others, level by level for at most so many
    levels. -/
def productsLast : Nat → List Algebra → List Algebra
  | 0, es => es
  | levels + 1, es =>
    let (products, others) := es.partition fun e => match e with
      | product _ => true
      | _ => false
    if products.isEmpty then es else others ++ productsLast levels (products.flatMap factors)

/-- A radical as a number and factors. -/
def radicalFactors (r : Radical) : Rat × List Algebra :=
  let r := r.settle
  let half := decide (r.turn = mkRat 1 2)
  let joined := !half && r.turn != 0 && r.roots.any fun root => root.2 == r.turn
  let roots := r.roots.map fun root =>
    power (int (if joined && root.2 == r.turn then -(root.1 : Int) else root.1)) (rational root.2)
  let turn := if half then [i] else if joined || r.turn == 0 then [] else [power (int (-1)) (rational r.turn)]
  (r.factor, roots ++ turn)

/-- A number times other factors, of which none is a number.  A finite number goes to the terms of a sum. -/
def withNumber (q : Scalar) (fs : List Algebra) : Algebra :=
  match fs with
  | [] => number q
  | [sum ts] =>
    if q.isExactly 1 then sum ts
    else if q.isFinite then times q (sum ts)
    else product [number q, sum ts]
  | fs => if q.isExactly 1 then ofFactors (sortByKey fs) else product (number q :: sortByKey fs)

/-- An infinity times other factors: those above zero change nothing, those below zero its sign. -/
def infiniteTimes (negative : Bool) (fs : List Algebra) : Algebra :=
  let below := fs.filter fun f => f.sign.isNegative
  let rest := fs.filter fun f => !f.sign.isNegative && !f.sign.isPositive
  let (numbers, rest) := rest.partition fun f => f.number?.isSome
  withNumber ((numbers.filterMap number?).foldl Scalar.mul
    (.infinite (negative != (below.length % 2 == 1)))) rest

/-- The infinity without direction times other factors, of which those that cannot change it go. -/
def directionlessTimes (fs : List Algebra) : Algebra :=
  match fs.filter fun f => !(f.sign.nonzero && f.isRealnessKnown) with
  | [] => complexInfinity
  | fs => product (complexInfinity :: sortByKey fs)

/-- **A number and evaluated factors as a product.** -/
def Factors.finish (s : Factors) (parts : List Algebra) : Algebra :=
  if s.factor = .undefined then undefined
  else if s.directionless then directionlessTimes parts
  else
    match s.factor with
    | .infinite negative => infiniteTimes negative parts
    | q =>
      if q.isZero then (if parts.any isInfinity then undefined else number q)
      else
        let (numbers, others) := parts.partition fun e => e.number?.isSome
        let q := (numbers.filterMap number?).foldl Scalar.mul q
        if q = .undefined then undefined else withNumber q others

/-! ## Numbers -/

/-- The product of a radical alone. -/
def ofRadical (r : Radical) : Algebra :=
  let (q, fs) := radicalFactors r
  withNumber (.exact q) fs

/-- A complex number from its decimal parts. -/
def complexDecimal (bits : Nat) (p : Binary × Binary) : Algebra :=
  let re := Scalar.ofResult bits p.1
  let im := timesSingle (Scalar.ofResult bits p.2) i
  if im.isZero then number re else sumOf [number re, im]

/-- A number to a power with a decimal in it. -/
def decimalPower (b x : Scalar) : Algebra :=
  match b, x with
  | .decimal b n, .exact r =>
    if r.den = 1 then number (.ofResult n (.powInt .nearest n b r.num))
    else if r.num = 1 ∧ r.den % 2 = 1 ∧ b.isNegative then
      let size := Scalar.positivePower n b.abs (.ofRat .nearest n r)
      product [number (.ofResult n size), power (int (-1)) (rational r)]
    else complexDecimal n (Scalar.power n b (.ofRat .nearest n r))
  | b, x =>
    let n := max b.bits x.bits
    complexDecimal n (Scalar.power n (b.toBinary x.bits) (x.toBinary n))

/-- A number to an infinite power: it grows beyond bounds, vanishes, or has no limit. -/
def infinitePower (b : Scalar) (negative : Bool) : Algebra :=
  let above := (Scalar.exact 1).less b
  let below := b.less (.exact (-1))
  let within := (Scalar.exact (-1)).less b && b.less (.exact 1)
  if negative then
    if b.isZero then complexInfinity
    else if above || (below && b.isFinite) then int 0
    else if within && b.isPositive then infinity
    else undefined
  else
    if above then infinity
    else if within then int 0
    else if below && b.isFinite then complexInfinity
    else undefined

/-- **A number to a numeric power**, other than zero and one.  Zero has no negative power. -/
def numberPower (b x : Scalar) : Algebra :=
  match b, x with
  | .undefined, _ | _, .undefined => undefined
  | b, .infinite negative => infinitePower b negative
  | .infinite negative, x =>
    if x.isZero then power (number b) (number x)
    else if x.isNegative then int 0
    else if !negative then infinity
    else match x with
      | .exact r =>
        if r.den = 1 then number (.infinite (r.num % 2 = 1))
        else
          let (q, fs) := radicalFactors ⟨1, r, []⟩
          infiniteTimes (decide (q < 0)) fs
      | x => infiniteTimes false (decimalPower (.exact (-1)) x).factors
  | b, x =>
    if b.isZero && !x.isZero then (if x.isNegative then complexInfinity else number b)
    else if b.isExactly 0 || b.isExactly 1 then int 1
    else match b, x with
      | .exact p, .exact r => ofRadical (Radical.ofPower p r)
      | b, x => decimalPower b x

/-! ## Exponents -/

/-- The denominator of an exponent is two. -/
def isHalf (x : Algebra) : Bool := x.rational?.any fun q => q.den == 2

/-- A numeric expression is known to be smaller than a number in size. -/
def isWithin (bound : Nat) (e : Algebra) : Bool :=
  match e.isNumeric, e.approximate? with
  | true, some p => p.isReal && p.size.less (.ofInt bound)
  | _, _ => false

/-- The number of turns by which the angle of a numeric power is off the principal branch: the floor of
    `1/2 - angle / 2π`, where the angle is the imaginary part of the exponent times the logarithm.  Of a base
    below zero only the angle is needed. -/
def turnsOff? (b x : Algebra) : Option Int := do
  let p ← if b.isNumeric then b.approximate?
    else if b.sign.isNegative then some (.real (Binary.ofInt (-1))) else none
  let q ← x.approximate?
  let angle := ((← p.log?).mul q).im
  let circle := (Binary.pi Point.bits).scale 1
  return ((Point.plus (Binary.ofParts 1 (-1)) (Binary.div .nearest Point.bits angle circle).negate)).floor

/-- The sign that comes in front when an outer exponent multiplies an inner one: none when the exponents
    do not multiply.  They do when the outer one is whole, when the inner one is real and below one or the
    base is not negative, and when the angle of the inner power stays on the principal branch. -/
def exponentsMultiply? (b x outer : Algebra) : Option Int :=
  if outer.integer?.isSome then some 1
  else if x.isReal then
    if isWithin 1 x || x.isOne || b.isNonneg then some 1
    else if isWithin 2 x && b.isNumeric && b.approximate?.any fun p => !p.re.isNegative then some 1
    else if isHalf outer && x.isNumeric then
      (turnsOff? b x).map fun k => if k % 2 = 0 then 1 else -1
    else none
  else if x.isNumeric then
    match turnsOff? b x with
    | some 0 => some 1
    | some k =>
      match outer.rational? with
      | some q =>
        let turns := 2 * q * k
        if turns.den = 1 then some (if turns.num % 2 = 0 then 1 else -1) else none
      | none => none
    | none => none
  else none

/-- The base of an even power, when it is real: its absolute value. -/
def evenBase (b x : Algebra) : Algebra :=
  match x.integer? with
  | some n =>
    if n % 2 = 0 && b.isReal then
      (if b.isNonneg then b else if b.sign.nonpos then b.negate
        else apply .abs [if b.leansNegative then b.negate else b])
    else b
  | none => b

/-- What is left of an exponent whose only denominator is the logarithm of the base. -/
def overLog? (b x : Algebra) : Option (List Algebra) :=
  let (below, above) := x.factors.partition fun f => match f with
    | power _ y => y.hasMinus
    | _ => false
  match below with
  | [power (apply .log [y]) n] => if y.same b && n.same (int (-1)) then some above else none
  | _ => none

/-! ## Bases -/

/-- The factors of a base, sorted for a power that is not whole. -/
structure Split where
  /-- each has a power of its own -/
  apart : List Algebra
  /-- these stay together -/
  together : List Algebra

/-- **The factors of a base that a power can be carried out on.**  Those that are not negative stand alone.
    Negative ones give up their sign, as long as a single `-1` is left with the others. -/
def splitBase (fs : List Algebra) : Split :=
  let (nonreal, rest) := fs.partition fun f => f.isNumeric && f.approximate?.any fun p => !p.isReal
  let (nonneg, rest) := rest.partition isNonneg
  let (neg, unsure) := rest.partition fun f => f.sign.isNegative
  let other := nonreal ++ unsure
  match neg with
  | [] => ⟨nonneg, other⟩
  | [n] =>
    if other.isEmpty then ⟨nonneg, [n]⟩
    else match n with
      | number q =>
        if q.isExactly (-1) then ⟨nonneg, other ++ [n]⟩
        else ⟨nonneg ++ [number q.negate], other ++ [int (-1)]⟩
      | n => ⟨nonneg, other ++ [n]⟩
  | n :: more =>
    let (o, neg) := if other.isEmpty && n.number?.isSome then (n, more) else (int 1, neg)
    let o := if neg.length % 2 = 1 then o.negate else o
    ⟨nonneg ++ neg.map negate, other ++ (if o.isOne then [] else [o])⟩

/-- The greatest numeric factor of the terms of a sum, in size. -/
def greatestFactor (ts : List Algebra) : Scalar :=
  ts.foldl (fun big t =>
    let q := t.coefficient.1.abs
    if q.less big then big else q) (.exact (-1))

/-- A sum with the greatest numeric factor of its terms taken out, when some factor is a decimal and the
    greatest is not one. -/
def drawFactor? (ts : List Algebra) : Option (Scalar × Algebra) :=
  let big := greatestFactor ts
  let isOne := big.isExactly 1 || big.compare (.exact 1) == .eq
  if ts.any (fun t => t.coefficient.1.isDecimal) && big.isPositive && big.isFinite && !isOne then
    let divided := fun q : Scalar =>
      if q = big then .exact 1
      else if q = big.negate then .exact (-1)
      else match q, big with
        | .exact p, .exact r => .exact (p / r)
        | .exact p, .decimal x n => (Scalar.exact p).mul (.ofResult n (.powInt .nearest n x (-1)))
        | q, big => q.div big
    some (big, sumOf (ts.map fun t =>
      let (q, e) := t.coefficient
      times (divided q) e))
  else none

/-- The numbers of a sum of a number and a multiple of the imaginary unit. -/
def complexNumber? : Algebra → Option (Scalar × Scalar)
  | sum [number p, product [number q, constant .i]] | sum [product [number q, constant .i], number p] =>
    some (p, q)
  | sum [number p, constant .i] | sum [constant .i, number p] => some (p, .exact 1)
  | _ => none

/-- A complex number from its rational parts. -/
def complexRational (re im : Rat) : Algebra := sumOf [rational re, times (.exact im) i]

/-- A natural power of a complex number with rational parts. -/
def complexPower (re im : Rat) : Nat → Rat × Rat
  | 0 => (1, 0)
  | n + 1 =>
    let (u, v) := complexPower re im n
    (u * re - v * im, u * im + v * re)

/-- The square root, when it is rational. -/
def rationalRoot? (q : Rat) : Option Rat :=
  if q < 0 then none
  else do return mkRat (← Number.exactRoot? 2 q.num.toNat) (← Number.exactRoot? 2 q.den)

mutual

/-- Products, bounded. -/
def productWithin : Nat → List Algebra → Algebra
  | 0, es => product es
  | depth + 1, es =>
    match es.filter fun e => !e.isOne with
    | [] => int 1
    | [e] => e
    | es =>
      let s := (productsLast (depth + 1) es).foldl (takeWithin depth) .empty
      if Factors.cancelsInfinity s.powers then undefined
      else
        let evaluate := fun (b, x) => if x.isOne then b else powerWithin depth b x
        let parts := (Factors.remaining s.powers).map fun p => (p, evaluate p)
        let changed := parts.filterMap fun ((b, _), e) =>
          match b, e with
          | power _ _, _ => none
          | b, power c _ => if c.same b then none else some c
          | _, _ => none
        let bases := parts.map fun ((b, _), e) => match b, e with
          | power _ _, _ => b
          | _, e => e.baseExponent.1
        let again := !changed.isEmpty
          && bases.length != (bases.foldl (fun seen e => if seen.any (same e) then seen else e :: seen) []).length
        let s := if again then
            { s with powers := parts.foldl (fun acc (_, e) =>
                Factors.collect e.baseExponent.1 e.baseExponent.2 acc) [] }
          else s
        let parts := if again then (Factors.remaining s.powers).map evaluate else parts.map Prod.snd
        let shared := (Factors.shared (Factors.remaining s.numberPowers)).map fun (q, x) =>
          powerWithin depth (number q) x
        let (q, roots) := radicalFactors s.radical
        (s.takeNumber (.exact q)).finish (parts ++ shared ++ roots)

/-- Takes in a factor that is no product; a power of a number that has a value takes that. -/
def takeWithin : Nat → Factors → Algebra → Factors
  | 0, s, e => s.takeOne e
  | depth + 1, s, e =>
    match e with
    | power (number p) (number x) =>
      match p, x with
      | .exact p, .exact _ =>
        if p = 0 then (powerWithin depth (rational p) (number x)).factors.foldl Factors.takeOne s else s.takeOne e
      | p, x =>
        match powerWithin depth (number p) (number x) with
        | power b y => s.takeOne (power b y)
        | v => v.factors.foldl Factors.takeOne s
    | e => s.takeOne e

/-- Powers, bounded. -/
def powerWithin : Nat → Algebra → Algebra → Algebra
  | 0, b, x => power b x
  | depth + 1, b, x =>
    let whole := x.integer?
    if x.isComplexInfinity then undefined
    else if whole = some 0 then int 1
    else if whole = some 1 then b
    else if b.isUndefined || x.isUndefined then undefined
    else if b.isOne then (if x.isInfiniteNumber then undefined else int 1)
    else if let some above := overLog? b x then expWithin depth (productWithin depth above)
    else
      match b, x with
      | number b, number x => numberPower b x
      | b, number (.infinite false) =>
        if (difference b (int 1)).sign.isPositive then infinity
        else if (difference b (int 1)).sign.isNegative && (difference b (int (-1))).sign.isPositive then int 0
        else if (difference b (int (-1))).sign.isNegative && b.sign.finite then complexInfinity
        else power b x
      | constant .e, x => expWithin depth x
      | constant .i, number (.exact r) =>
        if r.den = 1 then ofRadical ⟨1, r / 2, []⟩
        else
          let turns := r.num / (2 * r.den)
          let rest := power i (rational (r - 2 * turns))
          if turns % 2 = 0 then rest else product [int (-1), rest]
      | constant .complexInfinity, number q =>
        if q.isPositive then complexInfinity else if q.isZero then undefined else int 0
      | number b, x =>
        if b.isZero then
          let (q, t) := x.coefficient
          if x.sign.isPositive then number b
          else if x.sign.isNegative then complexInfinity
          else if !b.isExactly 0 then power (number b) x
          else if x.isNumeric && (x.approximate?.any fun p => !p.isReal) then undefined
          else if q.isNegative then powerWithin depth complexInfinity t
          else power (number b) t
        else match b with
          | .infinite false =>
            if x.sign.isPositive then infinity else if x.sign.isNegative then int 0 else power (number b) x
          | .infinite true =>
            if x.isNumeric && x.sign.isPositive then infiniteTimes false [powerWithin depth (int (-1)) x]
            else if x.isNumeric && x.sign.isNegative then int 0
            else power (number b) x
          | b => power (number b) x
      | product fs, x => productPower depth fs x
      | sum ts, x => sumPower depth ts x
      | apply .exp [y], x =>
        match exponentsMultiply? e y x with
        | some s =>
          let y' := productWithin depth [y, x]
          productWithin depth [int s, expWithin depth y']
        | none => power (apply .exp [y]) x
      | apply .abs [y], x =>
        match whole with
        | some n =>
          if y.isReal && n % 2 = 0 then powerWithin depth y x
          else if y.isReal && n != -1 then
            productWithin depth [powerWithin depth y (int (n - 1)), apply .abs [y]]
          else power (apply .abs [y]) x
        | none => power (apply .abs [y]) x
      | power c y, x =>
        let (c, y) := (power c y).baseExponent
        if whole.isNone && y.integer? = some (-1) && isHalf x && c.sign.isNegative then
          let turned := powerWithin depth c.negate (productWithin depth [y, x])
          productWithin depth [powerWithin depth (int (-1)) x, turned]
        else if whole.isNone && y.integer? = some (-1) && isHalf x
            && (c.isNonneg || (c.isNumeric && c.approximate?.any fun p => !p.isReal)) then
          powerWithin depth c x.negate
        else
          let c := if whole.isSome then c else evenBase c y
          match exponentsMultiply? c y x with
          | some s => productWithin depth [int s, powerWithin depth c (productWithin depth [y, x])]
          | none => power b x
      | b, x => power b x

/-- Powers of products, bounded.  A whole exponent goes to every factor; any other number goes to the factors
    that can stand apart. -/
def productPower : Nat → List Algebra → Algebra → Algebra
  | 0, fs, x => power (product fs) x
  | depth + 1, fs, x =>
    match x with
    | number q =>
      if q.integer?.isSome then
        productWithin depth (productWithin depth (fs.map fun f => power f x)).factors
      else
        match fs, q.rational? with
        | [number (.exact a), constant .i], some r =>
          match (if r.den = 2 then rationalRoot? ((if a < 0 then -a else a) / 2) else none) with
          | some root =>
            let turned := powerWithin depth (complexRational 1 (if a < 0 then -1 else 1)) (int r.num)
            let q := powerWithin depth (rational root) (int r.num)
            if q.isOne then turned else product (q :: turned.factors)
          | none => splitPower depth fs x
        | fs, _ => splitPower depth fs x
    | x => power (product fs) x

/-- Powers of products whose exponent is no whole number, bounded. -/
def splitPower : Nat → List Algebra → Algebra → Algebra
  | 0, fs, x => power (product fs) x
  | depth + 1, fs, x =>
    let s := splitBase fs
    if s.apart.isEmpty then power (productWithin depth s.together) x
    else
      let (roots, others) := s.apart.partition fun f => match f with
        | power b (number (.exact _)) => b.isNumeric && x.rational?.isSome
        | _ => false
      let known := productWithin depth (roots.map fun f => powerWithin depth f x)
      let known := productWithin depth [known, productWithin depth (others.map fun f => power f x)]
      if s.together.isEmpty then known
      else productWithin depth [known, power (productWithin depth s.together) x]

/-- Powers of sums, bounded: of complex rational numbers, and with decimals of which the greatest is drawn
    out. -/
def sumPower : Nat → List Algebra → Algebra → Algebra
  | 0, ts, x => power (sum ts) x
  | depth + 1, ts, x =>
    match x with
    | number q =>
      match q.rational? with
      | some r =>
        if areNumeric ts then
          match complexNumber? (sum ts) with
          | some (re, im) =>
            if r = -1 then
              let size := numberPower ((re.mul re).add (im.mul im)) (.exact (-1))
              let turned := sumOf [number re, times im.negate i]
              if size.isOne then turned else product [size, turned]
            else
              match re, im with
              | .exact re, .exact im =>
                match (if r.den = 2 then rationalRoot? (re * re + im * im) else none) with
                | some d =>
                  let size := if im < 0 then -im else im
                  let root := powerWithin depth (powerWithin depth (rational ((d - re) / 2)) half) (int r.num)
                  let (u, v) := complexPower ((d + re) / size) (if im < 0 then -1 else 1) r.num.natAbs
                  let turned := complexRational u v
                  productWithin depth [root, if r < 0 then powerWithin depth turned (int (-1)) else turned]
                | none => power (sum ts) x
              | _, _ => power (sum ts) x
          | none => power (sum ts) x
        else if r = 1 || r = -1 then power (sum ts) x
        else drawnPower depth ts q
      | none => if q.isFinite then drawnPower depth ts q else power (sum ts) x
    | x => power (sum ts) x

/-- The power of a sum with its greatest decimal factor drawn out, bounded. -/
def drawnPower : Nat → List Algebra → Scalar → Algebra
  | 0, ts, q => power (sum ts) (number q)
  | depth + 1, ts, q =>
    match drawFactor? ts with
    | some (big, rest) =>
      productWithin depth [numberPower big q, powerWithin depth rest (number q)]
    | none => power (sum ts) (number q)

/-- Exponentials, bounded. -/
def expWithin : Nat → Algebra → Algebra
  | 0, x => apply .exp [x]
  | depth + 1, x =>
    match x with
    | number q =>
      if q.isZero then int 1 else if q.isExactly 1 then e
      else match q with
        | .exact _ => apply .exp [x]
        | .decimal y n => number (.exp y n)
        | .infinite negative => if negative then int 0 else x
        | .undefined => x
    | constant .complexInfinity => undefined
    | apply .log [y] => y
    | product fs =>
      match piMultiple? fs with
      | some q => turned q
      | none =>
        match fs with
        | number (.infinite negative) :: rest => infiniteExp negative rest
        | fs =>
          let (logs, others) := fs.partition fun f => match f with
            | apply .log _ => true
            | _ => false
          match logs with
          | [apply .log [y]] =>
            if others.all fun f => f.isNumeric && f.isReal then powerWithin depth y (productWithin depth others)
            else apply .exp [x]
          | _ => apply .exp [x]
    | sum ts =>
      let parts := ts.map fun t => if t.isOne then (t, t, true) else
        match expWithin depth t with
        | apply .exp [y] => (t, y, true)
        | v => (t, v, false)
      let outside := parts.filter fun p => !p.2.2
      if outside.isEmpty && parts.all fun p => p.2.1.same p.1 then apply .exp [x]
      else
        let rest := sumOf ((parts.filter fun p => p.2.2).map fun p => p.2.1)
        productWithin depth (outside.map (fun p => p.2.1) ++ [apply .exp [rest]])
    | x => apply .exp [x]
where
  /-- The rational factor of a multiple of `i · π`. -/
  piMultiple? (fs : List Algebra) : Option Rat :=
    match fs with
    | [number (.exact q), constant .i, constant .pi] | [number (.exact q), constant .pi, constant .i] => some q
    | [constant .i, constant .pi] | [constant .pi, constant .i] => some 1
    | _ => none
  /-- The exponential of a multiple of `i · π`, a point of the unit circle. -/
  turned (q : Rat) : Algebra :=
    let r := q - 2 * ((q / 2).floor : Rat)
    let r := if 1 < r then r - 2 else r
    if r = 0 then int 1
    else if r = 1 then int (-1)
    else if r = mkRat 1 2 then i
    else if r = -mkRat 1 2 then i.negate
    else apply .exp [withNumber (.exact r) [i, constant .pi]]
  /-- The exponential of an infinity times other factors. -/
  infiniteExp (negative : Bool) (rest : List Algebra) : Algebra :=
    let plain := apply .exp [product (number (.infinite negative) :: rest)]
    match (if areNumeric rest then (ofFactors rest).approximate? else none) with
    | some p =>
      let re := if negative then p.re.negate else p.re
      if re.isZero then undefined
      else if re.isNegative then int 0
      else if p.im.isZero then plain
      else complexInfinity
    | none => plain

end

/-- A bound that no computation with the expressions reaches. -/
def depthFor (es : List Algebra) : Nat := 4 * sizes es + 32

/-- **A product.** -/
def productOf (es : List Algebra) : Algebra := productWithin (depthFor es) es

/-- **A power.** -/
def powerOf (b x : Algebra) : Algebra := powerWithin (depthFor [b, x]) b x

/-- **The exponential.** -/
def expOf (x : Algebra) : Algebra := expWithin (depthFor [x]) x

/-- **The quotient of two expressions.**  That of a decimal and a number is rounded once. -/
def quotient (a b : Algebra) : Algebra :=
  match a, b with
  | number (.decimal x n), number q =>
    if q.isZero then productOf [a, complexInfinity]
    else match q with
      | .infinite _ => int 0
      | .undefined => undefined
      | q => number ((Scalar.decimal x n).div q)
  | number (.infinite negative), number q =>
    match q with
    | .infinite _ | .undefined => undefined
    | q => number (.infinite (negative != q.isNegative))
  | number (.exact _), number (.infinite _) => int 0
  | number (.exact p), number (.exact r) =>
    if r = 0 then (if p = 0 then undefined else complexInfinity) else rational (p / r)
  | a, b =>
    let reciprocal := powerOf b (int (-1))
    if a.isOne then reciprocal else productOf [a, reciprocal]

end Algebra

end ExprGraph

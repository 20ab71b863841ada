import ExprGraph.Algebra.Sign
/-!
  Sums and multiples.

  A sum merges its numbers, and the terms that differ in their numeric factor only.  What is left over when
  everything else has gone (no term, one term) is not kept as a sum.  An infinity among the numbers swallows
  the terms that cannot change it; two infinities that do not agree leave the sum undefined.  A number times a
  sum is carried out term by term (`times`).

  Of an expression and its negative, one leans to the negative side (`leansNegative`): a number below zero, a
  product with such a factor, and a sum in which more terms lean that way than not, or as many and its key is
  the smaller one.
-/

namespace ExprGraph

namespace Algebra

/-- The infinity without direction is a factor. -/
def isDirectionless (e : Algebra) : Bool := e.factors.any isComplexInfinity

/-- A number times an expression that is no sum.  Beside the infinity without direction numbers do not
    count. -/
def timesSingle (q : Scalar) (e : Algebra) : Algebra :=
  let (p, rest) := e.coefficient
  let q := q.mul p
  match rest with
  | number p => number (q.mul p)
  | rest =>
    if q = .undefined then undefined
    else if rest.isDirectionless then (if q.isZero then undefined else rest)
    else if q.isZero then int 0
    else if q.isExactly 1 then rest
    else product (number q :: rest.factors)

/-! ## Sums -/

/-- Adds a multiple to the collected ones: the factor grows where the expression is there. -/
def collectTerm (q : Scalar) (e : Algebra) : List (Scalar × Algebra) → List (Scalar × Algebra)
  | [] => [(q, e)]
  | (p, f) :: rest => if f.same e then (p.add q, f) :: rest else (p, f) :: collectTerm q e rest

/-- The terms of a sum, collected. -/
structure Terms where
  /-- the sum of the numbers -/
  number : Scalar
  /-- the infinity without direction is among the terms -/
  directionless : Bool
  /-- the other terms with their numeric factors -/
  multiples : List (Scalar × Algebra)

namespace Terms

/-- No terms. -/
def empty : Terms := ⟨.exact 0, false, []⟩

/-- Takes in a term that is no sum.  An infinity does not go with the one that has no direction. -/
def take (s : Terms) (e : Algebra) : Terms :=
  match e with
  | .number q =>
    if s.directionless then (if q.isFinite then s else { s with number := .undefined })
    else { s with number := s.number.add q }
  | constant .complexInfinity =>
    if s.directionless || !s.number.isFinite then { s with number := .undefined }
    else { s with directionless := true }
  | e =>
    let (q, rest) := e.coefficient
    { s with multiples := collectTerm q rest s.multiples }

/-- Two of the terms leave the sum without a value. -/
def isUndefined (s : Terms) : Bool := s.number = .undefined || s.multiples.any fun t => t.1 = .undefined

/-- A multiple as a term. -/
def ofMultiple : Scalar × Algebra → Option Algebra
  | (q, e) =>
    if q.isZero then none
    else if q.isExactly 1 then some e
    else match e with
      | sum _ => some (product [.number q, e])
      | product fs => some (product (.number q :: fs))
      | e => some (timesSingle q e)

/-- An infinity swallows the terms that cannot change it: a positive one all that is finite and real or not
    negative, and the one without direction all that is known to be finite. -/
def swallows (s : Terms) (e : Algebra) : Bool :=
  let sign := e.sign
  if s.directionless then sign.finite && e.isRealnessKnown
  else match s.number with
    | .infinite false => sign.nonneg || (sign.real && sign.finite)
    | .infinite true => sign.nonpos || (sign.real && sign.finite)
    | _ => false

/-- **The collected terms as a sum.** -/
def toSum (s : Terms) : Algebra :=
  if s.isUndefined then undefined
  else
    let kept := (s.multiples.filterMap ofMultiple).filter fun e => !s.swallows e
    let numbers := if s.directionless then [complexInfinity]
      else if s.number.isExactly 0 then [] else [.number s.number]
    match numbers ++ kept with
    | [] => int 0
    | [e] => e
    | es => sum (sortTerms es)

end Terms

/-- The expressions that are sums, taken apart, behind those that are not. -/
def sumsLast (es : List Algebra) : List Algebra :=
  let (sums, others) := es.partition fun e => match e with
    | sum _ => true
    | _ => false
  others ++ sums.flatMap terms

/-- **A sum.**  The exact zero is left out first, and one term stays as it is. -/
def sumOf (es : List Algebra) : Algebra :=
  match es.filter fun e => !e.number?.any (Scalar.isExactly 0) with
  | [] => int 0
  | [e] => e
  | es => ((sumsLast es).foldl Terms.take .empty).toSum

/-! ## Multiples -/

/-- **A number times an expression.**  An infinity does not go to the terms of a sum. -/
def times (q : Scalar) : Algebra → Algebra
  | sum ts => if q.isFinite then sumOf (ts.map (timesSingle q)) else timesSingle q (sum ts)
  | e => timesSingle q e

/-- The negative of an expression that is no sum.  The infinity without direction is its own negative, also
    as a factor. -/
def negateSingle (e : Algebra) : Algebra :=
  match e with
  | number q => number q.negate
  | e => if e.isDirectionless then e else timesSingle (.exact (-1)) e

/-- **The negative of an expression.** -/
def negate : Algebra → Algebra
  | sum ts => sum (sortTerms (ts.map negateSingle))
  | e => negateSingle e

/-- A number below zero, or a product with such a factor. -/
def hasMinus : Algebra → Bool
  | number q | product (number q :: _) => q.isNegative
  | _ => false

/-- **The expression leans to the negative side.** -/
def leansNegative : Algebra → Bool
  | sum ts =>
    let minus := (ts.filter hasMinus).length
    if minus * 2 = ts.length then (sum ts).sortKey.lt (negate (sum ts)).sortKey
    else decide (ts.length < minus * 2)
  | e => e.hasMinus

/-- **The difference of two expressions.**  Two numbers are subtracted, unless the second is the exact zero. -/
def difference (a b : Algebra) : Algebra :=
  match a, b with
  | number p, number q => number (if q.isExactly 0 then p else p.add q.negate)
  | a, b => sumOf [a, b.negate]

/-- Base and exponent of a factor.  An exponential has the base `e`, and the reciprocal of a whole number
    gives way to that number. -/
def baseExponent : Algebra → Algebra × Algebra
  | power b x =>
    match b.rational? with
    | some q => if q.num = 1 ∧ q.den ≠ 1 then (int q.den, x.negate) else (b, x)
    | none => (b, x)
  | apply .exp [x] => (e, x)
  | b => (b, int 1)

end Algebra

end ExprGraph

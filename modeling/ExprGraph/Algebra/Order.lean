import ExprGraph.Algebra.Approximation
/-!
  The order in which expressions are shown.

  Expressions are ordered by key: first what they are, then their parts, their exponent and their numeric
  factor.  Numbers come first, then symbols and constants, products, sums, powers and functions; a power of
  something stands where that stands.  Factors of a product are shown in the order of their keys.

  The terms of a sum are shown by falling powers.  Each term is a number times whole powers of bases; the
  bases of all terms are ordered by key, and a term comes before another when it has the higher power of the
  first base in which they differ.
-/

namespace ExprGraph

/-- A key by which expressions are ordered. -/
inductive SortKey where
  | number (q : Scalar)
  | text (s : String)
  | node (keys : List SortKey)

namespace SortKey

mutual

/-- Numbers, texts and lists are each ordered among themselves; lists part by part. -/
def compare : SortKey → SortKey → Ordering
  | number p, number q => p.compare q
  | number _, _ => .lt
  | _, number _ => .gt
  | text s, text t => Ord.compare s t
  | text _, node _ => .lt
  | node _, text _ => .gt
  | node as, node bs => compareAll as bs

/-- A list that goes on is the greater one. -/
def compareAll : List SortKey → List SortKey → Ordering
  | [], [] => .eq
  | [], _ :: _ => .lt
  | _ :: _, [] => .gt
  | a :: as, b :: bs =>
    match compare a b with
    | .eq => compareAll as bs
    | o => o

end

/-- The first key is not above the second. -/
def le (a b : SortKey) : Bool := (compare a b).isLE

/-- The first key is below the second. -/
def lt (a b : SortKey) : Bool := (compare a b).isLT

/-- A whole number as a key. -/
def nat (n : Nat) : SortKey := number (.exact n)

/-- What an expression is: its rank, a rank within, and a name. -/
def kind (rank within : Nat) (name : String) : SortKey := node [nat rank, nat within, text name]

/-- The kind of numbers. -/
def numberKind : SortKey := kind 1 0 "Number"

/-- The key of a number. -/
def ofNumber (q : Scalar) : SortKey := node [numberKind, node [nat 0, node []], node [], number q]

/-- The key of an expression of the given kind and parts, with an exponent and a numeric factor. -/
def expression (kind : SortKey) (parts : List SortKey) (exponent : SortKey) (factor : Scalar) : SortKey :=
  node [kind, node [nat parts.length, node parts], exponent, number factor]

/-- The key of an exponent that is not there. -/
def one : SortKey := ofNumber (.exact 1)

end SortKey

namespace NamedConstant

/-- The kind of a constant. -/
def sortKind (c : NamedConstant) : SortKey := .kind 2 0 c.name

end NamedConstant

namespace FunctionName

/-- The ranks of well-known functions, by name. -/
def ranks : List (String × Nat) :=
  [("exp", 10), ("log", 11), ("sin", 20), ("cos", 21), ("tan", 22), ("cot", 23), ("sinh", 30),
   ("cosh", 31), ("tanh", 32), ("coth", 33), ("conjugate", 40), ("re", 41), ("im", 42), ("arg", 43)]

/-- The rank of all other functions that are not undefined. -/
def lastRank : Nat := 10000

/-- The kind of the applications of a function. -/
def sortKind (f : FunctionName) : SortKey :=
  .kind 4 ((ranks.lookup f.name).getD (if f.isUndefined then 0 else lastRank)) f.name

end FunctionName

namespace Algebra

mutual

/-- **The key of an expression.** -/
def sortKey : Algebra → SortKey
  | number q => .ofNumber q
  | symbol name => .expression (.kind 2 0 "Symbol") [.text name] .one (.exact 1)
  | constant c => .expression c.sortKind [.text c.sign] .one (.exact 1)
  | sum ts => .expression (.kind 3 1 "Add") (sortKeys ts) .one (.exact 1)
  | product [number q, power b x] =>
    let (kind, parts) := baseKey b
    .expression kind parts (sortKey x) q
  | product [number q, e] =>
    let (kind, parts) := baseKey e
    .expression kind parts .one q
  | product (number q :: fs) => .expression (.kind 3 0 "Mul") (sortKeys fs) .one q
  | product fs => .expression (.kind 3 0 "Mul") (sortKeys fs) .one (.exact 1)
  | power b x =>
    let (kind, parts) := baseKey b
    .expression kind parts (sortKey x) (.exact 1)
  | apply f es => .expression f.sortKind (sortKeys es) .one (.exact 1)

/-- The keys of several expressions. -/
def sortKeys : List Algebra → List SortKey
  | [] => []
  | e :: es => sortKey e :: sortKeys es

/-- The kind and the keys of the parts of a base. -/
def baseKey : Algebra → SortKey × List SortKey
  | number q => (.numberKind, [.text q.text])
  | symbol name => (.kind 2 0 "Symbol", [.text name])
  | constant c => (c.sortKind, [.text c.sign])
  | sum ts => (.kind 3 1 "Add", sortKeys ts)
  | product fs => (.kind 3 0 "Mul", sortKeys fs)
  | power b x => (.kind 3 2 "Pow", [sortKey b, sortKey x])
  | apply f es => (f.sortKind, sortKeys es)

end

/-- Expressions in the order of their keys. -/
def sortByKey (es : List Algebra) : List Algebra :=
  let keyed := es.map fun e => (e.sortKey, e)
  (keyed.mergeSort fun a b => a.1.le b.1).map Prod.snd

/-! ## Terms of a sum -/

/-- A product of a rational number and other factors, kept as it is. -/
def ratioTimes (q : Rat) (e : Algebra) : Algebra :=
  if q = 1 then e else product (rational q :: e.factors)

/-- A factor as a whole power of a base.  Roots and rational factors of exponents go to the base; a decimal
    exponent stays with the whole. -/
def wholePower (f : Algebra) : Algebra × Int :=
  let split := fun (whole : Rat → Algebra) (q : Rat) => (whole (mkRat 1 q.den), q.num)
  match f with
  | power b (number (.exact q)) => split (fun r => if r = 1 then b else power b (rational r)) q
  | apply .exp [number (.exact q)] =>
    split (fun r => if r = 1 then e else apply .exp [rational r]) q
  | power b x =>
    match x.coefficient with
    | (.exact q, t) => if q = 1 then (f, 1) else split (fun r => power b (ratioTimes r t)) q
    | _ => (f, 1)
  | apply .exp [x] =>
    match x.coefficient with
    | (.exact q, t) => if q = 1 then (f, 1) else split (fun r => apply .exp [ratioTimes r t]) q
    | _ => (f, 1)
  | f => (f, 1)

/-- A term as it is ordered: its numeric part and the powers of its bases. -/
structure Monomial where
  term : Algebra
  /-- an infinite numeric factor -/
  infinite : Scalar
  value : Point
  powers : List (Algebra × Int)

/-- A term taken apart. -/
def monomial (t : Algebra) : Monomial :=
  let (q, rest) := t.coefficient
  let parts := rest.factors.map fun f =>
    if f.isNumeric then (f.approximate?, none) else (none, some f.wholePower)
  ⟨t, if q.isFinite then .exact 0 else q,
    parts.foldl (fun p part => (part.1.map p.mul).getD p) (.real (q.toBinary Point.bits)),
    parts.filterMap Prod.snd⟩

/-- Expressions without repetition. -/
def distinct (es : List Algebra) : List Algebra :=
  es.foldl (fun seen e => if seen.any (same e) then seen else seen ++ [e]) []

namespace Monomial

/-- The power of a base. -/
def powerOf (m : Monomial) (base : Algebra) : Int :=
  ((m.powers.find? fun p => p.1.same base).map Prod.snd).getD 0

/-- The powers of the given bases fall; numbers are ordered by value, real ones first. -/
def before : List Algebra → Monomial → Monomial → Bool
  | [], m, n =>
    match m.infinite.compare n.infinite, m.value.im.compare n.value.im with
    | .eq, .eq => !n.value.re.less m.value.re
    | .eq, o => m.value.isReal || (!n.value.isReal && o == .lt)
    | o, _ => o == .lt
  | base :: bases, m, n =>
    let p := m.powerOf base
    let q := n.powerOf base
    if p = q then before bases m n else decide (q < p)

end Monomial

/-- A positive number or constant. -/
def isPositiveNumber : Algebra → Bool
  | number q => q.isPositive && q.isFinite
  | constant c => decide (c = .e ∨ c = .pi)
  | _ => false

/-- **The terms of a sum as they are shown.**  A positive number goes before a single term with a negative
    numeric factor. -/
def sortTerms (ts : List Algebra) : List Algebra :=
  let ms := ts.map monomial
  let bases := sortByKey (distinct (ms.flatMap fun m => m.powers.map Prod.fst))
  let sorted := (ms.mergeSort (Monomial.before bases)).map Monomial.term
  match sorted with
  | [product [number p, f], c] =>
    if p.isNegative && p.isFinite && c.isPositiveNumber then [c, product [number p, f]] else sorted
  | _ => sorted

end Algebra

end ExprGraph

import ExprGraph.Value.Arithmetic
/-!
  Equality, identity and order of values.

  Equality of values (`Value.same`) looks through their kinds: numbers are equal when they denote the same
  number, arrays when they agree in shape and in every cell.  Numbers that are both free, or both whole, are
  compared exactly, except that a whole number beside truths has to fit a word.  Otherwise they are brought
  together first: a free number is rounded to the precision of the cells it meets, or out of range, and a word
  meets a double as a double.  A NaN equals nothing.

  The key of a value (`Value.key?`) is what a table would file it under: the exact number, the text, or
  nothing at all.  Arrays cannot be filed.  Values with one key need not be equal (a NaN), and because a
  word meets a double rounded, equal values need not have one key.

  The order (`Value.less`) is the one by which the greatest and least of a list are chosen.
-/

namespace ExprGraph

open Number (Exact)

namespace Number.Exact

/-- Strict order of the numbers behind doubles; a NaN is not below or above anything. -/
def less : Exact → Exact → Bool
  | nan, _ | _, nan => false
  | infinite a, infinite b => a && !b
  | infinite a, finite _ => a
  | finite _, infinite b => !b
  | finite p, finite q => decide (p < q)

/-- Equality as numbers: a NaN equals nothing. -/
def equals (e f : Exact) : Bool := decide (e ≠ nan ∧ e = f)

end Number.Exact

namespace Cells

/-- Two grids of cells as exact numbers: whole ones as they are, others in the precision of doubles. -/
def align (a b : Cells) : Grid Exact × Grid Exact :=
  if a.kind.isWhole && b.kind.isWhole then (a.exactly, b.exactly)
  else (a.toFloats.map Number.exactly, b.toFloats.map Number.exactly)

/-- Cells beside a free whole number, which is a word beside truths, exact beside words, and otherwise
    rounded. -/
def alignInt (c : Cells) (n : Int) : Except Fault (Grid Exact × Exact) :=
  if c.kind = .truth ∧ !Number.fitsWord n then .error .outOfRange
  else if c.kind.isWhole then .ok (c.exactly, .finite n)
  else (orFault .outOfRange (Number.nearestOfInt n)).map fun x =>
    (c.exactly, Number.exactly (if c.kind = .half then (Number.Half.round x).toFloat else x))

end Cells

namespace Numeric

/-- The exact number that a free number is. -/
def exactly : Numeric → Exact
  | truth b => .finite (if b then 1 else 0)
  | integer n => .finite n
  | real x => Number.exactly x
  | fixed _ => .nan

/-- **Two numbers brought together** as grids of exact numbers. -/
def align : Numeric → Numeric → Except Fault (Grid Exact × Grid Exact)
  | fixed a, fixed b => .ok (a.align b)
  | fixed a, integer n => (a.alignInt n).map fun p => (p.1, .scalar p.2)
  | integer n, fixed b => (b.alignInt n).map fun p => (.scalar p.2, p.1)
  | fixed a, y => (y.beside a.kind).map a.align
  | x, fixed b => (x.beside b.kind).map fun a => a.align b
  | x, y => .ok (.scalar x.exactly, .scalar y.exactly)

/-- **Equality of numbers**, cell by cell for grids. -/
def same (x y : Numeric) : Except Fault Bool := do
  let (a, b) ← x.align y
  return a.agree Exact.equals b

/-- The cells of a number that is compared with an array; whole numbers beyond sixty-four bits have none. -/
def beforeArray? : Numeric → Option Cells
  | truth b => some (.truth b)
  | integer n => settle n
  | real x => some (.double x)
  | fixed c => some c

/-- Equality of numbers of which one is an array: both take their kinds first, and what has none is compared
    exactly. -/
def sameArrays (x y : Numeric) : Bool :=
  match x.beforeArray?, y.beforeArray? with
  | some a, some b => (a.align b).1.agree Exact.equals (a.align b).2
  | some a, none => a.exactly.agree Exact.equals (.scalar y.exactly)
  | none, some b => (Grid.scalar x.exactly).agree Exact.equals b.exactly
  | none, none => x.exactly.equals y.exactly

/-- **Strict order of two numbers.**  Comparing with an array compares cell by cell, and the outcome is a
    truth only when there is exactly one cell. -/
def less (x y : Numeric) : Except Fault Bool := do
  let (a, b) ← x.align y
  match (← orFault .shapeMismatch (Grid.pointwise Exact.less a b)).cells with
  | [c] => .ok c
  | _ => .error .ambiguousTruth

end Numeric

/-- What a table files a value under. -/
inductive Key where
  | number (q : Exact)
  | text (s : String)
  | absent
  deriving DecidableEq

namespace Value

/-- **Equality of values.** -/
def same (a b : Value) : Except Fault Bool :=
  match a, b with
  | text s, text t => .ok (decide (s = t))
  | absent, absent => .ok true
  | a, b =>
    match a.numeric?, b.numeric? with
    | some x, some y => if a.isArray || b.isArray then .ok (x.sameArrays y) else x.same y
    | _, _ => .ok false

/-- **The key of a value**, unless it is an array. -/
def key? : Value → Option Key
  | integer n => some (.number (.finite n))
  | real x => some (.number (Number.exactly x))
  | truth b => some (.number (.finite (if b then 1 else 0)))
  | cell c => some (.number (c.kind.exactly c.value))
  | text s => some (.text s)
  | absent => some .absent
  | array _ => none

/-- **Strict order of values.**  An array without cells can be compared with nothing at all, but has no truth
    to tell. -/
def less (a b : Value) : Except Fault Bool :=
  match a, b with
  | text s, text t => .ok (decide (s < t))
  | array c, absent | absent, array c =>
    .error (if c.grid.cells.isEmpty then .ambiguousTruth else .kindMismatch)
  | a, b => do (← a.toNumeric).less (← b.toNumeric)

/-- The first of the best values of a list, where `better x y` says that `x` displaces `y`. -/
def bestOf (better : Value → Value → Except Fault Bool) : List Value → Except Fault Value
  | [] => .error .nothingToChoose
  | v :: vs => vs.foldlM (fun best x => do if ← better x best then pure x else pure best) v

/-- The first of the greatest values of a list. -/
def greatest : List Value → Except Fault Value := bestOf fun x best => less best x

/-- The first of the least values of a list. -/
def least : List Value → Except Fault Value := bestOf less

end Value

end ExprGraph

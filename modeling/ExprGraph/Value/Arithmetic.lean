import ExprGraph.Value.Basic
/-!
  Sum, difference, product and negation of values.

  Free whole numbers stay exact, and with a free double they become doubles.  A free number that meets cells
  becomes a cell beside them, or is out of range.  Cells of two kinds meet in the kind that both widen to;
  words of either sign wrap, and truths add and multiply as alternatives and conjunctions but have no
  difference.  Arrays work cell by cell in the shape in which they meet.  Texts can be joined, and repeated
  by a whole number.
-/

namespace ExprGraph

open Number (Half)

/-- The arithmetic of two numbers. -/
inductive Arith where
  | add
  | sub
  | mul
  deriving DecidableEq

namespace Arith

/-- On exact whole numbers. -/
def onInt : Arith → Int → Int → Int
  | add => (· + ·)
  | sub => (· - ·)
  | mul => (· * ·)

/-- On words, wrapping. -/
def onWord : Arith → Int64 → Int64 → Int64
  | add => (· + ·)
  | sub => (· - ·)
  | mul => (· * ·)

/-- On words without a sign, wrapping. -/
def onUnsigned : Arith → UInt64 → UInt64 → UInt64
  | add => (· + ·)
  | sub => (· - ·)
  | mul => (· * ·)

/-- On doubles. -/
def onReal : Arith → Float → Float → Float
  | add => (· + ·)
  | sub => (· - ·)
  | mul => (· * ·)

/-- On cells of a kind; truths have no difference. -/
def onCells : Arith → (k : CellKind) → Option (k.Carrier → k.Carrier → k.Carrier)
  | add, .truth => some (· || ·)
  | sub, .truth => none
  | mul, .truth => some (· && ·)
  | op, .word => some op.onWord
  | op, .unsigned => some op.onUnsigned
  | op, .half => some (Half.lift₂ op.onReal)
  | op, .double => some op.onReal

end Arith

namespace Cells

/-- **A function of cells on two grids** of cells, in the kind in which they meet. -/
def meet (f : (k : CellKind) → Option (k.Carrier → k.Carrier → k.Carrier)) (a b : Cells) :
    Except Fault Cells :=
  let k := a.kind.join b.kind
  match f k with
  | none => .error .kindMismatch
  | some f => (orFault .shapeMismatch (Grid.pointwise f (a.widen k) (b.widen k))).map fun g => ⟨k, g⟩

/-- The negatives of cells; truths have none. -/
def negate : Cells → Except Fault Cells
  | ⟨.truth, _⟩ => .error .kindMismatch
  | ⟨.word, g⟩ => .ok ⟨.word, g.map fun w => -w⟩
  | ⟨.unsigned, g⟩ => .ok ⟨.unsigned, g.map fun n => 0 - n⟩
  | ⟨.half, g⟩ => .ok ⟨.half, g.map fun h => ⟨-h.toFloat⟩⟩
  | ⟨.double, g⟩ => .ok ⟨.double, g.map fun x => -x⟩

end Cells

namespace Numeric

/-- The whole number that a free number is, if it is one. -/
def whole? : Numeric → Option Int
  | truth b => some (if b then 1 else 0)
  | integer n => some n
  | real _ | fixed _ => none

/-- A whole number as a double, unless it is out of range. -/
def realOfInt (n : Int) : Except Fault Float := orFault .outOfRange (Number.nearestOfInt n)

/-- **The arithmetic of two numbers.** -/
def combine (op : Arith) (x y : Numeric) : Except Fault Numeric :=
  match x, y with
  | fixed a, fixed b => (Cells.meet op.onCells a b).map fixed
  | fixed a, y => do return fixed (← Cells.meet op.onCells a (← y.beside a.kind))
  | x, fixed b => do return fixed (← Cells.meet op.onCells (← x.beside b.kind) b)
  | real u, real v => .ok (real (op.onReal u v))
  | real u, integer n => do return real (op.onReal u (← realOfInt n))
  | integer m, real v => do return real (op.onReal (← realOfInt m) v)
  | real u, truth b => .ok (real (op.onReal u (if b then 1.0 else 0.0)))
  | truth b, real v => .ok (real (op.onReal (if b then 1.0 else 0.0) v))
  | integer m, integer n => .ok (integer (op.onInt m n))
  | integer m, truth b => .ok (integer (op.onInt m (if b then 1 else 0)))
  | truth b, integer n => .ok (integer (op.onInt (if b then 1 else 0) n))
  | truth a, truth b => .ok (integer (op.onInt (if a then 1 else 0) (if b then 1 else 0)))

/-- The negative of a number. -/
def negate : Numeric → Except Fault Numeric
  | truth b => .ok (integer (if b then -1 else 0))
  | integer n => .ok (integer (-n))
  | real x => .ok (real (-x))
  | fixed c => c.negate.map fixed

end Numeric

namespace Value

/-- The whole number by which a text can be repeated. -/
def count? : Value → Option Int
  | integer n => some n
  | truth b => some (if b then 1 else 0)
  | cell ⟨.word, w⟩ => some w.toInt
  | cell ⟨.unsigned, n⟩ => some n.toNat
  | _ => none

/-- A text `n` times over; nothing for a count below one.  Counts and lengths stay within a word. -/
def repeatText (s : String) (n : Int) : Except Fault Value :=
  if !Number.fitsWord n then .error .outOfRange
  else if n ≤ 0 ∨ s.isEmpty then .ok (text "")
  else if !Number.fitsWord (n * s.length) then .error .outOfRange
  else .ok (text (String.join (List.replicate n.toNat s)))

/-- **The arithmetic of two values.** -/
def combine (op : Arith) (a b : Value) : Except Fault Value :=
  match a, b with
  | text s, text t => if op = .add then .ok (text (s ++ t)) else .error .kindMismatch
  | text s, v | v, text s =>
    match op, v.count? with
    | .mul, some n => repeatText s n
    | _, _ => .error .kindMismatch
  | a, b => do return (← Numeric.combine op (← a.toNumeric) (← b.toNumeric)).toValue

/-- Sum of two values. -/
def add : Value → Value → Except Fault Value := combine .add

/-- Difference of two values. -/
def sub : Value → Value → Except Fault Value := combine .sub

/-- Product of two values. -/
def mul : Value → Value → Except Fault Value := combine .mul

/-- Negative of a value. -/
def negate (a : Value) : Except Fault Value := do return (← (← a.toNumeric).negate).toValue

end Value

end ExprGraph

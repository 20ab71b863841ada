import ExprGraph.Number.Reading
import ExprGraph.Value.Arithmetic
/-!
  Elementary functions of values.

  Sine, cosine, square root, exponential and power work cell by cell, on doubles, or on halves where truths
  and halves are all there is.  Square root looks at the absolute value; the exponential and the exponent of
  a power are first confined to `-10 … 10`.

  Division and logarithm are protected: dividing by a number within `1e-12` of zero gives one, and the
  logarithm is taken of the absolute value plus `1e-12`.  They alone also accept texts that are numerals,
  and their results are free again.
-/

namespace ExprGraph

open Number (Half)

/-- A divisor no further from zero than this counts as zero. -/
def protectedEpsilon : Float := 1e-12

/-- Exponents of a power are confined to this distance from zero. -/
def powerLimit : Float := 10.0

/-- Arguments of the exponential are confined to this distance from zero. -/
def expLimit : Float := 10.0

namespace Elementary

/-- Confines a double to `-limit … limit`; a NaN stays one. -/
def confine (limit x : Float) : Float :=
  if x < -limit then -limit else if limit < x then limit else x

/-- **Protected division of doubles.** -/
def divide (x y : Float) : Float := if protectedEpsilon < y.abs then x / y else 1.0

/-- **Protected logarithm of a double.** -/
def log (x : Float) : Float := Float.log (x.abs + protectedEpsilon)

/-- The absolute value of a word; the least word has none and stays itself. -/
def absWord (w : Int64) : Int64 := if w < 0 then -w else w

/-- The last axis of the exponent, of those on which a base or an exponent of the given shapes has more than
    one cell, has length one.  The shapes are given from the last axis on. -/
def steadyOnLastAxis : Shape → Shape → Bool
  | m :: base, n :: exponent => if m = 1 ∧ n = 1 then steadyOnLastAxis base exponent else n == 1
  | _, [] => true
  | [], exponent => exponent.all (· == 1)

/-- The exponent does not change along the rows in which a base and an exponent of the given shapes meet.
    Cells of one shape are walked side by side, and those of an exponent beside a single base one by one. -/
def steadyInRows (base exponent : Shape) : Bool :=
  exponent.isEmpty
    || (!base.isEmpty && base != exponent && steadyOnLastAxis base.reverse exponent.reverse)

/-- The double is an odd whole number. -/
def isOdd (x : Float) : Bool :=
  match Number.exactly x with
  | .finite q => q.isInt && q.num % 2 == 1
  | .infinite _ | .nan => false

/-- Power of a zero or an infinity, with an exponent above or below zero: one of them again.  The sign stays
    when the exponent is odd. -/
def powOfEdge (x e : Float) : Float :=
  let size := if decide (0.0 < e) == x.isInf then 1.0 / 0.0 else 0.0
  if (Number.Fields.ofBits x.toBits).negative && isOdd e then -size else size

/-- **Power of doubles, each with an exponent of its own.**  It is exact with the exponents zero and one. -/
def plainPow (x e : Float) : Float :=
  if e == 0.0 then 1.0
  else if e == 1.0 then x
  else if (x == 0.0 || x.isInf) && (decide (e < 0.0) || decide (0.0 < e)) then powOfEdge x e
  else Float.pow x e

/-- **Power of doubles with one exponent for a whole row.**  Five exponents need no power; for three of them
    the result may be another one than that of the power. -/
def rowPow (x e : Float) : Float :=
  if e == -1.0 then 1.0 / x
  else if e == 0.0 then 1.0
  else if e == 0.5 then Float.sqrt x
  else if e == 1.0 then x
  else if e == 2.0 then x * x
  else plainPow x e

/-- Power of doubles, with an exponent that is steady in its row or not. -/
def pow (steady : Bool) (x e : Float) : Float := if steady then rowPow x e else plainPow x e

/-- Power of the cells of a kind that has elementary functions. -/
def powCells (steady : Bool) : (k : CellKind) → Option (k.Carrier → k.Carrier → k.Carrier)
  | .half => some (Half.lift₂ Float.pow)
  | .double => some (pow steady)
  | _ => none

end Elementary

namespace Cells

/-- Cells as arguments of an elementary function. -/
def argument (c : Cells) : Cells := ⟨c.kind.functionKind, c.widen c.kind.functionKind⟩

/-- An elementary function, cell by cell. -/
def apply (f : Float → Float) (c : Cells) : Cells :=
  match c.argument with
  | ⟨.half, g⟩ => ⟨.half, g.map (Half.lift f)⟩
  | c => doubles (c.toFloats.map f)

/-- The absolute values of cells. -/
def abs : Cells → Cells
  | ⟨.word, g⟩ => ⟨.word, g.map Elementary.absWord⟩
  | ⟨.half, g⟩ => ⟨.half, g.map fun h => ⟨h.toFloat.abs⟩⟩
  | ⟨.double, g⟩ => ⟨.double, g.map Float.abs⟩
  | c => c

/-- Cells confined to `-limit … limit`; all kinds but halves become doubles. -/
def confine (limit : Float) : Cells → Cells
  | ⟨.half, g⟩ => ⟨.half, g.map fun h => ⟨Elementary.confine limit h.toFloat⟩⟩
  | c => doubles (c.toFloats.map (Elementary.confine limit))

end Cells

namespace Numeric

/-- A number on its own as cells; whole numbers beyond sixty-four bits are none. -/
def alone : Numeric → Except Fault Cells
  | truth b => .ok (.truth b)
  | integer n => orFault .kindMismatch (settle n)
  | real x => .ok (.double x)
  | fixed c => .ok c

/-- The absolute value. -/
def abs : Numeric → Numeric
  | integer n =>
    match settle n with
    | some c => fixed c.abs
    | none => integer n.natAbs
  | truth b => fixed (.truth b)
  | real x => fixed (.double x.abs)
  | fixed c => fixed c.abs

/-- A number confined to `-limit … limit`.  Whole numbers beyond sixty-four bits come out free. -/
def confine (limit : Float) : Numeric → Numeric
  | truth b => fixed ((Cells.truth b).confine limit)
  | integer n =>
    match settle n with
    | some c => fixed (c.confine limit)
    | none => real (if n < 0 then -limit else limit)
  | real x => fixed (.double (Elementary.confine limit x))
  | fixed c => fixed (c.confine limit)

/-- The kind beside which another number settles; beside a free one it settles as a double. -/
def kind : Numeric → CellKind
  | fixed c => c.kind
  | _ => .double

/-- Power of two numbers. -/
def power (x e : Numeric) : Except Fault Cells := do
  let e ← e.beside x.kind
  let x ← x.beside e.kind
  let steady := Elementary.steadyInRows x.grid.shape e.grid.shape
  Cells.meet (Elementary.powCells steady) x e

end Numeric

namespace Value

/-- An elementary function of a value. -/
def elementary (f : Float → Float) (v : Value) : Except Fault Value := do
  return ofCells ((← (← v.toNumeric).alone).apply f)

/-- Sine. -/
def sin : Value → Except Fault Value := elementary Float.sin

/-- Cosine. -/
def cos : Value → Except Fault Value := elementary Float.cos

/-- Absolute value. -/
def abs (v : Value) : Except Fault Value := do return (← v.toNumeric).abs.toValue

/-- Square root of the absolute value. -/
def sqrt (v : Value) : Except Fault Value := do (← v.abs).elementary Float.sqrt

/-- Exponential of the confined argument. -/
def exp (v : Value) : Except Fault Value := do
  ((← v.toNumeric).confine expLimit).toValue.elementary Float.exp

/-- Power with a confined exponent. -/
def power (base exponent : Value) : Except Fault Value := do
  let e := (← exponent.toNumeric).confine powerLimit
  return ofCells (← (← base.toNumeric).power e)

/-- A value as doubles for the protected functions: numerals are read, and the absent value is a NaN. -/
def toDoubles : Value → Except Fault (Grid Float)
  | text s => (orFault .notANumeral (Number.read? s)).map Grid.scalar
  | absent => .ok (.scalar (0.0 / 0.0))
  | v => do return (← (← v.toNumeric).beside .double).toFloats

/-- A grid of doubles as a value; without axes it is a free double. -/
def ofDoubles (g : Grid Float) : Value :=
  match g.scalar? with
  | some x => real x
  | none => array (.doubles g)

/-- **Protected division.** -/
def protectedDivide (a b : Value) : Except Fault Value := do
  let x ← a.toDoubles
  let y ← b.toDoubles
  return ofDoubles (← orFault .shapeMismatch (Grid.pointwise Elementary.divide x y))

/-- **Protected logarithm.** -/
def protectedLog (v : Value) : Except Fault Value := do
  return ofDoubles ((← v.toDoubles).map Elementary.log)

end Value

end ExprGraph

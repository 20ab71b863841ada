import ExprGraph.Fault
import ExprGraph.Value.Cell
/-!
  The values a tree computes with.

  A number is free or fixed.  Free numbers are exact whole numbers, doubles and truth values that no kind
  has been asked of yet; they adapt to what they meet.  Fixed ones are cells and arrays of cells, which keep
  their kind.  Next to the numbers stand texts and the absent value.

  Most arithmetic looks at a value as a number (`Numeric`), where a cell is an array without axes.
-/

namespace ExprGraph

/-- A value. -/
inductive Value where
  /-- an exact whole number -/
  | integer (n : Int)
  /-- a double that adapts -/
  | real (x : Float)
  /-- a text -/
  | text (s : String)
  /-- a truth value that adapts -/
  | truth (b : Bool)
  /-- no value -/
  | absent
  /-- a number of fixed kind -/
  | cell (c : Cell)
  /-- an array -/
  | array (c : Cells)

/-- A value seen as a number. -/
inductive Numeric where
  | truth (b : Bool)
  | integer (n : Int)
  | real (x : Float)
  | fixed (c : Cells)

/-- A result, or the fault of its absence. -/
def orFault {α : Type} (fault : Fault) : Option α → Except Fault α
  | some x => .ok x
  | none => .error fault

namespace Value

/-- A word. -/
def word (w : Int64) : Value := cell ⟨.word, w⟩

/-- The name of the kind of a value, as it appears in sentences. -/
def kindName : Value → String
  | integer _ => "int"
  | real _ => "float"
  | text _ => "str"
  | truth _ => "bool"
  | absent => "NoneType"
  | cell ⟨.truth, _⟩ => "bool"
  | cell ⟨.word, _⟩ => "int64"
  | cell ⟨.unsigned, _⟩ => "uint64"
  | cell ⟨.half, _⟩ => "float16"
  | cell ⟨.double, _⟩ => "float64"
  | array _ => "ndarray"

/-- A value as a number. -/
def numeric? : Value → Option Numeric
  | integer n => some (.integer n)
  | real x => some (.real x)
  | truth b => some (.truth b)
  | cell c => some (.fixed c.toCells)
  | array c => some (.fixed c)
  | text _ | absent => none

/-- A value as a number, or the fault that it is none. -/
def toNumeric (v : Value) : Except Fault Numeric := orFault .kindMismatch v.numeric?

/-- A grid of cells as a value; without axes it is a single cell. -/
def ofCells (c : Cells) : Value :=
  match c.cell? with
  | some x => cell x
  | none => array c

/-- The value is an array. -/
def isArray : Value → Bool
  | array _ => true
  | _ => false

end Value

namespace Numeric

/-- A number as a value. -/
def toValue : Numeric → Value
  | truth b => .truth b
  | integer n => .integer n
  | real x => .real x
  | fixed c => .ofCells c

/-- A whole number on its own takes a word, or an unsigned one where that is too small; beyond sixty-four
    bits there is none. -/
def settle (n : Int) : Option Cells := Cells.word? n <|> Cells.unsigned? n

/-- A whole number as a cell of a kind, unless it is out of range. -/
def integerCell (k : CellKind) (n : Int) : Except Fault Cells :=
  match k with
  | .truth | .word => orFault .outOfRange (Cells.word? n)
  | .unsigned => orFault .outOfRange (Cells.unsigned? n)
  | .half => (orFault .outOfRange (Number.nearestOfInt n)).map Cells.half
  | .double => (orFault .outOfRange (Number.nearestOfInt n)).map Cells.double

/-- **A number as cells beside cells of a kind.**  A free number goes with the kind as far as it can: whole
    numbers become words beside truths, and doubles stay doubles beside everything but halves. -/
def beside (k : CellKind) : Numeric → Except Fault Cells
  | truth b => .ok (.truth b)
  | integer n => integerCell k n
  | real x => .ok (if k = .half then .half x else .double x)
  | fixed c => .ok c

end Numeric

end ExprGraph

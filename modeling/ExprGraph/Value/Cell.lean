import ExprGraph.Number.Half
import ExprGraph.Value.Grid
/-!
  Cells: numbers of a fixed kind.

  A cell is a truth value, a sixty-four bit word with or without sign, or a number in half or double
  precision, and it keeps its kind in arithmetic.  Where two kinds meet both cells are widened to the
  narrowest kind that holds either (`CellKind.join`); a word meets an unsigned word, or a half, as a double.

  Cells stand alone or in a grid, all of one kind (`Cells`).  A single cell is the grid without axes.
-/

namespace ExprGraph

open Number (Half)

/-- The kinds of cells. -/
inductive CellKind where
  | truth
  /-- a sixty-four bit word with a sign -/
  | word
  /-- a sixty-four bit word without a sign -/
  | unsigned
  /-- half precision -/
  | half
  | double
  deriving DecidableEq

namespace CellKind

/-- What a cell of a kind holds. -/
abbrev Carrier : CellKind → Type
  | truth => Bool
  | word => Int64
  | unsigned => UInt64
  | half => Half
  | double => Float

instance : (k : CellKind) → Inhabited k.Carrier
  | truth => ⟨false⟩
  | word => ⟨0⟩
  | unsigned => ⟨0⟩
  | half => ⟨⟨0.0⟩⟩
  | double => ⟨0.0⟩

/-- **The kind in which two kinds meet.** -/
def join : CellKind → CellKind → CellKind
  | truth, k | k, truth => k
  | word, word => word
  | unsigned, unsigned => unsigned
  | half, half => half
  | _, _ => double

/-- The kind holds whole numbers only, and exactly. -/
def isWhole : CellKind → Bool
  | truth | word | unsigned => true
  | half | double => false

/-- The kind of the elementary functions of a kind: halves for truths and halves, otherwise doubles. -/
def functionKind : CellKind → CellKind
  | truth | half => half
  | word | unsigned | double => double

/-- The double nearest to a cell. -/
def toFloat : (k : CellKind) → k.Carrier → Float
  | truth, b => if b then 1.0 else 0.0
  | word, w => Number.ofWord w
  | unsigned, n => Number.roundInt n.toNat
  | half, h => h.toFloat
  | double, x => x

/-- A cell in a wider kind.  Only kinds that `join` leads to are ever asked for; a cell has no counterpart
    in any other, which gets a default. -/
def widen : (k l : CellKind) → k.Carrier → l.Carrier
  | truth, truth, b => b
  | truth, word, b => if b then 1 else 0
  | truth, unsigned, b => if b then 1 else 0
  | truth, half, b => ⟨if b then 1.0 else 0.0⟩
  | word, word, w => w
  | unsigned, unsigned, n => n
  | half, half, h => h
  | k, double, x => k.toFloat x
  | _, _, _ => default

/-- The whole number in a cell of a kind that holds them, otherwise zero. -/
def toInt : (k : CellKind) → k.Carrier → Int
  | truth, b => if b then 1 else 0
  | word, w => w.toInt
  | unsigned, n => n.toNat
  | half, _ | double, _ => 0

/-- **The exact number in a cell.** -/
def exactly (k : CellKind) (x : k.Carrier) : Number.Exact :=
  if k.isWhole then .finite (k.toInt x) else Number.exactly (k.toFloat x)

end CellKind

/-- A grid of cells of one kind. -/
structure Cells where
  kind : CellKind
  grid : Grid kind.Carrier

/-- A single cell. -/
structure Cell where
  kind : CellKind
  value : kind.Carrier

/-- A cell as the grid without axes. -/
def Cell.toCells (c : Cell) : Cells := ⟨c.kind, .scalar c.value⟩

namespace Cells

/-- The only cell of a grid without axes. -/
def cell? (c : Cells) : Option Cell := c.grid.scalar?.map fun x => ⟨c.kind, x⟩

/-- The cells in a wider kind. -/
def widen (c : Cells) (k : CellKind) : Grid k.Carrier := c.grid.map (c.kind.widen k)

/-- The cells as doubles. -/
def toFloats (c : Cells) : Grid Float := c.grid.map c.kind.toFloat

/-- The exact numbers in the cells. -/
def exactly (c : Cells) : Grid Number.Exact := c.grid.map c.kind.exactly

/-- One truth cell. -/
def truth (b : Bool) : Cells := ⟨.truth, .scalar b⟩

/-- A grid of words. -/
def words (g : Grid Int64) : Cells := ⟨.word, g⟩

/-- A grid of doubles. -/
def doubles (g : Grid Float) : Cells := ⟨.double, g⟩

/-- One word, when the whole number fits one. -/
def word? (n : Int) : Option Cells := (Number.wordOfInt n).map fun w => ⟨.word, .scalar w⟩

/-- One unsigned word, when the whole number fits one. -/
def unsigned? (n : Int) : Option Cells :=
  if 0 ≤ n ∧ n < 2 * Number.wordBound then some ⟨.unsigned, .scalar (UInt64.ofNat n.toNat)⟩ else none

/-- One half. -/
def half (x : Float) : Cells := ⟨.half, .scalar (Half.round x)⟩

/-- One double. -/
def double (x : Float) : Cells := ⟨.double, .scalar x⟩

end Cells

example : CellKind.join .word .unsigned = .double := rfl

end ExprGraph

import ExprGraph.Number.Column
import ExprGraph.Text.Quoted
import ExprGraph.Value.Basic
/-!
  How values are written.

  A value has a form for reading (`Value.display`) and a literal form that shows its kind
  (`Value.literal`).  They differ in the quotes around texts, in the digits of doubles (six against as
  many as read back), and in the word around cells and arrays.

  Arrays are written in nested brackets, every cell at one width.  A row that does not fit its line is
  continued on the next, and all lines inside a bracket start below its first cell.  Of an array with more
  than a thousand cells only the edges are shown: the first and last three along each axis, with dots
  between them.
-/

namespace ExprGraph

/-- An axis of an array as it is written. -/
structure WrittenAxis where
  /-- how many places along the axis are shown -/
  shown : Nat
  /-- dots stand for those in the middle -/
  cut : Bool

namespace Shape

/-- An array of more cells than this is shown by its edges. -/
def showLimit : Nat := 1000

/-- So many places are shown at each end of an axis that is cut. -/
def edgePlaces : Nat := 3

/-- Only the edges of an array are shown. -/
def isLarge (s : Shape) : Bool := decide (showLimit < volume s)

/-- Cuts an axis when there is more than the edges. -/
def cutAxis (n : Nat) : WrittenAxis :=
  if 2 * edgePlaces < n then ⟨2 * edgePlaces, true⟩ else ⟨n, false⟩

/-- The axes of an array as they are written. -/
def axes (s : Shape) : List WrittenAxis := s.map fun n => if s.isLarge then cutAxis n else ⟨n, false⟩

/-- Cuts a list into `count` pieces of one length. -/
def pieces {α : Type} (length : Nat) : Nat → List α → List (List α)
  | 0, _ => []
  | count + 1, xs => xs.take length :: pieces length count (xs.drop length)

/-- The first and last places along an axis. -/
def edges {α : Type} (n : Nat) (xs : List α) : List α :=
  if (cutAxis n).cut then xs.take edgePlaces ++ xs.drop (n - edgePlaces) else xs

/-- The cells at the edges of all axes. -/
def edgeCells {α : Type} : Shape → List α → List α
  | [], cells => cells
  | n :: s, cells => (edges n (pieces (volume s) n cells)).flatMap (edgeCells s)

/-- The cells of an array that are shown. -/
def shownCells {α : Type} (s : Shape) (cells : List α) : List α :=
  if s.isLarge then edgeCells s cells else cells

/-- The lengths of the axes between parentheses; a single one is followed by a comma. -/
def written : Shape → String
  | [n] => "(" ++ toString n ++ ",)"
  | s => "(" ++ ", ".intercalate (s.map toString) ++ ")"

end Shape

/-- How the brackets of an array are laid out. -/
structure BracketStyle where
  /-- between two cells -/
  separator : String
  /-- between two rows, at the end of the line -/
  rowEnd : String
  /-- the column of the first cell -/
  indent : Nat
  /-- the width of a line -/
  width : Nat

namespace BracketStyle

/-- The width of a line of text. -/
def lineWidth : Nat := 75

/-- For reading: blanks between the cells. -/
def plain : BracketStyle := ⟨" ", "", 1, lineWidth⟩

/-- As a literal: commas between the cells, behind the opening word and before the closing bracket. -/
def literal : BracketStyle := ⟨", ", ",", 7, lineWidth - 1⟩

/-- Drops the blanks at the end of a line. -/
def dropBlankEnd (s : String) : String :=
  String.ofList (s.toList.reverse.dropWhile (· == ' ')).reverse

/-- A new line that starts at a column. -/
def newLine (indent : Nat) : String := "\n" ++ String.ofList (List.replicate indent ' ')

/-- Fills lines with the cells of a row; a line takes a cell while it stays within the limit, and its
    first cell always. -/
def fillLines (separator : String) (room : Nat) : String → List String → List String
  | line, [] => [line]
  | line, w :: ws =>
    let ending := if ws.isEmpty then w else w ++ separator
    if !line.isEmpty ∧ room < line.length + w.length then
      dropBlankEnd line :: fillLines separator room ending ws
    else fillLines separator room (line ++ ending) ws

/-- Puts dots in the middle of what is shown along an axis that is cut. -/
def withDots (axis : WrittenAxis) (shown : List String) : List String :=
  if axis.cut then shown.take Shape.edgePlaces ++ "..." :: shown.drop Shape.edgePlaces else shown

/-- The brackets of some axes around the cells shown. -/
def brackets (style : BracketStyle) : List WrittenAxis → Nat → Nat → List String → String
  | [], _, _, cells => String.join cells
  | [axis], indent, width, cells =>
    let room := width - 1 - indent
    "[" ++ (newLine indent).intercalate (fillLines style.separator room "" (withDots axis cells)) ++ "]"
  | axis :: axes, indent, width, cells =>
    let gap := String.ofList (List.replicate (axes.length - 1) '\n')
    let rows := Shape.pieces (Shape.volume (axes.map WrittenAxis.shown)) axis.shown cells
    "[" ++ (style.rowEnd ++ gap ++ newLine indent).intercalate
      (withDots axis (rows.map (brackets style axes (indent + 1) (width - 1)))) ++ "]"

/-- An array with its shown cells written. -/
def write (style : BracketStyle) (shape : Shape) (cells : List String) : String :=
  if Shape.volume shape = 0 then "[]" else brackets style shape.axes style.indent style.width cells

end BracketStyle

namespace CellKind

/-- The name of a kind. -/
def name : CellKind → String
  | truth => "bool"
  | word => "int64"
  | unsigned => "uint64"
  | half => "float16"
  | double => "float64"

/-- A cell for reading, with as many digits as read back. -/
def display : (k : CellKind) → k.Carrier → String
  | truth, b => if b then "True" else "False"
  | word, w => toString w.toInt
  | unsigned, n => toString n.toNat
  | half, h => Number.roundTripHalf h
  | double, x => Number.roundTrip x

/-- The cells of an array at one width. -/
def column (k : CellKind) (cells : List k.Carrier) : List String :=
  if k.isWhole then Number.wholeColumn (cells.map k.toInt) else Number.realColumn (cells.map k.toFloat)

end CellKind

/-- A cell as a literal: behind the name of its kind, or for a truth as a name with an underscore. -/
def Cell.literal (c : Cell) : String :=
  match c.kind, c.value with
  | .truth, b => if b then "np.True_" else "np.False_"
  | k, x => "np." ++ k.name ++ "(" ++ k.display x ++ ")"

namespace Cells

/-- The cells that are shown, in brackets. -/
def write (c : Cells) (style : BracketStyle) : String :=
  style.write c.grid.shape (c.kind.column (c.grid.shape.shownCells c.grid.cells))

/-- An array for reading. -/
def display (c : Cells) : String :=
  match c.cell? with
  | some x => x.kind.display x.value
  | none => c.write .plain

/-- What cannot be seen of an array: the shape of one with no cells or too many to show, and the kind of
    cells that are not there. -/
def unseen (c : Cells) : List String :=
  let shape := c.grid.shape
  let empty := decide (shape.volume = 0)
  (if shape.isLarge || (empty && shape != [0]) then ["shape=" ++ shape.written] else [])
    ++ (if empty then ["dtype=" ++ c.kind.name] else [])

/-- **An array as a literal.**  What cannot be seen follows, on a new line when the last one is full. -/
def literal (c : Cells) : String :=
  let body := "array(" ++ c.write .literal
  match c.unseen with
  | [] => body ++ ")"
  | facts =>
    let rest := ", ".intercalate facts ++ ")"
    let lastLine := (body.toList.reverse.takeWhile (· != '\n')).length + 1
    body ++ "," ++ (if BracketStyle.lineWidth < lastLine + rest.length + 1 then BracketStyle.newLine 6
      else " ") ++ rest

end Cells

namespace Value

/-- **A value for reading.**  Doubles, free or not, have six digits.  Whole numbers have all of theirs: a limit
    that a host sets on the digits it is willing to write is not modelled. -/
def display : Value → String
  | integer n => toString n
  | real x | cell ⟨.double, x⟩ => Number.general x
  | text s => s
  | truth b => if b then "True" else "False"
  | absent => "None"
  | cell c => c.kind.display c.value
  | array c => c.display

/-- **A value as a literal.** -/
def literal : Value → String
  | integer n => toString n
  | real x => Number.roundTrip x
  | text s => Text.quoted s
  | truth b => if b then "True" else "False"
  | absent => "None"
  | cell c => c.literal
  | array c => c.literal

end Value

end ExprGraph

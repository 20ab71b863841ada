/-!
  The lines of a text.

  A line ends at a line feed, a carriage return, both in that order, or one of the other characters that
  Unicode or ASCII has for ending lines, pages and records.  What stands behind the last end is a line only
  when it is not empty.
-/

namespace ExprGraph.Text

/-- The character ends a line. -/
def endsLine (c : Char) : Bool :=
  let n := c.toNat
  (decide (0x0A ≤ n) && decide (n ≤ 0x0D)) || (decide (0x1C ≤ n) && decide (n ≤ 0x1E)) ||
  [0x85, 0x2028, 0x2029].contains n

/-- Cuts characters into lines; the characters of the line under way are held latest first. -/
def linesFrom : List Char → List Char → List (List Char)
  | [], [] => []
  | line, [] => [line.reverse]
  | line, '\r' :: '\n' :: rest => line.reverse :: linesFrom [] rest
  | line, c :: rest => if endsLine c then line.reverse :: linesFrom [] rest else linesFrom (c :: line) rest

/-- **The lines of a text**, without their ends. -/
def lines (s : String) : List String := (linesFrom [] s.toList).map String.ofList

example : lines "a\n\nb\r\nc\rd" = ["a", "", "b", "c", "d"] := by decide +kernel

end ExprGraph.Text

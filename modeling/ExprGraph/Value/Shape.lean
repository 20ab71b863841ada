/-!
  Shapes of arrays, and how two shapes meet.

  A shape lists the lengths of the axes; its cells are numbered in row-major order, the last axis
  running fastest (`indices`, `offset`).  Two shapes meet when, aligned at the last axis, each pair of
  lengths is equal or one of them is one; the met shape takes the longer of each pair (`broadcast`).
  An index of the met shape selects a cell of each operand: missing axes are left out and axes of
  length one stay at zero (`restrict`).
-/

namespace ExprGraph

/-- The lengths of the axes, outermost first. -/
abbrev Shape := List Nat

namespace Shape

/-- Number of cells. -/
def volume : Shape → Nat
  | [] => 1
  | n :: s => n * volume s

/-- All indices in row-major order. -/
def indices : Shape → List (List Nat)
  | [] => [[]]
  | n :: s => (List.range n).flatMap fun i => (indices s).map (i :: ·)

/-- The row-major number of an index. -/
def offset : Shape → List Nat → Nat
  | _ :: s, i :: ix => i * volume s + offset s ix
  | _, _ => 0

/-- **There are as many indices as cells.** -/
theorem length_indices : ∀ s : Shape, (indices s).length = volume s
  | [] => rfl
  | n :: s => by
    have ih := length_indices s
    simp [indices, volume, List.length_flatMap, ih, List.map_const']

/-- Two lengths meet. -/
def meetLength (m n : Nat) : Option Nat :=
  if m = n then some m else if m = 1 then some n else if n = 1 then some m else none

/-- Two shapes with the last axis first meet. -/
def meetReversed : Shape → Shape → Option Shape
  | [], t => some t
  | s, [] => some s
  | m :: s, n :: t =>
    match meetLength m n, meetReversed s t with
    | some k, some r => some (k :: r)
    | _, _ => none

/-- **The shape in which two shapes meet**, if they do.  It may have as many axes and cells as it takes: the
    limits that an array library sets on both are not modelled. -/
def broadcast (s t : Shape) : Option Shape := (meetReversed s.reverse t.reverse).map List.reverse

/-- The index of a shape that an index of a met shape selects. -/
def restrict (s : Shape) (ix : List Nat) : List Nat :=
  List.zipWith (fun n i => if n = 1 then 0 else i) s (ix.drop (ix.length - s.length))

end Shape

end ExprGraph

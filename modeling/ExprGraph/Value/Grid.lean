import ExprGraph.Value.Shape
/-!
  Shaped arrays.

  A grid holds one cell for each index of its shape, in row-major order.  Operations on two grids first
  stretch both to the shape in which they meet and then work cell by cell (`pointwise`).
-/

namespace ExprGraph

/-- An array with a shape; the cells are in row-major order. -/
structure Grid (α : Type) where
  /-- the lengths of the axes -/
  shape : Shape
  /-- the cells, last axis fastest -/
  cells : List α
  /-- one cell for each index -/
  length_cells : cells.length = shape.volume

namespace Grid

variable {α β γ : Type}

/-- A grid without axes holds one cell. -/
def scalar (x : α) : Grid α := ⟨[], [x], rfl⟩

/-- The only cell of a grid without axes. -/
def scalar? (g : Grid α) : Option α :=
  match g.shape, g.cells with
  | [], [x] => some x
  | _, _ => none

/-- A grid of the given cells, when their number fits the shape. -/
def ofCells? (shape : Shape) (cells : List α) : Option (Grid α) :=
  if h : cells.length = shape.volume then some ⟨shape, cells, h⟩ else none

/-- Applies a function to each cell. -/
def map (f : α → β) (g : Grid α) : Grid β :=
  ⟨g.shape, g.cells.map f, by simpa using g.length_cells⟩

/-- The cell at an index. -/
def get [Inhabited α] (g : Grid α) (ix : List Nat) : α :=
  g.cells.getD (g.shape.offset ix) default

/-- The cells of a grid, repeated as needed to fill a larger shape. -/
def stretch [Inhabited α] (g : Grid α) (shape : Shape) : List α :=
  shape.indices.map fun ix => g.get (g.shape.restrict ix)

theorem length_stretch [Inhabited α] (g : Grid α) (shape : Shape) :
    (g.stretch shape).length = shape.volume := by
  simp [stretch, Shape.length_indices]

/-- **A function of two cells, applied to two grids** in the shape in which they meet. -/
def pointwise [Inhabited α] [Inhabited β] (f : α → β → γ) (a : Grid α) (b : Grid β) :
    Option (Grid γ) :=
  (a.shape.broadcast b.shape).map fun shape =>
    ⟨shape, List.zipWith f (a.stretch shape) (b.stretch shape), by
      simp [length_stretch]⟩

/-- Same shape, and the relation holds of each pair of cells. -/
def agree (r : α → β → Bool) (a : Grid α) (b : Grid β) : Bool :=
  decide (a.shape = b.shape) && (List.zipWith r a.cells b.cells).all id

end Grid

end ExprGraph

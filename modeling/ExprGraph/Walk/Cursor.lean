import ExprGraph.Store.Basic
/-!
  Walks in post-order, one step at a time.

  A cursor holds the path from the root of a walk to the vertex it stands on, and for each vertex of the
  path the position among its operands.  A step (`Cursor.next`) does one of three things at the end of the
  path: with operands left it goes down to the next one, with all done it stops there and yields the
  vertex, and past that it goes back up.  So every vertex is yielded after its operands, and a shared
  vertex once for each way that leads to it.

  The store is not part of the cursor.  Each step looks at the store as it then is, and never goes further
  down than the store has vertices.

    * state    the path, deepest frame first;
    * next     go up past finished frames (by the length of the path), then down (by the size of the store).
-/

namespace ExprGraph

/-- A vertex on the path of a walk. -/
structure Frame where
  /-- the vertex -/
  vertex : VertexId
  /-- the operand to visit next; one past the last operand, the vertex itself was yielded -/
  position : Nat
  deriving DecidableEq

/-- A walk in progress. -/
structure Cursor where
  /-- the path from the vertex the walk stands on up to the root -/
  path : List Frame
  deriving DecidableEq

namespace Cursor

/-- A walk that has not begun. -/
def start (root : VertexId) : Cursor := ⟨[⟨root, 0⟩]⟩

/-- Goes down to a first operand as long as there is one, and yields the vertex at the end. -/
def descend (s : Store) : Nat → VertexId → List Frame → VertexId × Cursor
  | 0, v, path => (v, ⟨⟨v, (s.operands v).length + 1⟩ :: path⟩)
  | depth + 1, v, path =>
    match s.operands v with
    | [] => (v, ⟨⟨v, 1⟩ :: path⟩)
    | w :: _ => descend s depth w (⟨v, 0⟩ :: path)

/-- Goes up to the first frame that is not finished and on from there; `none` at the end of the walk. -/
def advance (s : Store) : List Frame → Option (VertexId × Cursor)
  | [] => none
  | ⟨v, i⟩ :: rest =>
    match (s.operands v)[i]? with
    | some w => some (descend s s.vertices.size w (⟨v, i⟩ :: rest))
    | none =>
      if i = (s.operands v).length then some (v, ⟨⟨v, i + 1⟩ :: rest⟩)
      else
        match rest with
        | [] => none
        | ⟨u, j⟩ :: above => advance s (⟨u, j + 1⟩ :: above)
termination_by path => path.length

/-- **One step of the walk**: the vertex it yields, if any is left, and the walk after it. -/
def next (s : Store) (c : Cursor) : Option VertexId × Cursor :=
  match advance s c.path with
  | some (v, c) => (some v, c)
  | none => (none, ⟨[]⟩)

/-- The vertices on the path. -/
def vertices (c : Cursor) : List VertexId := c.path.map Frame.vertex

end Cursor

end ExprGraph

import ExprGraph.Store.Ownership
import ExprGraph.Store.Reach
/-!
  Deep copies.

  A deep copy of a tree has a new vertex for every vertex below the handle, inert children included, and
  its links run among the new vertices just as the old ones run among the old: what was shared stays
  shared.  The vertices are copied children first, so the copies of the children are there when a parent
  is copied.  Payloads are copied too, and functions that are not their own copies get numbers that no
  function has had before, the same number for the same function.
-/

namespace ExprGraph

namespace Store

/-- Copies one vertex, whose children are found in the table of the copies made so far. -/
def cloneVertex (fresh : Nat) (state : Array (Option VertexId) × Store) (v : VertexId) :
    Array (Option VertexId) × Store :=
  let (copies, s) := state
  match s.vertex? v with
  | none => state
  | some x =>
    let links := x.links.map fun vs => vs.map fun u => (copies[u]?.join).getD u
    let (w, s) := (s.addOwners (links.getD [])).insert ⟨x.payload.deepCopy fresh, links, 0⟩
    (copies.setIfInBounds v (some w), s)

/-- The first number that is above those of all functions in the vertices. -/
def liveCopies (s : Store) : Nat :=
  s.vertices.foldl (fun n x => max n ((x.map fun x => x.payload.nextCopy).getD 0)) 0

/-- **The first number for copies of functions**, above those of all functions that there are or have been. -/
def nextCopy (s : Store) : Nat := max s.copies s.liveCopies

/-- **A deep copy of the tree behind a handle.** -/
def clone (s : Store) (h : Handle) : Except Fault (Handle × Store) := do
  let v ← s.root h
  let table := Array.replicate s.vertices.size none
  let (copies, s) := (s.finished [v]).foldl (cloneVertex s.nextCopy) (table, s)
  return s.bind ((copies[v]?.join).getD v)

end Store

end ExprGraph

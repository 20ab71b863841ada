import ExprGraph.Store.Reach
/-!
  Pictures of the store.

  A snapshot shows the vertices reachable from given roots, each once, numbered from zero in preorder, with
  payload, numbered children and owners.  It does not depend on the numbers vertices have in the store.
-/

namespace ExprGraph

namespace Snapshot

/-- One vertex of a snapshot. -/
structure Row where
  payload : Payload
  /-- the rows of the children, once linked -/
  children : Option (List Nat)
  owners : Nat

end Snapshot

/-- The reachable part of a store, numbered in preorder. -/
structure Snapshot where
  /-- the rows of the roots -/
  roots : List Nat
  rows : List Snapshot.Row

namespace Store

/-- For each vertex its place in a list. -/
def numbering (s : Store) (vs : List VertexId) : Array Nat :=
  vs.zipIdx.foldl (fun table (v, i) => table.setIfInBounds v i) (Array.replicate s.vertices.size 0)

/-- **A snapshot of everything below the roots.** -/
def snapshot (s : Store) (roots : List VertexId) : Snapshot :=
  let order := s.entered roots
  let table := s.numbering order
  let number := fun v => table.getD v 0
  ⟨roots.map number, order.filterMap fun v => (s.vertex? v).map fun x =>
    ⟨x.payload, x.links.map fun vs => vs.map number, x.owners⟩⟩

end Store

end ExprGraph

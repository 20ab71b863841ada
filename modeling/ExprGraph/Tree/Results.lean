import ExprGraph.Walk.Visiting
/-!
  Computing a result for every vertex from the results of its operands.

  The walk carries a working list of results, latest first.  At a vertex with `k` operands the `k` latest
  results are those of its operands; they are taken off, the result of the vertex is computed from them in
  operand order, and put on.  At the end the list holds one result, that of the root.
-/

namespace ExprGraph

namespace Store

/-- Replaces the results of the operands of a vertex by the result of the vertex. -/
def condense {ε α : Type} (result : Vertex → List α → Except ε α) (results : List α) (x : Vertex) :
    Except ε (List α) :=
  let count := x.operands.length
  (result x (results.take count).reverse).map fun r => r :: results.drop count

/-- **The result of a tree**, or the first error of the walk; nothing when the root is not live. -/
def resultOf {ε α : Type} (s : Store) (root : VertexId) (result : Vertex → List α → Except ε α) :
    Except ε (Option α) :=
  (s.visit root (fun results _ x => condense result results x) []).map List.head?

/-- The result of a tree when no vertex fails. -/
def certainResultOf {α : Type} (s : Store) (root : VertexId) (result : Vertex → List α → α) :
    Option α :=
  certain (s.resultOf root fun x args => .ok (result x args))

end Store

end ExprGraph

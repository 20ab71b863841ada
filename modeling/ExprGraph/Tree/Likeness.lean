import ExprGraph.Walk.Visiting
/-!
  Equality of trees.

  Two trees are alike when they unfold to the same shape with equal payloads; how they share vertices
  makes no difference, and neither do children of leaves.  Two walks go side by side and compare the
  vertices they yield: equally many operands, and equal payloads.  They stop at the first difference, and at
  the first payloads that cannot be compared.  Trees on one and the same vertex are alike without a look.
-/

namespace ExprGraph

/-- Two vertices agree in their payloads and in the number of their operands. -/
def Vertex.alike (x y : Vertex) : Except Fault Bool :=
  if x.operands.length = y.operands.length then x.payload.same y.payload else .ok false

namespace Store

/-- Two walks side by side, for at most `bound` steps. -/
def alikeFrom (s : Store) : Nat → Cursor → Cursor → Except Fault Bool
  | 0, _, _ => .error .circular
  | bound + 1, a, b =>
    match a.next s, b.next s with
    | (none, _), (none, _) => .ok true
    | (some v, a), (some w, b) =>
      match s.vertex? v, s.vertex? w with
      | some x, some y => do if ← x.alike y then alikeFrom s bound a b else return false
      | _, _ => .error .staleHandle
    | _, _ => .ok false

/-- The two trees compared vertex by vertex. -/
def alikeAlong (s : Store) (a b : VertexId) : Except Fault Bool :=
  alikeFrom s (s.walkBound + 1) (.start a) (.start b)

/-- **The two trees are alike.** -/
def alike (s : Store) (a b : VertexId) : Except Fault Bool :=
  if a = b then .ok true else s.alikeAlong a b

end Store

end ExprGraph

import ExprGraph.Tree.Results
/-!
  The text of a tree.

  A leaf is written as its payload.  An operator with a symbol and at least two operands is written infix,
  in parentheses; any other as its name in front of its operands.
-/

namespace ExprGraph

namespace Operator

/-- An operator between or in front of its written operands. -/
def render (f : Operator) (args : List String) : String :=
  match f.symbol, args with
  | some sign, _ :: _ :: _ => "(" ++ (" " ++ sign ++ " ").intercalate args ++ ")"
  | _, _ => f.name ++ "(" ++ ", ".intercalate args ++ ")"

end Operator

/-- The text of a vertex whose operands are written. -/
def Vertex.render (x : Vertex) (args : List String) : String :=
  match x.payload with
  | .op f => f.render args
  | p => p.display

namespace Store

/-- **The text of a tree.** -/
def render (s : Store) (root : VertexId) : String :=
  (s.certainResultOf root Vertex.render).getD ""

end Store

end ExprGraph

import ExprGraph.Walk.Visiting
/-!
  What is wrong with the structure of a tree.

  An operator needs operands, and as many as its arity says.  Children of a leaf are not wrong but of no
  use.  The problems of a tree are listed along its post-order walk; a shared vertex is reported once for
  each way that leads to it.
-/

namespace ExprGraph

/-- A structural problem of a vertex. -/
inductive Problem where
  /-- an operator has no operands -/
  | noOperands (name : String)
  /-- an operator has other than its declared number of operands -/
  | wrongCount (name : String) (expected got : Nat)
  /-- a leaf has children -/
  | ignored (leaf : Payload) (count : Nat)

namespace Problem

/-- The sentence of a problem. -/
def text : Problem → String
  | noOperands name => "Operator '" ++ name ++ "' has no operands"
  | wrongCount name expected got =>
    "Operator '" ++ name ++ "' expects " ++ toString expected ++ " operand(s), has " ++ toString got
  | ignored leaf count =>
    leaf.kind.headName ++ " '" ++ leaf.display ++ "' carries " ++ toString count
      ++ " ignored child(ren)"

end Problem

/-- The problem of a vertex, if it has one. -/
def Vertex.problem? (x : Vertex) : Option Problem :=
  match x.payload with
  | .op f =>
    if x.operands.isEmpty then some (.noOperands f.name)
    else match f.arity with
      | some n => if x.operands.length = n then none else some (.wrongCount f.name n x.operands.length)
      | none => none
  | p => if x.children.isEmpty then none else some (.ignored p x.children.length)

namespace Store

/-- **The problems of a tree**, in post-order. -/
def problems (s : Store) (root : VertexId) : List Problem :=
  (s.fold root (fun found _ x => match x.problem? with
    | some p => p :: found
    | none => found) []).reverse

/-- The tree has no problems. -/
def isValid (s : Store) (root : VertexId) : Bool := (s.problems root).isEmpty

end Store

end ExprGraph

import ExprGraph.Tree.Results
/-!
  Size, depth and variables of a tree.

  All of them count occurrences: a shared vertex counts once for each way that leads to it.
-/

namespace ExprGraph

/-- How often names occur, in the order of their first occurrence. -/
abbrev Usage := List (String × Nat)

namespace Usage

/-- One more occurrence of a name. -/
def count (name : String) : Usage → Usage
  | [] => [(name, 1)]
  | (other, n) :: rest =>
    if other = name then (other, n + 1) :: rest else (other, n) :: count name rest

/-- The names that occur. -/
def names (u : Usage) : List String := u.map Prod.fst

end Usage

namespace Store

/-- Number of vertices. -/
def treeSize (s : Store) (root : VertexId) : Nat := s.fold root (fun n _ _ => n + 1) 0

/-- Depth above the operands: a vertex without operands has depth one. -/
def depthAbove (depths : List Nat) : Nat := depths.foldl max 0 + 1

/-- **Depth of a tree**: the number of vertices on its longest way down. -/
def depth (s : Store) (root : VertexId) : Nat :=
  (s.certainResultOf root fun _ depths => depthAbove depths).getD 0

/-- **How often each variable occurs.** -/
def usage (s : Store) (root : VertexId) : Usage :=
  s.fold root (fun u _ x => match x.payload with
    | .var name => u.count name
    | _ => u) []

/-- The names that have to be bound. -/
def variableNames (s : Store) (root : VertexId) : List String := (s.usage root).names

/-- A variable stops a walk. -/
def stopAtVariable (_ : Unit) (_ : VertexId) (x : Vertex) : Except Unit Unit :=
  match x.payload with
  | .var _ => .error ()
  | _ => .ok ()

/-- No variable occurs; the walk stops at the first that does. -/
def isConstant (s : Store) (root : VertexId) : Bool := (s.visit root stopAtVariable ()).isOk

end Store

end ExprGraph

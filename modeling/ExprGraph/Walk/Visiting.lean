import ExprGraph.Store.Ownership
import ExprGraph.Walk.Cursor
/-!
  Walking a whole tree.

  `Store.visit` carries a state along a post-order walk and may stop early.  The walk of a tree is finite
  because the links form no circle; how long it can get at most (`Store.walkBound`) is bounded by the
  vertices and the widest of them.  The other walk is by levels (`Store.byLevel`), with a queue of the
  vertices still to visit.
-/

namespace ExprGraph

/-- The result of a computation that cannot fail. -/
def certain {α : Type} : Except Empty α → α
  | .ok a => a

namespace Store

/-- The greatest number of children of a vertex. -/
def width (s : Store) : Nat :=
  s.vertices.foldl (fun n x => match x with
    | some x => max n x.children.length
    | none => n) 0

/-- No walk in a store without circles yields more vertices than this. -/
def walkBound (s : Store) : Nat := Nat.pow (s.width + 1) s.vertices.size

/-- Carries a state along a walk, for at most `bound` steps. -/
def visitFrom {ε σ : Type} (s : Store) (f : σ → VertexId → Vertex → Except ε σ) :
    Nat → σ → Cursor → Except ε σ
  | 0, state, _ => .ok state
  | bound + 1, state, c =>
    match c.next s with
    | (none, _) => .ok state
    | (some v, c) =>
      match s.vertex? v with
      | none => visitFrom s f bound state c
      | some x =>
        match f state v x with
        | .ok state => visitFrom s f bound state c
        | .error e => .error e

/-- **Carries a state along the post-order walk of a tree**, until its end or the first error. -/
def visit {ε σ : Type} (s : Store) (root : VertexId) (f : σ → VertexId → Vertex → Except ε σ)
    (state : σ) : Except ε σ :=
  visitFrom s f s.walkBound state (.start root)

/-- Carries a state along the post-order walk of a tree to its end. -/
def fold {σ : Type} (s : Store) (root : VertexId) (f : σ → VertexId → Vertex → σ) (state : σ) : σ :=
  certain (s.visit root (fun state v x => .ok (f state v x)) state)

/-- The vertices of a tree in post-order, once for each way that leads to them. -/
def postOrder (s : Store) (root : VertexId) : List VertexId :=
  (s.fold root (fun vs v _ => v :: vs) []).reverse

/-- New handles for the vertices of a tree in post-order, one for each way that leads to a vertex. -/
def bindWalk (s : Store) (root : VertexId) : List Handle × Store := s.bindAll (s.postOrder root)

/-- Takes vertices off a queue and puts their operands at its end.  The queue is held in two lists, the
    second latest first; it is turned over when the first is used up. -/
def byLevelFrom (s : Store) : Nat → List VertexId → List VertexId → List VertexId → List VertexId
  | 0, done, _, _ => done.reverse
  | bound + 1, done, front, back =>
    match front with
    | v :: front => byLevelFrom s bound (v :: done) front ((s.operands v).reverse ++ back)
    | [] =>
      match back.reverse with
      | v :: front => byLevelFrom s bound (v :: done) front (s.operands v).reverse
      | [] => done.reverse

/-- The vertices of a tree level by level, once for each way that leads to them. -/
def byLevel (s : Store) (root : VertexId) : List VertexId :=
  byLevelFrom s s.walkBound [] [root] []

/-- The live vertices of a list of numbers. -/
def look (s : Store) (vs : List VertexId) : List Vertex := vs.filterMap s.vertex?

end Store

end ExprGraph

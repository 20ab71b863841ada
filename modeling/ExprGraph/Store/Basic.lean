import ExprGraph.Payload
/-!
  The store of vertices.

  An expression is a graph of vertices.  A vertex holds a payload, links to its children, and a count of
  its owners; the owners are the handles given out and the links of other vertices, and one vertex may
  have many of both.  The links are absent until a vertex is linked for the first time.  Only the
  children of an operator are its operands; children linked to a leaf lie there unused.

  A vertex lives as long as it has an owner.  Walks in progress can pin vertices: a pinned vertex stays
  although its last owner is gone.

  This module has the store itself, how to look things up in it, and its elementary changes; who calls
  them keeps the counts right.
-/

namespace ExprGraph

/-- The number of a vertex; it is never given out twice. -/
abbrev VertexId := Nat

/-- The number of a handle; it is never given out twice. -/
abbrev Handle := Nat

/-- A vertex of the graph. -/
structure Vertex where
  /-- what it holds -/
  payload : Payload
  /-- its children, once it has been linked -/
  links : Option (List VertexId)
  /-- number of handles and links bound to it -/
  owners : Nat

namespace Vertex

/-- The children, none when there are no links. -/
def children (x : Vertex) : List VertexId := x.links.getD []

/-- **The operands**: the children of an operator.  A leaf has none, whatever is linked to it. -/
def operands (x : Vertex) : List VertexId :=
  match x.payload with
  | .op _ => x.children
  | _ => []

end Vertex

/-- What is bound to a vertex: a handle, or a link of another vertex. -/
inductive Place where
  /-- a handle -/
  | handle (h : Handle)
  /-- the link of a parent at an index -/
  | link (parent : VertexId) (index : Nat)
  deriving DecidableEq

/-- The vertices and the handles given out. -/
structure Store where
  /-- the live vertices, by number -/
  vertices : Array (Option Vertex)
  /-- the live handles, by number, with the vertices they are bound to -/
  handles : Array (Option VertexId)
  /-- vertices on which a walk in progress stands -/
  pinned : List VertexId
  /-- a number above those of all functions there have been, whether or not they are still in a vertex -/
  copies : Nat

namespace Store

/-- The store at the beginning. -/
def empty : Store := ⟨#[], #[], [], 0⟩

/-! ## Looking up -/

/-- The live vertex of a number. -/
def vertex? (s : Store) (v : VertexId) : Option Vertex := s.vertices[v]?.join

/-- The vertex a live handle is bound to. -/
def target? (s : Store) (h : Handle) : Option VertexId := s.handles[h]?.join

/-- The vertex a place is bound to. -/
def at? (s : Store) : Place → Option VertexId
  | .handle h => s.target? h
  | .link v i => (s.vertex? v).bind fun x => x.children[i]?

/-- The children of a vertex. -/
def children (s : Store) (v : VertexId) : List VertexId :=
  match s.vertex? v with
  | some x => x.children
  | none => []

/-- The operands of a vertex. -/
def operands (s : Store) (v : VertexId) : List VertexId :=
  match s.vertex? v with
  | some x => x.operands
  | none => []

/-- The number and the vertex behind a handle. -/
def behind (s : Store) (h : Handle) : Except Fault (VertexId × Vertex) :=
  match s.target? h with
  | none => .error .staleHandle
  | some v =>
    match s.vertex? v with
    | none => .error .staleHandle
    | some x => .ok (v, x)

/-- The vertex number behind a handle. -/
def root (s : Store) (h : Handle) : Except Fault VertexId := (s.behind h).map Prod.fst

/-! ## Elementary changes -/

/-- Changes the vertex of a number, if it is live. -/
def modify (s : Store) (v : VertexId) (f : Vertex → Vertex) : Store :=
  { s with vertices := s.vertices.modify v (Option.map f) }

/-- Takes a vertex out of the store. -/
def erase (s : Store) (v : VertexId) : Store :=
  { s with vertices := s.vertices.setIfInBounds v none }

/-- The numbers of functions below the given one are taken, and are not given to copies any more. -/
def reserve (s : Store) (n : Nat) : Store := { s with copies := max s.copies n }

/-- Puts a new vertex into the store. -/
def insert (s : Store) (x : Vertex) : VertexId × Store :=
  (s.vertices.size, { s with vertices := s.vertices.push (some x) }.reserve x.payload.nextCopy)

/-- One more owner of a vertex. -/
def addOwner (s : Store) (v : VertexId) : Store :=
  s.modify v fun x => { x with owners := x.owners + 1 }

/-- One owner of a vertex less; the vertex stays. -/
def dropOwner (s : Store) (v : VertexId) : Store :=
  s.modify v fun x => { x with owners := x.owners - 1 }

/-- One more owner for each vertex of a list, counted as often as it occurs. -/
def addOwners (s : Store) (vs : List VertexId) : Store := vs.foldl addOwner s

/-- Binds a place to another vertex; no owners are counted. -/
def rebind (s : Store) (p : Place) (v : VertexId) : Store :=
  match p with
  | .handle h => { s with handles := s.handles.modify h fun _ => some v }
  | .link u i => s.modify u fun x => { x with links := x.links.map fun vs => vs.set i v }

/-- A new handle bound to a vertex, as one more owner. -/
def bind (s : Store) (v : VertexId) : Handle × Store :=
  let s := s.addOwner v
  (s.handles.size, { s with handles := s.handles.push (some v) })

end Store

/-- What may stand where a tree is asked for: a handle, or something else of a kind. -/
inductive TreeLike where
  | tree (h : Handle)
  | other (kind : String)

end ExprGraph

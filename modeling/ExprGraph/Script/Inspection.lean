import ExprGraph.Script.Command
import ExprGraph.Tree.Likeness
import ExprGraph.Tree.Measures
import ExprGraph.Tree.Rendering
import ExprGraph.Tree.Validity
/-!
  Everything about one tree.

  A sketch describes a tree from the top down.  It is built from the leaves up, the operands of a vertex
  from left to right.  The inspection of a tree lists its texts, orders, measures and problems, evaluates
  it by both strategies, folds it beside a deep copy, and evaluates it again.
-/

namespace ExprGraph

namespace Script

/-- The description of a tree. -/
inductive Sketch where
  /-- an operator vertex, which is never linked when there is no list of operands -/
  | op (f : OperatorSpec) (args : Option (List Sketch))
  /-- a leaf, with children of no effect if there is a list of them -/
  | leaf (p : PayloadSpec) (inert : Option (List Sketch))

namespace Sketch

mutual

/-- Builds the tree of a sketch. -/
def build (s : Session) : Sketch → Except Fault (Handle × Session)
  | op f none => do
    let (h, store) := s.store.make (.op (← f.operator))
    return (h, { s with store })
  | op f (some args) => do
    let (hs, s) ← buildAll s args
    let (h, s) ← s.makeOperator (← f.decode) (hs.map .tree)
    return (h, { s with store := s.store.dropAll hs })
  | leaf p none => do
    let (h, store) := s.store.make (← p.payload)
    return (h, { s with store })
  | leaf p (some inert) => do
    let (h, store) := s.store.make (← p.payload)
    let (hs, s) ← buildAll { s with store } inert
    let s ← s.link h (hs.map .tree)
    return (h, { s with store := s.store.dropAll hs })

/-- Builds the trees of several sketches. -/
def buildAll (s : Session) : List Sketch → Except Fault (List Handle × Session)
  | [] => .ok ([], s)
  | t :: ts => do
    let (h, s) ← build s t
    let (hs, s) ← buildAll s ts
    return (h :: hs, s)

end

end Sketch

/-- What there is to know about a tree. -/
structure Inspection where
  text : String
  /-- the payloads in post-order and by level -/
  postOrder : List String
  byLevel : List String
  size : Nat
  depth : Nat
  usage : Usage
  isConstant : Bool
  problems : List String
  iterative : Except Fault Value
  recursive : Except Fault Value
  /-- number of operators folded -/
  folded : Except Fault Nat
  /-- text and root payload after folding -/
  foldedText : String
  foldedRoot : Payload
  /-- the value after folding -/
  after : Except Fault Value
  /-- text of the deep copy taken before folding -/
  cloneText : String
  /-- the folded tree and the deep copy are alike -/
  cloneAlike : Except Fault Bool

/-- **Builds a tree and inspects it.** -/
def inspect (t : Sketch) (b : Bindings) : Except Fault Inspection := do
  let (h, session) ← t.build .empty
  let s := session.store
  let v ← s.root h
  let shown := fun vs : List VertexId => (s.look vs).map fun x => x.payload.display
  let (g, s') ← s.clone h
  let r := s'.foldConstants h
  let (w, x) ← r.store.behind h
  let copy ← r.store.root g
  return {
    text := s.render v
    postOrder := shown (s.postOrder v)
    byLevel := shown (s.byLevel v)
    size := s.treeSize v
    depth := s.depth v
    usage := s.usage v
    isConstant := s.isConstant v
    problems := (s.problems v).map Problem.text
    iterative := s.evaluate .iterative b v
    recursive := s.evaluate .recursive b v
    folded := r.outcome
    foldedText := r.store.render w
    foldedRoot := x.payload
    after := r.store.evaluate .iterative b w
    cloneText := r.store.render copy
    cloneAlike := r.store.alike w copy }

end Script

end ExprGraph

import ExprGraph.Session
import Mathlib.Data.List.Induction
/-!
  The operations of a session as data.

  An operation has an outcome and leaves a session behind (`Session.perform`); one that fails leaves the
  session as it was, except for folding, which can fail halfway.  A run performs operations one after the
  other, whether or not they fail.
-/

namespace ExprGraph

/-- **An operation on the trees of a session.** -/
inductive Operation where
  /-- a leaf with a constant -/
  | constantLeaf (v : Value)
  /-- a leaf with a variable, whose name may be put into a set -/
  | variableLeaf (name : Option String) (observed : Option SetId)
  /-- an operator with children, looked up among the built-in ones -/
  | operator (f : OperatorLike) (cs : List TreeLike)
  /-- a payload that was never linked -/
  | vertex (p : Payload)
  /-- a payload with the given links, which nothing checks -/
  | linked (p : Payload) (children : Option (List Handle))
  /-- another handle for a tree -/
  | share (h : Handle)
  /-- handles for the children of a tree -/
  | children (h : Handle)
  /-- handles for the vertices of a tree in post-order -/
  | occurrences (h : Handle)
  /-- a deep copy of a tree -/
  | clone (h : Handle)
  /-- other children for a tree -/
  | link (h : Handle) (cs : List TreeLike)
  /-- the constants of a tree folded -/
  | fold (h : Handle) (summary : Bool)
  /-- a new set of names -/
  | nameSet (names : List String)
  /-- a new builder -/
  | builder (adopted : Option SetId) (operators : Table Operator)
  /-- a leaf with a variable whose name a builder observes -/
  | builderVariable (i : BuilderId) (name : Option String)
  /-- an operator with children, looked up in the registry of a builder -/
  | builderOperator (i : BuilderId) (f : OperatorLike) (cs : List TreeLike)
  /-- an operator in the registry of a builder -/
  | register (i : BuilderId) (f : OperatorLike) (name : Option String)
  /-- a tree published under a name -/
  | define (i : BuilderId) (name : String) (t : TreeLike)
  /-- the tree published under a name -/
  | resolve (i : BuilderId) (name : String)
  /-- a builder given up -/
  | dismiss (i : BuilderId)
  /-- a handle given back -/
  | drop (h : Handle)

/-- What an operation answers. -/
inductive Reply where
  | done
  | handle (h : Handle)
  /-- handles, or nothing for a vertex that was never linked -/
  | handles (hs : Option (List Handle))
  /-- the number of operators folded -/
  | count (n : Nat)
  | nameSet (i : SetId)
  | builder (i : BuilderId)
  /-- the operator registered -/
  | operator (f : Operator)
  /-- a published tree and a new set of the names observed by its builder -/
  | resolved (h : Handle) (names : SetId)

/-- The outcome of an operation that leaves everything as it was when it fails. -/
def settle {σ : Type} (before : σ) (r : Except Fault (Reply × σ)) : Except Fault Reply × σ :=
  match r with
  | .ok (a, after) => (.ok a, after)
  | .error e => (.error e, before)

namespace Session

/-- Goes on in a store with a new handle. -/
def keep (s : Session) (made : Handle × Store) : Reply × Session :=
  (.handle made.1, { s with store := made.2 })

/-- Goes on in a store with new handles. -/
def keepAll (s : Session) (hs : Option (List Handle)) (store : Store) : Reply × Session :=
  (.handles hs, { s with store })

/-- A new handle as an answer. -/
def answer (made : Handle × Session) : Reply × Session := (.handle made.1, made.2)

/-- **Performs an operation** under an interpretation of the operators. -/
def perform (s : Session) (apply : Operator.Interpretation) : Operation → Except Fault Reply × Session
  | .constantLeaf v => settle s (.ok (answer (s.makeConstant v)))
  | .variableLeaf name observed => settle s ((s.makeVariable name observed).map answer)
  | .operator f cs => settle s ((s.makeOperator f cs).map answer)
  | .vertex p => settle s (.ok (s.keep (s.store.make p)))
  | .linked p children => settle s ((s.store.makeLinked p children).map s.keep)
  | .share h => settle s ((s.store.share h).map s.keep)
  | .children h => settle s ((s.store.childHandles h).map fun (hs, store) => s.keepAll hs store)
  | .occurrences h => settle s ((s.store.root h).map fun v =>
      let (hs, store) := s.store.bindWalk v
      s.keepAll (some hs) store)
  | .clone h => settle s ((s.store.clone h).map s.keep)
  | .link h cs => settle s ((s.link h cs).map fun s => (.done, s))
  | .fold h summary =>
    let (r, s) := s.foldWith apply h summary
    (r.map .count, s)
  | .nameSet names =>
    let (i, s') := s.makeSet names
    settle s (.ok (.nameSet i, s'))
  | .builder adopted operators =>
    let (i, s') := s.makeBuilder adopted operators
    settle s (.ok (.builder i, s'))
  | .builderVariable i name => settle s ((Builder.makeVariable s i name).map answer)
  | .builderOperator i f cs => settle s ((Builder.makeOperator s i f cs).map answer)
  | .register i f name => settle s ((Builder.register s i f name).map fun (f, s) => (.operator f, s))
  | .define i name t => settle s ((Builder.define s i name t).map fun s => (.done, s))
  | .resolve i name => settle s ((Builder.resolve s i name).map fun (h, k, s) => (.resolved h k, s))
  | .dismiss i => settle s (.ok (.done, s.dismiss i))
  | .drop h => settle s (.ok (.done, { s with store := s.store.drop h }))

/-- **The session after a run of operations** from the beginning. -/
def run (apply : Operator.Interpretation) (ops : List Operation) : Session :=
  ops.foldl (fun s op => (s.perform apply op).2) .empty

/-- **What every operation keeps holds after a run** when it holds at the beginning. -/
theorem run_induction {apply : Operator.Interpretation} {motive : Session → Prop} (empty : motive .empty)
    (step : ∀ s op, motive s → motive (s.perform apply op).2) (ops : List Operation) :
    motive (run apply ops) := by
  induction ops using List.reverseRecOn with
  | nil => exact empty
  | append_singleton ops op ih =>
    rw [run, List.foldl_append]
    exact step _ op ih

/-! ## Folding in a session -/

/-- Folding in a session is folding in its store. -/
theorem store_foldWith (apply : Operator.Interpretation) (s : Session) (h : Handle) (summary : Bool) :
    (s.foldWith apply h summary).2.store = (s.store.foldWith apply h).store := by
  simp only [foldWith]
  split
  · split <;> rfl
  · rfl

theorem fst_foldWith (apply : Operator.Interpretation) (s : Session) (h : Handle) (summary : Bool) :
    (s.foldWith apply h summary).1 = (s.store.foldWith apply h).outcome := by
  simp only [foldWith]
  split
  · next n hn => rw [hn]; split <;> rfl
  · next e he => rw [he]

end Session

end ExprGraph

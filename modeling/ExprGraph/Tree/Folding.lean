import ExprGraph.Store.Linking
import ExprGraph.Tree.Evaluation
/-!
  Constant folding.

  Folding replaces every operator vertex whose operands are constants by the constant it evaluates to,
  from the leaves up, so that in the end an operator is left only where a variable occurs below it.  It
  changes the tree of one place: each operator vertex is taken for that place alone before its operands
  are folded, so no other handle sees any of it.

  The work is a stack of places.  An operator is met twice: first it is taken and its operands are put on
  top of it, then, with its operands done (`ready`), it is folded if they are constants.  What was folded
  before a failure stays folded.
-/

namespace ExprGraph

/-- A place still to be folded. -/
structure Pending where
  place : Place
  /-- its operands are done -/
  ready : Bool

/-- What one step of folding does. -/
structure FoldStep where
  store : Store
  /-- what was remarked, in order -/
  notes : List Note
  /-- number of operator vertices replaced, one or none -/
  folded : Nat
  /-- what to do next on top of the remaining work, or the failure -/
  next : Except Fault (List Pending)

/-- What came of folding. -/
structure Folded where
  store : Store
  /-- what was remarked, in order -/
  notes : List Note
  /-- number of operator vertices replaced, or the failure -/
  outcome : Except Fault Nat

namespace Store

/-- The values of constants; nothing when one of the vertices holds no constant. -/
def constants (s : Store) (vs : List VertexId) : Option (List Value) :=
  vs.mapM fun v => (s.vertex? v).bind fun x => x.payload.value?

/-- Takes an operator vertex for its place and puts its operands on top of it. -/
def expand (s : Store) (place : Place) (count : Nat) : FoldStep :=
  match s.makeSole place with
  | (none, c) => ⟨c.store, c.notes, 0, .error .staleHandle⟩
  | (some v, c) =>
    ⟨c.store, c.notes, 0,
      .ok ((List.range count).map (fun i => ⟨.link v i, false⟩) ++ [⟨place, true⟩])⟩

/-- Replaces an operator vertex by the value of its operator on the given operands. -/
def collapse (apply : Operator.Interpretation) (s : Store) (place : Place) (f : Operator)
    (args : List Value) : FoldStep :=
  match apply f args with
  | .error e => ⟨s, [], 0, .error e⟩
  | .ok r =>
    let c := s.replace place (.const r)
    ⟨c.store, c.notes, 1, .ok []⟩

/-- One step of folding. -/
def foldStep (apply : Operator.Interpretation) (s : Store) (t : Pending) : FoldStep :=
  match (s.at? t.place).bind s.vertex? with
  | none => ⟨s, [], 0, .error .staleHandle⟩
  | some x =>
    match x.payload with
    | .op f =>
      if t.ready then
        match s.constants x.operands with
        | some args => collapse apply s t.place f args
        | none => ⟨s, [], 0, .ok []⟩
      else if x.operands.isEmpty then ⟨s, [], 0, .error (.noOperands f.name)⟩
      else s.expand t.place x.operands.length
    | _ => ⟨s, [], 0, .ok []⟩

/-- Folds until no work is left, for at most `bound` steps.  The remarks made so far are held latest
    first, the operator vertices replaced so far are counted. -/
def foldFrom (apply : Operator.Interpretation) :
    Nat → List Pending → Store → List Note → Nat → Folded
  | _, [], s, notes, folded => ⟨s, notes.reverse, .ok folded⟩
  | 0, _, s, notes, _ => ⟨s, notes.reverse, .error .circular⟩
  | bound + 1, t :: work, s, notes, folded =>
    match foldStep apply s t with
    | ⟨s, more, n, .ok next⟩ =>
      foldFrom apply bound (next ++ work) s (more.reverse ++ notes) (folded + n)
    | ⟨s, more, _, .error e⟩ => ⟨s, (more.reverse ++ notes).reverse, .error e⟩

/-- **Folds the tree of a handle** under an interpretation of the operators. -/
def foldWith (apply : Operator.Interpretation) (s : Store) (h : Handle) : Folded :=
  foldFrom apply (2 * s.walkBound) [⟨.handle h, false⟩] s [] 0

/-- **Folds the tree of a handle.** -/
def foldConstants (s : Store) (h : Handle) : Folded := s.foldWith Operator.apply h

end Store

end ExprGraph

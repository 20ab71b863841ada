import ExprGraph.Proofs.Operations
import ExprGraph.Proofs.Values
/-!
  Sessions on values.

  A ledger is what the callers of a session know of it: the terms of the live handles, the sets of names, and
  the builders with what they publish.  Operations act on a ledger as on immutable values (`Ledger.perform`):
  each replaces the term of at most one handle, and every other change is a new handle or one given back.

  Deep copies alone need something beside the ledger, which is the number that new functions get.
-/

namespace ExprGraph

/-- **The terms of the live handles, with the sets of names and the builders.** -/
structure Ledger where
  values : Values
  sets : Array (List String)
  builders : Array (Option Builder)

namespace Ledger

/-- Goes on with a new handle. -/
def keep (l : Ledger) (made : Handle × Values) : Reply × Ledger :=
  (.handle made.1, { l with values := made.2 })

/-- Goes on with new handles. -/
def keepAll (l : Ledger) (hs : Option (List Handle)) (m : Values) : Reply × Ledger :=
  (.handles hs, { l with values := m })

/-! ## Names -/

/-- The names of a set. -/
def names (l : Ledger) (i : SetId) : List String := l.sets.getD i []

/-- A new set of the given names. -/
def makeSet (l : Ledger) (names : List String) : SetId × Ledger :=
  (l.sets.size, { l with sets := l.sets.push names.eraseDups })

/-- A new set with the names of another. -/
def copySet (l : Ledger) (i : SetId) : SetId × Ledger :=
  (l.sets.size, { l with sets := l.sets.push (l.names i) })

/-- Puts a name into a set. -/
def observe (l : Ledger) (i : SetId) (name : String) : Ledger :=
  { l with sets := l.sets.modify i fun names => if name ∈ names then names else names ++ [name] }

/-- A leaf with a variable, whose name may be put into a set. -/
def makeVariable (l : Ledger) (name : Option String) (observed : Option SetId) :
    Except Fault (Reply × Ledger) :=
  match name with
  | none => .error .nameNotText
  | some name =>
    let (a, l) := l.keep (l.values.make (.var name))
    .ok (a, match observed with
      | some i => l.observe i name
      | none => l)

/-- An operator with children, looked up among the built-in ones. -/
def makeOperator (l : Ledger) (f : OperatorLike) (cs : List TreeLike) : Except Fault (Reply × Ledger) := do
  return l.keep (← l.values.makeOperator (← f.resolve) cs)

/-! ## Builders -/

/-- The builder of a number; a number that is not in use stands for one without anything. -/
def builder (l : Ledger) (i : BuilderId) : Builder := (l.builders[i]?.join).getD ⟨l.sets.size, [], []⟩

/-- Changes a builder. -/
def modifyBuilder (l : Ledger) (i : BuilderId) (f : Builder → Builder) : Ledger :=
  { l with builders := l.builders.modify i (Option.map f) }

/-- A new builder that records into the given set, or into one of its own, with more operators. -/
def makeBuilder (l : Ledger) (adopted : Option SetId) (operators : Table Operator) : BuilderId × Ledger :=
  let (i, l) := match adopted with
    | some i => (i, l)
    | none => l.makeSet []
  let registry := operators.foldl (fun t (name, f) => t.put name f) Session.builtinRegistry
  (l.builders.size, { l with builders := l.builders.push (some ⟨i, registry, []⟩) })

/-- An operator with children, looked up in the registry of a builder. -/
def builderOperator (l : Ledger) (i : BuilderId) (f : OperatorLike) (cs : List TreeLike) :
    Except Fault (Reply × Ledger) :=
  match f with
  | .named name =>
    match (l.builder i).registry.find? name with
    | some f => l.makeOperator (.operator f) cs
    | none => .error (.unknownOperator name)
  | f => l.makeOperator f cs

/-- Registers an operator under a name, or under its own. -/
def register (l : Ledger) (i : BuilderId) (f : OperatorLike) (name : Option String) :
    Except Fault (Reply × Ledger) := do
  let f ← f.wrap
  let key := match name with
    | some name => if name.isEmpty then f.name else name
    | none => f.name
  return (.operator f, l.modifyBuilder i fun b => { b with registry := b.registry.put key f })

/-- **A term published under a name**: it gets a handle of its own, and the one published there before is
    given back. -/
def define (l : Ledger) (i : BuilderId) (name : String) (t : TreeLike) : Except Fault (Reply × Ledger) :=
  match t with
  | .other kind => .error (.treeExpected kind)
  | .tree h => do
    let (kept, m) ← l.values.share h
    let m := match (l.builder i).scope.find? name with
      | some old => m.drop old
      | none => m
    let l := { l with values := m }
    return (.done, l.modifyBuilder i fun b => { b with scope := b.scope.put name kept })

/-- **The term published under a name**, at a new handle, with the names observed so far, as a new set. -/
def resolve (l : Ledger) (i : BuilderId) (name : String) : Except Fault (Reply × Ledger) := do
  match (l.builder i).scope.find? name with
  | none => .error (.undefinedTree name)
  | some kept =>
    let (h, m) ← l.values.share kept
    let (k, l) := { l with values := m }.copySet (l.builder i).names
    return (.resolved h k, l)

/-- Gives up a builder and what it published. -/
def dismiss (l : Ledger) (i : BuilderId) : Ledger :=
  { l with values := l.values.dropAll ((l.builder i).scope.map Prod.snd),
           builders := l.builders.setIfInBounds i none }

/-! ## Performing -/

/-- **Performs an operation on values**, with the first number for copies of functions. -/
def perform (l : Ledger) (apply : Operator.Interpretation) (fresh : Nat) :
    Operation → Except Fault Reply × Ledger
  | .constantLeaf v => settle l (.ok (l.keep (l.values.make (.const v))))
  | .variableLeaf name observed => settle l (l.makeVariable name observed)
  | .operator f cs => settle l (l.makeOperator f cs)
  | .vertex p => settle l (.ok (l.keep (l.values.make p)))
  | .linked p children => settle l ((l.values.makeLinked p children).map l.keep)
  | .share h => settle l ((l.values.share h).map l.keep)
  | .children h => settle l ((l.values.childHandles h).map fun (hs, m) => l.keepAll hs m)
  | .occurrences h => settle l ((l.values.occurrences h).map fun (hs, m) => l.keepAll (some hs) m)
  | .clone h => settle l ((l.values.clone fresh h).map l.keep)
  | .link h cs => settle l ((l.values.link h cs).map fun m => (.done, { l with values := m }))
  | .fold h _ =>
    let (r, m) := l.values.fold apply h
    (r.map .count, { l with values := m })
  | .nameSet names =>
    let (i, l') := l.makeSet names
    settle l (.ok (.nameSet i, l'))
  | .builder adopted operators =>
    let (i, l') := l.makeBuilder adopted operators
    settle l (.ok (.builder i, l'))
  | .builderVariable i name => settle l (l.makeVariable name (some (l.builder i).names))
  | .builderOperator i f cs => settle l (l.builderOperator i f cs)
  | .register i f name => settle l (l.register i f name)
  | .define i name t => settle l (l.define i name t)
  | .resolve i name => settle l (l.resolve i name)
  | .dismiss i => settle l (.ok (.done, l.dismiss i))
  | .drop h => settle l (.ok (.done, { l with values := l.values.drop h }))

end Ledger

/-- **What is known of a session** when its vertices are forgotten. -/
def Session.ledger (s : Session) : Ledger := ⟨s.store.values, s.sets, s.builders⟩

end ExprGraph

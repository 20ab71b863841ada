import ExprGraph.Log
import ExprGraph.Store.Cloning
import ExprGraph.Table
import ExprGraph.Tree.Folding
/-!
  Sessions: building trees and publishing them.

  A session is a store of vertices together with its log, sets of observed variable names, and builders.
  A builder has a registry of operators by name (at first the built-in ones), a set of names that grows
  with every variable made through it, and a scope of published trees.  Publishing a tree keeps a handle of
  the builder's own, so whatever happens to the tree afterwards, the published one stays as it was.

  A construction that fails changes nothing: its result holds no session.  Folding alone can fail halfway,
  so it returns the session in any case.
-/

namespace ExprGraph

/-- The number of a set of names. -/
abbrev SetId := Nat

/-- The number of a builder. -/
abbrev BuilderId := Nat

/-- A context in which trees are built. -/
structure Builder where
  /-- the set of the variable names observed -/
  names : SetId
  /-- the operators that can be called by name -/
  registry : Table Operator
  /-- the published trees -/
  scope : Table Handle

/-- A store with its log, name sets and builders. -/
structure Session where
  store : Store
  log : Log
  sets : Array (List String)
  builders : Array (Option Builder)

namespace Session

/-- The session at the beginning. -/
def empty : Session := ⟨.empty, .empty, #[], #[]⟩

/-- Goes on in a changed store and says what was remarked. -/
def change (s : Session) (c : Store.Changed) : Session :=
  { s with store := c.store, log := s.log.sayAll (c.notes.map Note.message) }

/-! ## Name sets -/

/-- The names of a set. -/
def names (s : Session) (i : SetId) : List String := s.sets.getD i []

/-- A new set of the given names. -/
def makeSet (s : Session) (names : List String) : SetId × Session :=
  (s.sets.size, { s with sets := s.sets.push names.eraseDups })

/-- A new set with the names of another. -/
def copySet (s : Session) (i : SetId) : SetId × Session :=
  (s.sets.size, { s with sets := s.sets.push (s.names i) })

/-- Puts a name into a set. -/
def observe (s : Session) (i : SetId) (name : String) : Session :=
  { s with sets := s.sets.modify i fun names => if name ∈ names then names else names ++ [name] }

/-! ## Making trees -/

/-- A leaf with a constant. -/
def makeConstant (s : Session) (v : Value) : Handle × Session :=
  let (h, store) := s.store.make (.const v)
  (h, { s with store })

/-- A leaf with a variable.  What was given as its name may be no text; a name is put into the set. -/
def makeVariable (s : Session) (name : Option String) (observed : Option SetId) :
    Except Fault (Handle × Session) :=
  match name with
  | none => .error .nameNotText
  | some name =>
    let (h, store) := s.store.make (.var name)
    let s := { s with store }
    .ok (h, match observed with
      | some i => s.observe i name
      | none => s)

/-- An operator vertex with children, the operator being looked up among the built-in ones. -/
def makeOperator (s : Session) (f : OperatorLike) (cs : List TreeLike) :
    Except Fault (Handle × Session) := do
  let (h, c) ← s.store.makeOperator (← f.resolve) cs
  return (h, s.change c)

/-- **Replaces the children of a tree.** -/
def link (s : Session) (h : Handle) (cs : List TreeLike) : Except Fault Session :=
  (s.store.link h cs).map s.change

/-! ## Evaluating and folding -/

/-- Evaluates a tree by the strategy of the given name, under an interpretation of the operators. -/
def evaluateWith (apply : Operator.Interpretation) (s : Session) (h : Handle) (strategy : String)
    (b : Bindings) : Except Fault (Value × Session) := do
  let root ← s.store.root h
  let v ← s.store.evaluateWith apply (← Strategy.ofName strategy) b root
  let text := "Accumulated tree (" ++ strategy ++ ") with " ++ toString b.length ++ " binding(s)"
  return (v, { s with log := s.log.say (.debug text) })

/-- **Evaluates a tree** by the strategy of the given name. -/
def evaluate (s : Session) (h : Handle) (strategy : String) (b : Bindings) :
    Except Fault (Value × Session) :=
  s.evaluateWith Operator.apply h strategy b

/-- Folds the constants of a tree under an interpretation of the operators, and says how many operators
    went if a summary is wanted. -/
def foldWith (apply : Operator.Interpretation) (s : Session) (h : Handle) (summary : Bool) :
    Except Fault Nat × Session :=
  let r := s.store.foldWith apply h
  let s := s.change ⟨r.store, r.notes⟩
  match r.outcome with
  | .ok n =>
    if summary then
      let text := "Reduced tree: folded " ++ toString n ++ " operator node(s)"
      (.ok n, { s with log := s.log.say (.debug text) })
    else (.ok n, s)
  | .error e => (.error e, s)

/-- **Folds the constants of a tree.** -/
def foldConstants (s : Session) (h : Handle) (summary : Bool) : Except Fault Nat × Session :=
  s.foldWith Operator.apply h summary

/-! ## Builders -/

/-- The builder of a number; a number that is not in use stands for one without anything. -/
def builder (s : Session) (i : BuilderId) : Builder := (s.builders[i]?.join).getD ⟨s.sets.size, [], []⟩

/-- Changes a builder. -/
def modifyBuilder (s : Session) (i : BuilderId) (f : Builder → Builder) : Session :=
  { s with builders := s.builders.modify i (Option.map f) }

/-- The built-in operators by name. -/
def builtinRegistry : Table Operator := Operator.builtins.map fun f => (f.name, f)

/-- A new builder that records into the given set, or into one of its own, with more operators. -/
def makeBuilder (s : Session) (adopted : Option SetId) (operators : Table Operator) :
    BuilderId × Session :=
  let (i, s) := match adopted with
    | some i => (i, s)
    | none => s.makeSet []
  let registry := operators.foldl (fun t (name, f) => t.put name f) builtinRegistry
  let store := s.store.reserve (operators.foldl (fun n (_, f) => max n f.function.nextCopy) 0)
  (s.builders.size, { s with store, builders := s.builders.push (some ⟨i, registry, []⟩) })

/-- Gives up a builder and its published trees. -/
def dismiss (s : Session) (i : BuilderId) : Session :=
  let hs := (s.builder i).scope.map Prod.snd
  { s with store := s.store.dropAll hs, builders := s.builders.setIfInBounds i none }

namespace Builder

/-- A variable whose name the builder observes. -/
def makeVariable (s : Session) (i : BuilderId) (name : Option String) :
    Except Fault (Handle × Session) :=
  s.makeVariable name (some (s.builder i).names)

/-- An operator vertex, the operator being looked up in the registry of the builder. -/
def makeOperator (s : Session) (i : BuilderId) (f : OperatorLike) (cs : List TreeLike) :
    Except Fault (Handle × Session) := do
  match f with
  | .named name =>
    match (s.builder i).registry.find? name with
    | some f => s.makeOperator (.operator f) cs
    | none => .error (.unknownOperator name)
  | f => s.makeOperator f cs

/-- Registers an operator under a name, or under its own. -/
def register (s : Session) (i : BuilderId) (f : OperatorLike) (name : Option String) :
    Except Fault (Operator × Session) := do
  let f ← f.wrap
  let key := match name with
    | some name => if name.isEmpty then f.name else name
    | none => f.name
  let s := { s with store := s.store.reserve f.function.nextCopy }
  return (f, s.modifyBuilder i fun b => { b with registry := b.registry.put key f })

/-- **Publishes a tree under a name**, in place of what was published there before. -/
def define (s : Session) (i : BuilderId) (name : String) (t : TreeLike) : Except Fault Session :=
  match t with
  | .other kind => .error (.treeExpected kind)
  | .tree h => do
    let (kept, store) ← s.store.share h
    let store := match (s.builder i).scope.find? name with
      | some old => store.drop old
      | none => store
    return { s with store }.modifyBuilder i fun b => { b with scope := b.scope.put name kept }

/-- Something is published under a name. -/
def isDefined (s : Session) (i : BuilderId) (name : String) : Bool :=
  ((s.builder i).scope.find? name).isSome

/-- **The tree published under a name**, as a new handle, with the names observed so far, as a new set. -/
def resolve (s : Session) (i : BuilderId) (name : String) :
    Except Fault (Handle × SetId × Session) := do
  match (s.builder i).scope.find? name with
  | none => .error (.undefinedTree name)
  | some kept =>
    let (h, store) ← s.store.share kept
    return (h, { s with store }.copySet (s.builder i).names)

/-- Resolves the tree that a finished construction has published, and says so. -/
def complete (s : Session) (i : BuilderId) (name : String) :
    Except Fault (Handle × SetId × Session) := do
  let (h, k, s) ← resolve s i name
  let text := "Built tree '" ++ name ++ "' with variables "
    ++ Text.quotedList (Table.sortNames (s.names k))
  return (h, k, { s with log := s.log.say (.debug text) })

end Builder

end Session

end ExprGraph

import ExprGraph.Session
/-!
  Building trees step by step.

  The calls that build trees take several steps each: a vertex is made before it is linked to children, a
  name is observed after its variable was made, and what is wrong with the arguments comes out on the way.
  Here every such call is an action on the session, with its checks and steps in their order.  An action
  that fails leaves the session as it then is.  Nothing is rolled back; what was made on the way goes only
  because it is given back, as the vertex of an operator that refuses its children.

  What the calls come to when they end well is in `Session`.
-/

namespace ExprGraph

/-- What may stand where a payload is asked for: a payload, or something else of a kind. -/
inductive PayloadLike where
  | payload (p : Payload)
  | other (kind : String)

/-- **Checks and steps on a session.**  They may fail; what was done before stays. -/
def Action (α : Type) : Type := Session → Except Fault α × Session

namespace Action

variable {α β : Type}

/-- Goes on after a part that ended well. -/
def andThen (r : Except Fault α × Session) (next : α → Action β) : Except Fault β × Session :=
  match r with
  | (.ok a, s) => next a s
  | (.error e, s) => (.error e, s)

instance : Monad Action where
  pure a := fun s => (.ok a, s)
  bind c next := fun s => andThen (c s) next

/-- A check that does not depend on the session. -/
def check (r : Except Fault α) : Action α := fun s => (r, s)

/-- A question to the session. -/
def ask (f : Session → Except Fault α) : Action α := fun s => (f s, s)

/-- A step that cannot fail. -/
def step (f : Session → Session) : Action Unit := fun s => (.ok (), f s)

/-- A step on the store that cannot fail. -/
def stepInStore (f : Store → α × Store) : Action α := fun s =>
  let (a, store) := f s.store
  (.ok a, { s with store })

/-- Gives a handle back when the action fails. -/
def orDrop (h : Handle) (c : Action α) : Action α := fun s =>
  match c s with
  | (.ok a, s) => (.ok a, s)
  | (.error e, s) => (.error e, { s with store := s.store.drop h })

/-- Says what was remarked. -/
def remark (notes : List Note) : Action Unit :=
  step fun s => { s with log := s.log.sayAll (notes.map Note.message) }

/-! ## Making trees -/

/-- **A new tree of one vertex.** -/
def vertex : PayloadLike → Action Handle
  | .payload p => stepInStore fun s => s.make p
  | .other kind => check (.error (.payloadExpected kind))

/-- A leaf with a constant. -/
def makeConstant (v : Value) : Action Handle := vertex (.payload (.const v))

/-- A leaf with a variable; its name is observed once the leaf is there. -/
def makeVariable (name : Option String) (observed : Option SetId) : Action Handle := do
  let name ← check (orFault .nameNotText name)
  let h ← vertex (.payload (.var name))
  if let some i := observed then step fun s => s.observe i name
  return h

/-- Makes a handle the only owner of its vertex, and says so if that takes a copy. -/
def makeSole (h : Handle) : Action VertexId := do
  let (v, notes) ← stepInStore fun s =>
    let (v, c) := s.makeSole (.handle h)
    ((v, c.notes), c.store)
  remark notes
  check (orFault .staleHandle v)

/-- **Replaces the children of a tree.**  All checks come before the first remark, and the new children have
    their owners before the vertex is taken for the tree alone. -/
def link (h : Handle) (cs : List TreeLike) : Action Unit := do
  let hs ← check (Store.expectTrees cs)
  let (_, x) ← ask fun s => s.store.behind h
  check (Store.checkCount x.payload hs.length)
  let vs ← ask fun s => hs.mapM s.store.root
  remark (Store.inertNote x.payload hs.length)
  stepInStore fun s => ((), s.addOwners vs)
  let v ← makeSole h
  stepInStore fun s => ((), s.overwrite v x.payload (some vs))

/-- **A new operator vertex with the given children.**  The vertex is made first, and goes again when the
    children are refused. -/
def makeOperator (f : OperatorLike) (cs : List TreeLike) : Action Handle := do
  let f ← check f.resolve
  let h ← vertex (.payload (.op f))
  orDrop h (link h cs)
  return h

/-- Another handle for the vertex of a handle. -/
def share (h : Handle) : Action Handle := do
  let v ← ask fun s => s.store.root h
  stepInStore fun s => s.bind v

/-- A new set with the names of another. -/
def copySet (k : SetId) : Action SetId := fun s =>
  let (i, s) := s.copySet k
  (.ok i, s)

/-! ## Builders -/

/-- A variable whose name a builder observes. -/
def builderVariable (i : BuilderId) (name : Option String) : Action Handle := do
  let names ← ask fun s => .ok (s.builder i).names
  makeVariable name (some names)

/-- An operator vertex, the operator being looked up in the registry of a builder. -/
def builderOperator (i : BuilderId) (f : OperatorLike) (cs : List TreeLike) : Action Handle :=
  match f with
  | .named name => do
    let f ← ask fun s => orFault (.unknownOperator name) ((s.builder i).registry.find? name)
    makeOperator (.operator f) cs
  | f => makeOperator f cs

/-- Registers an operator under a name, or under its own. -/
def register (i : BuilderId) (f : OperatorLike) (name : Option String) : Action Operator := do
  let f ← check f.wrap
  let key := match name with
    | some name => if name.isEmpty then f.name else name
    | none => f.name
  step fun s => { s with store := s.store.reserve f.function.nextCopy }
  step fun s => s.modifyBuilder i fun b => { b with registry := b.registry.put key f }
  return f

/-- **Publishes a tree under a name**; what was published there before goes at the end. -/
def define (i : BuilderId) (name : String) : TreeLike → Action Unit
  | .other kind => check (.error (.treeExpected kind))
  | .tree h => do
    let kept ← share h
    let old ← ask fun s => .ok ((s.builder i).scope.find? name)
    step fun s => s.modifyBuilder i fun b => { b with scope := b.scope.put name kept }
    if let some old := old then stepInStore fun s => ((), s.drop old)

/-- **The tree published under a name**, as a new handle, with the names observed so far, as a new set. -/
def resolve (i : BuilderId) (name : String) : Action (Handle × SetId) := do
  let kept ← ask fun s => orFault (.undefinedTree name) ((s.builder i).scope.find? name)
  let h ← share kept
  let observed ← ask fun s => .ok (s.builder i).names
  let k ← copySet observed
  return (h, k)

end Action

end ExprGraph

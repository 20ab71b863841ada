import ExprGraph.Store.Ownership
/-!
  Changing vertices: copy on write.

  A change goes through one place (a handle, or a link of a parent) and must not show through any other.
  So a place whose vertex has other owners first gets a copy of it to itself (`Store.makeSole`): the copy
  has the same payload and shares the children, the place is bound to the copy, and the old vertex loses
  one owner.  After that the vertex can be changed in place.

  `Store.link` replaces the children of a vertex.  It checks everything before it changes anything, and it
  takes hold of the new children before it takes the vertex for itself; linking a tree to itself
  therefore links a copy of the vertex to the old one and can never close a circle.

  What the user may want to know about a change is returned as notes.
-/

namespace ExprGraph

/-- A remark on a change of the store. -/
inductive Note where
  /-- a vertex was copied because of its other owners -/
  | copied (payload : Payload) (others : Nat)
  /-- children were linked to a leaf, where they have no effect -/
  | inert (children : Nat) (payload : Payload)

namespace Note

/-- The sentence of a remark. -/
def text : Note → String
  | copied p others =>
    "Copy-on-write clone of " ++ p.display ++ " node (" ++ toString others ++ " other owner(s))"
  | inert n p =>
    "Linking " ++ toString n ++ " child(ren) onto " ++ p.kind.lowerName ++ " '" ++ p.display
      ++ "': they will be ignored by evaluation and reduction"

end Note

namespace Store

/-- A store after a change, with what was remarked. -/
structure Changed where
  store : Store
  notes : List Note

/-- **Makes a place the only owner of its vertex**, by a copy when there are other owners.  Returns the
    vertex the place is bound to afterwards, if it is bound to one at all. -/
def makeSole (s : Store) (p : Place) : Option VertexId × Changed :=
  match s.at? p with
  | none => (none, ⟨s, []⟩)
  | some v =>
    match s.vertex? v with
    | none => (none, ⟨s, []⟩)
    | some x =>
      if x.owners ≤ 1 then (some v, ⟨s, []⟩)
      else
        let (w, s) := ((s.addOwners x.children).dropOwner v).insert { x with owners := 1 }
        (some w, ⟨s.rebind p w, [.copied x.payload (x.owners - 1)]⟩)

/-- Gives a vertex a new payload and new links, and releases the old ones.  The new children must
    have their owners already. -/
def overwrite (s : Store) (v : VertexId) (p : Payload) (links : Option (List VertexId)) : Store :=
  let old := s.children v
  (s.modify v fun x => { x with payload := p, links := links }).release old

/-- Turns the vertex of a place into a leaf with the given payload. -/
def replace (s : Store) (p : Place) (payload : Payload) : Changed :=
  match s.makeSole p with
  | (some v, c) => ⟨c.store.overwrite v payload none, c.notes⟩
  | (none, c) => c

/-- The handles among what was given as children. -/
def expectTrees (cs : List TreeLike) : Except Fault (List Handle) :=
  cs.mapM fun
    | .tree h => .ok h
    | .other kind => .error (.childExpected kind)

/-- An operator is linked to at least one child, and to as many as its arity says.  A leaf takes any. -/
def checkCount (p : Payload) (count : Nat) : Except Fault Unit :=
  match p with
  | .op f =>
    if count = 0 then .error (.nothingToLink f.name)
    else match f.arity with
      | some n => if count = n then .ok () else .error (.wrongCount f.name n count)
      | none => .ok ()
  | _ => .ok ()

/-- What is remarked on linking children to a payload. -/
def inertNote (p : Payload) (count : Nat) : List Note :=
  if p.isOperator then [] else [.inert count p]

/-- **Replaces the children of a tree**, copying its vertex first when it has other owners. -/
def link (s : Store) (h : Handle) (cs : List TreeLike) : Except Fault Changed := do
  let hs ← expectTrees cs
  let (_, x) ← s.behind h
  checkCount x.payload hs.length
  let vs ← hs.mapM s.root
  match (s.addOwners vs).makeSole (.handle h) with
  | (none, _) => .error .staleHandle
  | (some v, c) =>
    return ⟨c.store.overwrite v x.payload (some vs), inertNote x.payload hs.length ++ c.notes⟩

/-- **A new operator vertex with the given children.** -/
def makeOperator (s : Store) (f : Operator) (cs : List TreeLike) :
    Except Fault (Handle × Changed) := do
  let (h, s) := s.make (.op f)
  return (h, ← s.link h cs)

end Store

end ExprGraph

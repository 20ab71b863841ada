import ExprGraph.Store.Basic
/-!
  Making, sharing and releasing vertices.

  Every operation here keeps the owner counts: making a tree binds a handle, sharing one binds another,
  and dropping a handle takes an owner away.  A vertex that loses its last owner, and is not pinned, is
  taken out of the store, and its links release their vertices in turn (`Store.release`).  That ends
  because each vertex taken out leaves fewer live ones.
-/

namespace ExprGraph

namespace Store

/-! ## Releasing -/

/-- The number of live vertices. -/
def liveCount (s : Store) : Nat := s.vertices.countP Option.isSome

theorem liveCount_modify (s : Store) (v : VertexId) (f : Vertex → Vertex) :
    (s.modify v f).liveCount = s.liveCount := by
  unfold liveCount modify
  by_cases hv : v < s.vertices.size
  · have hget : s.vertices.modify v (Option.map f) = s.vertices.set v (s.vertices[v].map f) hv := by
      apply Array.ext (by simp)
      intro i h₁ h₂
      simp only [Array.getElem_modify, Array.getElem_set]
      split <;> simp_all
    have hpos : s.vertices[v].isSome = true → 0 < s.vertices.countP Option.isSome := fun h =>
      Array.countP_pos_iff.2 ⟨_, Array.getElem_mem hv, h⟩
    rw [hget, Array.countP_set]
    cases h : s.vertices[v] <;> simp_all
  · have hget : s.vertices.modify v (Option.map f) = s.vertices := by
      apply Array.ext (by simp)
      intro i h₁ h₂
      rw [Array.getElem_modify, if_neg]
      rintro rfl
      exact hv h₂
    rw [hget]

/-- **Taking a live vertex out leaves fewer.** -/
theorem liveCount_erase_lt (s : Store) {v : VertexId} {x : Vertex} (h : s.vertex? v = some x) :
    (s.erase v).liveCount < s.liveCount := by
  unfold liveCount erase
  unfold vertex? at h
  by_cases hv : v < s.vertices.size
  · have hx : s.vertices[v] = some x := by
      rw [Array.getElem?_eq_getElem hv] at h
      simpa using h
    have hset : s.vertices.setIfInBounds v none = s.vertices.set v none hv := by
      simp [Array.setIfInBounds, hv]
    have hpos : 0 < s.vertices.countP Option.isSome :=
      Array.countP_pos_iff.2 ⟨_, Array.getElem_mem hv, by simp [hx]⟩
    rw [hset, Array.countP_set, hx]
    exact Nat.sub_lt hpos (by simp)
  · rw [Array.getElem?_eq_none (Nat.le_of_not_lt hv)] at h
    simp at h

/-- **Takes one owner away from each vertex of a list**, counted as often as it occurs.  A vertex left
    without owners goes, unless it is pinned, and takes an owner away from each of its children. -/
def release (s : Store) : List VertexId → Store
  | [] => s
  | v :: rest =>
    match _h : s.vertex? v with
    | none => release s rest
    | some x =>
      if x.owners ≤ 1 ∧ v ∉ s.pinned then release (s.erase v) (x.children ++ rest)
      else release (s.dropOwner v) rest
termination_by work => (s.liveCount, work.length)
decreasing_by
  · exact Prod.Lex.right _ (by simp)
  · exact Prod.Lex.left _ _ (liveCount_erase_lt s _h)
  · rw [dropOwner, liveCount_modify]
    exact Prod.Lex.right _ (by simp)

/-- Replaces the pinned vertices.  Those that were kept by their pin alone go. -/
def repin (s : Store) (pins : List VertexId) : Store :=
  s.pinned.foldl (fun s v =>
    match s.vertex? v with
    | some x => if x.owners = 0 ∧ v ∉ s.pinned then release (s.erase v) x.children else s
    | none => s) { s with pinned := pins }

/-! ## Handles -/

/-- A new tree of one vertex that was never linked. -/
def make (s : Store) (p : Payload) : Handle × Store :=
  let (v, s) := s.insert ⟨p, none, 0⟩
  s.bind v

/-- Another handle for the vertex of a handle. -/
def share (s : Store) (h : Handle) : Except Fault (Handle × Store) :=
  (s.root h).map s.bind

/-- Gives a handle back. -/
def drop (s : Store) (h : Handle) : Store :=
  match s.target? h with
  | none => s
  | some v => release { s with handles := s.handles.setIfInBounds h none } [v]

/-- Gives several handles back. -/
def dropAll (s : Store) (hs : List Handle) : Store := hs.foldl drop s

/-- New handles for the vertices of a list, in order. -/
def bindAll (s : Store) : List VertexId → List Handle × Store
  | [] => ([], s)
  | v :: vs =>
    let (h, s) := s.bind v
    let (hs, s) := s.bindAll vs
    (h :: hs, s)

/-- New handles for the children, unless the vertex was never linked. -/
def childHandles (s : Store) (h : Handle) : Except Fault (Option (List Handle) × Store) := do
  let (_, x) ← s.behind h
  match x.links with
  | none => return (none, s)
  | some vs =>
    let (hs, s) := s.bindAll vs
    return (some hs, s)

/-- A new tree with the given links, which nothing checks. -/
def makeLinked (s : Store) (p : Payload) (children : Option (List Handle)) :
    Except Fault (Handle × Store) := do
  let vs ← (children.getD []).mapM s.root
  let (v, s) := (s.addOwners vs).insert ⟨p, children.map fun _ => vs, 0⟩
  return s.bind v

/-! ## Questions about owners -/

/-- The handle is the only owner of its vertex. -/
def isSole (s : Store) (h : Handle) : Except Fault Bool :=
  (s.behind h).map fun x => x.2.owners == 1

/-- Two handles are bound to one vertex. -/
def coincide (s : Store) (g h : Handle) : Except Fault Bool := do
  return (← s.root g) == (← s.root h)

end Store

end ExprGraph

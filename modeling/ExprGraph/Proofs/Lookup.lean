import ExprGraph.Store.Ownership
/-!
  Looking up after a change.

  One rule for each elementary change of a store and each way to look into it: which vertices and which
  handles are found afterwards.  With these rules nothing else needs to know that vertices and handles are
  kept in arrays.
-/

namespace ExprGraph

namespace Vertex

theorem operands_eq (x : Vertex) :
    x.operands = if x.payload.isOperator then x.children else [] := by
  unfold operands
  cases x.payload <;> rfl

theorem mem_children_of_mem_operands {x : Vertex} {w : VertexId} (h : w ∈ x.operands) :
    w ∈ x.children := by
  rw [operands_eq] at h
  split at h
  · exact h
  · exact absurd h List.not_mem_nil

end Vertex

namespace Store

variable {s : Store} {v w : VertexId} {x : Vertex}

/-- A vertex number in use is below the size of the store. -/
theorem lt_size_of_vertex? (h : s.vertex? v = some x) : v < s.vertices.size := by
  unfold vertex? at h
  rcases Nat.lt_or_ge v s.vertices.size with hlt | hge
  · exact hlt
  · rw [Array.getElem?_eq_none hge] at h
    exact absurd h (by simp)

theorem children_of_vertex? (h : s.vertex? v = some x) : s.children v = x.children := by
  rw [children, h]

theorem children_of_none (h : s.vertex? v = none) : s.children v = [] := by
  rw [children, h]

theorem operands_of_vertex? (h : s.vertex? v = some x) : s.operands v = x.operands := by
  rw [operands, h]

/-- Operands are children. -/
theorem mem_children_of_mem_operands (hw : w ∈ s.operands v) : w ∈ s.children v := by
  cases hx : s.vertex? v with
  | none =>
    rw [operands, hx] at hw
    exact absurd hw List.not_mem_nil
  | some x =>
    rw [operands_of_vertex? hx] at hw
    rw [children_of_vertex? hx]
    exact Vertex.mem_children_of_mem_operands hw

theorem at?_link (u : VertexId) (i : Nat) : s.at? (.link u i) = (s.children u)[i]? := by
  show ((s.vertex? u).bind fun x => x.children[i]?) = (s.children u)[i]?
  unfold children
  cases s.vertex? u <;> rfl

theorem at?_handle (h : Handle) : s.at? (.handle h) = s.target? h := rfl

/-- A child is bound to some place of its parent. -/
theorem exists_at?_of_mem_children {u : VertexId} (h : w ∈ s.children u) :
    ∃ i, s.at? (.link u i) = some w := by
  obtain ⟨i, hi⟩ := List.mem_iff_getElem?.mp h
  exact ⟨i, by rw [at?_link, hi]⟩

theorem mem_children_of_at? {u : VertexId} {i : Nat} (h : s.at? (.link u i) = some w) :
    w ∈ s.children u := by
  rw [at?_link] at h
  exact List.mem_of_getElem? h

/-! ## Changing a vertex -/

@[simp] theorem vertex?_modify (s : Store) (v : VertexId) (f : Vertex → Vertex) (w : VertexId) :
    (s.modify v f).vertex? w = if v = w then (s.vertex? w).map f else s.vertex? w := by
  unfold vertex? modify
  rw [Array.getElem?_modify]
  split
  · cases s.vertices[w]? <;> rfl
  · rfl

/-- The vertices after a change of one. -/
theorem vertex?_modify_eq_some_iff {f : Vertex → Vertex} {y : Vertex} :
    (s.modify v f).vertex? w = some y ↔ ∃ x, s.vertex? w = some x ∧ y = if v = w then f x else x := by
  rw [vertex?_modify]
  cases s.vertex? w with
  | none => split <;> simp
  | some x => split <;> simp [eq_comm]

@[simp] theorem handles_modify (s : Store) (v : VertexId) (f : Vertex → Vertex) :
    (s.modify v f).handles = s.handles := rfl

@[simp] theorem size_modify (s : Store) (v : VertexId) (f : Vertex → Vertex) :
    (s.modify v f).vertices.size = s.vertices.size := by
  simp [modify]

@[simp] theorem vertex?_addOwner (s : Store) (v w : VertexId) :
    (s.addOwner v).vertex? w
      = (s.vertex? w).map fun x => { x with owners := x.owners + if v = w then 1 else 0 } := by
  rw [addOwner, vertex?_modify]
  split
  · rfl
  · cases s.vertex? w <;> rfl

@[simp] theorem vertex?_dropOwner (s : Store) (v w : VertexId) :
    (s.dropOwner v).vertex? w
      = (s.vertex? w).map fun x => { x with owners := x.owners - if v = w then 1 else 0 } := by
  rw [dropOwner, vertex?_modify]
  split
  · rfl
  · cases s.vertex? w <;> rfl

@[simp] theorem size_addOwner (s : Store) (v : VertexId) :
    (s.addOwner v).vertices.size = s.vertices.size := size_modify s v _

/-- Every vertex of the list gains as many owners as it occurs there. -/
@[simp] theorem vertex?_addOwners (s : Store) (vs : List VertexId) (w : VertexId) :
    (s.addOwners vs).vertex? w
      = (s.vertex? w).map fun x => { x with owners := x.owners + vs.count w } := by
  induction vs generalizing s with
  | nil => cases h : s.vertex? w <;> simp [addOwners, h]
  | cons v vs ih =>
    show ((s.addOwner v).addOwners vs).vertex? w = _
    rw [ih, vertex?_addOwner]
    cases s.vertex? w with
    | none => rfl
    | some x =>
      simp only [Option.map_some, List.count_cons, beq_iff_eq]
      congr 2
      split <;> omega

@[simp] theorem handles_addOwners (s : Store) (vs : List VertexId) :
    (s.addOwners vs).handles = s.handles := by
  induction vs generalizing s with
  | nil => rfl
  | cons v vs ih => exact ih (s.addOwner v)

@[simp] theorem target?_addOwners (s : Store) (vs : List VertexId) (h : Handle) :
    (s.addOwners vs).target? h = s.target? h := by
  rw [target?, handles_addOwners, target?]

@[simp] theorem size_addOwners (s : Store) (vs : List VertexId) :
    (s.addOwners vs).vertices.size = s.vertices.size := by
  induction vs generalizing s with
  | nil => rfl
  | cons v vs ih => exact (ih (s.addOwner v)).trans (size_addOwner s v)

/-! ## Taking out and putting in -/

@[simp] theorem vertex?_erase (s : Store) (v w : VertexId) :
    (s.erase v).vertex? w = if v = w then none else s.vertex? w := by
  unfold vertex? erase
  rw [Array.getElem?_setIfInBounds]
  split
  · split <;> rfl
  · rfl

@[simp] theorem handles_erase (s : Store) (v : VertexId) : (s.erase v).handles = s.handles := rfl

@[simp] theorem size_erase (s : Store) (v : VertexId) :
    (s.erase v).vertices.size = s.vertices.size := by
  simp [erase]

@[simp] theorem fst_insert (s : Store) (x : Vertex) : (s.insert x).1 = s.vertices.size := rfl

@[simp] theorem vertex?_insert (s : Store) (x : Vertex) (w : VertexId) :
    (s.insert x).2.vertex? w = if w = s.vertices.size then some x else s.vertex? w := by
  show ((s.vertices.push (some x))[w]?).join = _
  rw [Array.getElem?_push]
  split <;> rfl

@[simp] theorem handles_insert (s : Store) (x : Vertex) : (s.insert x).2.handles = s.handles := rfl

@[simp] theorem size_insert (s : Store) (x : Vertex) :
    (s.insert x).2.vertices.size = s.vertices.size + 1 := Array.size_push (some x)

/-- The number of a new vertex was not in use. -/
theorem vertex?_size (s : Store) : s.vertex? s.vertices.size = none := by
  simp [vertex?]

/-! ## Places -/

theorem children_addOwners (s : Store) (vs : List VertexId) (u : VertexId) :
    (s.addOwners vs).children u = s.children u := by
  unfold children
  rw [vertex?_addOwners]
  cases s.vertex? u <;> rfl

theorem children_dropOwner (s : Store) (v u : VertexId) :
    (s.dropOwner v).children u = s.children u := by
  unfold children
  rw [vertex?_dropOwner]
  cases s.vertex? u <;> rfl

theorem at?_dropOwner (s : Store) (v : VertexId) (q : Place) : (s.dropOwner v).at? q = s.at? q := by
  cases q with
  | handle h => rfl
  | link u i => rw [at?_link, at?_link, children_dropOwner]

/-! ## Handles -/

@[simp] theorem vertex?_bind (s : Store) (v w : VertexId) :
    (s.bind v).2.vertex? w = (s.addOwner v).vertex? w := rfl

@[simp] theorem target?_bind (s : Store) (v : VertexId) (h : Handle) :
    (s.bind v).2.target? h = if h = s.handles.size then some v else s.target? h := by
  show ((s.handles.push (some v))[h]?).join = _
  rw [Array.getElem?_push]
  split <;> rfl

@[simp] theorem size_handles_bind (s : Store) (v : VertexId) :
    (s.bind v).2.handles.size = s.handles.size + 1 := by
  simp [bind, addOwner, modify]

/-- What a number that grows along a list takes up from a member of it stays in it. -/
theorem le_foldl_of_mem {β : Type} {g : Nat → β → Nat} {k : Nat} {bs : List β} {b : β}
    (hgrow : ∀ n c, n ≤ g n c) (hb : b ∈ bs) (hk : ∀ n, k ≤ g n b) (n : Nat) : k ≤ bs.foldl g n := by
  have hstart : ∀ (cs : List β) (n : Nat), n ≤ cs.foldl g n := by
    intro cs
    induction cs with
    | nil => exact fun n => Nat.le_refl n
    | cons c cs ih => exact fun n => Nat.le_trans (hgrow n c) (ih (g n c))
  induction bs generalizing n with
  | nil => exact absurd hb List.not_mem_nil
  | cons c cs ih =>
    rcases List.mem_cons.mp hb with rfl | hb
    · exact Nat.le_trans (hk n) (hstart cs _)
    · exact ih hb (g n c)

/-- What a number that grows along the vertices takes up from one of them stays in it. -/
theorem le_foldl_vertices {g : Nat → Option Vertex → Nat} {k : Nat} (hgrow : ∀ n y, n ≤ g n y)
    (hx : s.vertex? v = some x) (hk : ∀ n, k ≤ g n (some x)) : k ≤ s.vertices.foldl g 0 := by
  have hmem : some x ∈ s.vertices.toList :=
    Array.mem_toList_iff.mpr (Array.mem_of_getElem? (Option.join_eq_some_iff.mp hx))
  rw [← Array.foldl_toList]
  exact le_foldl_of_mem hgrow hmem hk 0

theorem lt_size_of_target? {h : Handle} (ht : s.target? h = some v) : h < s.handles.size := by
  unfold target? at ht
  rcases Nat.lt_or_ge h s.handles.size with hlt | hge
  · exact hlt
  · rw [Array.getElem?_eq_none hge] at ht
    exact absurd ht (by simp)

theorem behind_of_target? {h : Handle} (ht : s.target? h = some v) (hv : s.vertex? v = some x) :
    s.behind h = .ok (v, x) := by
  simp only [behind, ht, hv]

theorem root_of_target? {h : Handle} (ht : s.target? h = some v) (hv : s.vertex? v = some x) :
    s.root h = .ok v := by
  rw [root, behind_of_target? ht hv]
  rfl

/-- What is behind a handle is a vertex it is bound to. -/
theorem target?_of_behind {h : Handle} {x : Vertex} (hx : s.behind h = .ok (v, x)) :
    s.target? h = some v ∧ s.vertex? v = some x := by
  unfold behind at hx
  split at hx
  · cases hx
  · next w hw =>
    split at hx
    · cases hx
    · next y hy =>
      obtain ⟨rfl, rfl⟩ := Prod.mk.inj (Except.ok.inj hx)
      exact ⟨hw, hy⟩

theorem behind_of_none {h : Handle} (ht : s.target? h = none) : s.behind h = .error .staleHandle := by
  simp only [behind, ht]

end Store

end ExprGraph

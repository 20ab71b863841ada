import ExprGraph.Proofs.Owners
import ExprGraph.Proofs.Unfolding
import Mathlib.Data.Set.Insert
/-!
  Balanced stores, and changes through one place.

  In a balanced store the owners of every live vertex are those of the handles and links bound to it, and
  some more: the `loose` ones.  Loose owners stand for everything that is counted but is no handle or link
  at the moment: children about to be linked, work still to be released, or owners that were counted too
  often.  A store whose counts are exact has none.

  `s.Held loose avoid v` says that the vertex can be reached from a handle or a loose owner by a way that
  uses none of the places in `avoid`.  What is held without a place `p` is what a change through `p` must
  leave alone (`ChangesOnly`), and a place bound to a vertex with one owner is the only way to it
  (`Balanced.sole_of_owners_le_one`); this is why writing in place is not seen elsewhere.
-/

namespace ExprGraph

namespace Store

variable {s s' s'' : Store} {loose loose' : VertexId → Nat} {places places' : Set Place} {p q : Place}
  {u v w : VertexId} {x : Vertex} {t : Term}

/-- **A balanced store**: handles and loose owners belong to live vertices, every live vertex unfolds, and
    its owners are what is bound to it and the loose ones. -/
structure Balanced (s : Store) (loose : VertexId → Nat) : Prop where
  handle_live : ∀ h v, s.target? h = some v → ∃ x, s.vertex? v = some x
  loose_live : ∀ v, 0 < loose v → ∃ x, s.vertex? v = some x
  unfolds : ∀ v x, s.vertex? v = some x → ∃ t, s.Unfolds v t
  owners : ∀ v x, s.vertex? v = some x → x.owners = s.bound v + loose v

/-- **The vertex is reached from a handle or a loose owner** without the places to avoid. -/
inductive Held (s : Store) (loose : VertexId → Nat) (avoid : Set Place) : VertexId → Prop where
  | handle {h : Handle} {v : VertexId} (ha : .handle h ∉ avoid) (ht : s.target? h = some v) :
      Held s loose avoid v
  | loose {v : VertexId} (hl : 0 < loose v) : Held s loose avoid v
  | link {u v : VertexId} {i : Nat} (hu : Held s loose avoid u) (ha : .link u i ∉ avoid)
      (ht : s.at? (.link u i) = some v) : Held s loose avoid v

/-- The owners counted beyond those bound to a vertex. -/
def surplus (s : Store) (v : VertexId) : Nat :=
  match s.vertex? v with
  | some x => x.owners - s.bound v
  | none => 0

/-! ## What a balanced store knows -/

namespace Balanced

/-- Children of live vertices are live. -/
theorem child (hb : s.Balanced loose) (hw : w ∈ s.children v) : ∃ x, s.vertex? w = some x := by
  cases hx : s.vertex? v with
  | none =>
    rw [children_of_none hx] at hw
    exact absurd hw List.not_mem_nil
  | some x =>
    obtain ⟨t, ht⟩ := hb.unfolds v x hx
    rw [children_of_vertex? hx] at hw
    obtain ⟨c, -, hc⟩ := Pointwise.exists_right (ht.children hx).2.2 hw
    exact hc.exists_vertex

/-- What is bound to a place is live. -/
theorem at? (hb : s.Balanced loose) (hq : s.at? q = some v) : ∃ x, s.vertex? v = some x := by
  cases q with
  | handle h => exact hb.handle_live h v hq
  | link u i => exact hb.child (mem_children_of_at? hq)

/-- What is held is live. -/
theorem held {avoid : Set Place} (hb : s.Balanced loose) (hv : s.Held loose avoid v) :
    ∃ x, s.vertex? v = some x := by
  cases hv with
  | handle _ ht => exact hb.handle_live _ _ ht
  | loose hl => exact hb.loose_live _ hl
  | link _ _ ht => exact hb.child (mem_children_of_at? ht)

/-- No handle or link is bound to a vertex that is not live. -/
theorem bound_of_none (hb : s.Balanced loose) (hv : s.vertex? v = none) : s.bound v = 0 :=
  bound_eq_zero fun q hq => by
    obtain ⟨x, hx⟩ := hb.at? hq
    exact absurd (hv.symm.trans hx) (by simp)

theorem loose_of_none (hb : s.Balanced loose) (hv : s.vertex? v = none) : loose v = 0 := by
  rcases Nat.eq_zero_or_pos (loose v) with h | h
  · exact h
  · obtain ⟨x, hx⟩ := hb.loose_live v h
    exact absurd (hv.symm.trans hx) (by simp)

theorem closed (hb : s.Balanced loose) : s.Closed := ⟨hb.handle_live, fun _ _ hw => hb.child hw⟩

theorem acyclic (hb : s.Balanced loose) : s.Acyclic := acyclic_of_unfolds hb.unfolds

/-- **A place bound to a vertex with one owner is the only way to it.** -/
theorem sole_of_owners_le_one (hb : s.Balanced loose) (hp : s.at? p = some v)
    (hx : s.vertex? v = some x) (hle : x.owners ≤ 1) : ¬ s.Held loose {p} v := by
  intro hv
  have hown := hb.owners v x hx
  have hpos := bound_pos hp
  have hne : ∀ q, q ∉ ({p} : Set Place) → s.at? q = some v → False := by
    intro q hq hqv
    have htwo := two_le_bound hqv hp fun e => hq (Set.mem_singleton_iff.mpr e)
    omega
  cases hv with
  | handle ha ht => exact hne _ ha ht
  | loose hl => omega
  | link _ ha ht => exact hne _ ha ht

/-- **Counts that are at least what is bound** leave the rest as loose owners. -/
theorem of_covered (hc : s.Closed) (ha : s.Acyclic) (hle : s.Covered) : s.Balanced s.surplus where
  handle_live := hc.handle
  loose_live v hv := by
    cases hx : s.vertex? v with
    | none => simp [surplus, hx] at hv
    | some x => exact ⟨x, rfl⟩
  unfolds v x hx := hc.exists_unfolds ha hx
  owners v x hx := by
    have h := hle v x hx
    simp only [surplus, hx]
    omega

/-- What is counted among the children of a vertex is live. -/
theorem child_of_count (hb : s.Balanced loose) (hx : s.vertex? v = some x) (hc : 0 < x.children.count u) :
    ∃ y, s.vertex? u = some y := by
  refine hb.child (v := v) ?_
  rw [children_of_vertex? hx]
  exact List.count_pos_iff.mp hc

/-- At the beginning there is nothing to count. -/
theorem empty : Store.empty.Balanced fun _ => 0 where
  handle_live h _ ht := absurd (lt_size_of_target? ht) (Nat.not_lt_zero h)
  loose_live _ hv := absurd hv (Nat.lt_irrefl 0)
  unfolds v _ hx := absurd (lt_size_of_vertex? hx) (Nat.not_lt_zero v)
  owners v _ hx := absurd (lt_size_of_vertex? hx) (Nat.not_lt_zero v)

end Balanced

/-- The counts of the sum of a constant and itself are exact. -/
theorem exact_doubled : doubled.Exact := by
  intro v x hx
  match v with
  | 0 => obtain rfl := Option.some.inj hx; rfl
  | 1 => obtain rfl := Option.some.inj hx; rfl
  | n + 2 => exact absurd (lt_size_of_vertex? hx) (by simp [doubled])

/-! ## Holding -/

/-- Avoiding less holds more. -/
theorem Held.mono {avoid avoid' : Set Place} (h : s.Held loose avoid v) (hsub : avoid' ⊆ avoid) :
    s.Held loose avoid' v := by
  induction h with
  | handle ha ht => exact .handle (fun hm => ha (hsub hm)) ht
  | loose hl => exact .loose hl
  | link _ ha ht ih => exact .link ih (fun hm => ha (hsub hm)) ht

/-- More loose owners hold more. -/
theorem Held.mono_loose {loose' : VertexId → Nat} {avoid : Set Place} (h : s.Held loose avoid v)
    (hle : ∀ v, 0 < loose v → 0 < loose' v) : s.Held loose' avoid v := by
  induction h with
  | handle ha ht => exact .handle ha ht
  | loose hl => exact .loose (hle _ hl)
  | link _ ha ht ih => exact .link ih ha ht

/-- What is held is bound to a place or has a loose owner. -/
theorem Held.counted {avoid : Set Place} (h : s.Held loose avoid v) : 0 < s.bound v ∨ 0 < loose v := by
  cases h with
  | @handle h _ _ ht => exact .inl (bound_pos (q := .handle h) ht)
  | loose hl => exact .inr hl
  | link _ _ ht => exact .inl (bound_pos ht)

/-- What is held past a place is also held past the links of a vertex to which that place is the only
    way. -/
theorem Held.past_links {i : Nat} (h : s.Held loose {p} v) (hw : ¬ s.Held loose {p} w) :
    s.Held loose {.link w i} v := by
  induction h with
  | handle _ ht => exact .handle (by simp) ht
  | loose hl => exact .loose hl
  | link hu _ ht ih =>
    refine .link ih ?_ ht
    intro hm
    obtain ⟨rfl, -⟩ := Place.link.inj (Set.mem_singleton_iff.mp hm)
    exact hw hu

/-- **The place is reached without itself**: it is a handle, or a link of a vertex held past it. -/
def Anchored (s : Store) (loose : VertexId → Nat) : Place → Prop
  | .handle _ => True
  | .link u i => s.Held loose {.link u i} u

theorem anchored_handle (s : Store) (loose : VertexId → Nat) (h : Handle) :
    s.Anchored loose (.handle h) :=
  trivial

/-- What an anchored place is bound to is held. -/
theorem Anchored.held (ha : s.Anchored loose p) (hp : s.at? p = some v) : s.Held loose ∅ v := by
  cases p with
  | handle h => exact .handle (Set.notMem_empty _) hp
  | link u i => exact .link (Held.mono ha (Set.empty_subset _)) (Set.notMem_empty _) hp

/-- The links of a vertex are anchored when an anchored place is the only way to it. -/
theorem Anchored.link (ha : s.Anchored loose p) (hp : s.at? p = some v)
    (hv : ¬ s.Held loose {p} v) (i : Nat) : s.Anchored loose (.link v i) := by
  cases p with
  | handle h => exact Held.handle (by simp) hp
  | link u k =>
    refine Held.link (Held.past_links ha hv) ?_ hp
    intro hm
    obtain ⟨rfl, -⟩ := Place.link.inj (Set.mem_singleton_iff.mp hm)
    exact hv ha

/-! ## Changes through some places -/

/-- **Only what the places lead to has changed**: there are no new handles, other handles are bound as before,
    and vertices held without the places keep their payload, the number of their links, and all links but
    those places. -/
structure ChangesOnly (s s' : Store) (loose : VertexId → Nat) (places : Set Place) : Prop where
  size : s'.handles.size = s.handles.size
  handle : ∀ h, .handle h ∉ places → s'.target? h = s.target? h
  vertex : ∀ u x, s.Held loose places u → s.vertex? u = some x → ∃ y, s'.vertex? u = some y
    ∧ y.payload = x.payload ∧ y.links.map List.length = x.links.map List.length
  link : ∀ u i, s.Held loose places u → .link u i ∉ places → s'.at? (.link u i) = s.at? (.link u i)

/-- Links of equal number that agree at every place are equal. -/
theorem links_eq {xs ys : Option (List VertexId)}
    (hlen : ys.map List.length = xs.map List.length)
    (h : ∀ i : Nat, (ys.getD [])[i]? = (xs.getD [])[i]?) : ys = xs := by
  cases xs with
  | none => cases ys <;> simp_all
  | some xs =>
    cases ys with
    | none => simp at hlen
    | some ys => exact congrArg some (List.ext_getElem? h)

namespace ChangesOnly

theorem refl (s : Store) (loose : VertexId → Nat) (places : Set Place) :
    ChangesOnly s s loose places where
  size := rfl
  handle _ _ := rfl
  vertex _ x _ hx := ⟨x, hx, rfl, rfl⟩
  link _ _ _ _ := rfl

/-- **A store that differs in owner counts only** has not changed at all. -/
theorem of_owners (hh : s'.handles = s.handles)
    (hv : ∀ u x, s.Held loose places u → s.vertex? u = some x →
      ∃ n, s'.vertex? u = some { x with owners := n })
    (hb : s.Balanced loose') (hle : ∀ v, loose v ≤ loose' v) : ChangesOnly s s' loose places where
  size := by rw [hh]
  handle h _ := by rw [target?, hh, target?]
  vertex u x hu hx := by
    obtain ⟨n, hn⟩ := hv u x hu hx
    exact ⟨_, hn, rfl, rfl⟩
  link u i hu _ := by
    obtain ⟨x, hx⟩ := hb.held (hu.mono_loose fun v hp => Nat.lt_of_lt_of_le hp (hle v))
    obtain ⟨n, hn⟩ := hv u x hu hx
    rw [at?_link, at?_link, children_of_vertex? hx, children_of_vertex? hn]
    rfl

/-- What changes less changes nothing more. -/
theorem mono (hc : ChangesOnly s s' loose places) (hsub : places ⊆ places') :
    ChangesOnly s s' loose places' where
  size := hc.size
  handle h hh := hc.handle h fun hm => hh (hsub hm)
  vertex u x hu hx := hc.vertex u x (hu.mono hsub) hx
  link u i hu hi := hc.link u i (hu.mono hsub) fun hm => hi (hsub hm)

/-- A held vertex without a changed place among its links changes in its owners only. -/
theorem same (hc : ChangesOnly s s' loose places) (hu : s.Held loose places u)
    (hx : s.vertex? u = some x) (hne : ∀ i, .link u i ∉ places) :
    ∃ n, s'.vertex? u = some { x with owners := n } := by
  obtain ⟨y, hy, hp, hlen⟩ := hc.vertex u x hu hx
  have hlinks : y.links = x.links := by
    refine links_eq hlen fun i => ?_
    have hat := hc.link u i hu (hne i)
    rw [at?_link, at?_link, children_of_vertex? hx, children_of_vertex? hy] at hat
    exact hat
  refine ⟨y.owners, hy.trans ?_⟩
  rw [← hp, ← hlinks]

/-- What was held without the places still is. -/
theorem held (hc : ChangesOnly s s' loose places) (hv : s.Held loose places v) :
    s'.Held loose places v := by
  induction hv with
  | handle ha ht => exact .handle ha ((hc.handle _ ha).trans ht)
  | loose hl => exact .loose hl
  | link hu ha ht ih => exact .link ih ha ((hc.link _ _ hu ha).trans ht)

/-- Nothing else is held without the places. -/
theorem of_held (hc : ChangesOnly s s' loose places) (hv : s'.Held loose places v) :
    s.Held loose places v := by
  -- each step of the way after the change is one before it, since the vertex above was held before
  induction hv with
  | handle ha ht => exact .handle ha ((hc.handle _ ha).symm.trans ht)
  | loose hl => exact .loose hl
  | link _ ha ht ih => exact .link ih ha ((hc.link _ _ ih ha).symm.trans ht)

theorem trans (h₁ : ChangesOnly s s' loose places) (h₂ : ChangesOnly s' s'' loose places) :
    ChangesOnly s s'' loose places where
  size := h₂.size.trans h₁.size
  handle h hne := (h₂.handle h hne).trans (h₁.handle h hne)
  vertex u x hu hx := by
    obtain ⟨y, hy, hp, hlen⟩ := h₁.vertex u x hu hx
    obtain ⟨z, hz, hp', hlen'⟩ := h₂.vertex u y (h₁.held hu) hy
    exact ⟨z, hz, hp'.trans hp, hlen'.trans hlen⟩
  link u i hu hne := (h₂.link u i (h₁.held hu) hne).trans (h₁.link u i hu hne)

/-- A change through a link of a vertex is one through the only way to that vertex. -/
theorem of_link {i : Nat} (hc : ChangesOnly s s' loose {.link v i}) (hv : ¬ s.Held loose {p} v) :
    ChangesOnly s s' loose {p} where
  size := hc.size
  handle h _ := hc.handle h (by simp)
  vertex u x hu hx := hc.vertex u x (hu.past_links hv) hx
  link u j hu _ := by
    refine hc.link u j (hu.past_links hv) fun hm => ?_
    obtain ⟨rfl, -⟩ := Place.link.inj (Set.mem_singleton_iff.mp hm)
    exact hv hu

/-- An anchored place stays anchored. -/
theorem anchored (hc : ChangesOnly s s' loose {p}) (ha : s.Anchored loose p) :
    s'.Anchored loose p := by
  cases p with
  | handle h => trivial
  | link u i => exact hc.held ha

/-- **Terms held without the places stay**, below vertices from which the places are not reached. -/
theorem unfolds (hc : ChangesOnly s s' loose places) (hv : s.Held loose places v)
    (ht : s.Unfolds v t) (hp : ∀ u i, .link u i ∈ places → ¬ s.Reaches v u) : s'.Unfolds v t := by
  -- the set of vertices held without the places, from which no changed link is reached
  refine ht.transport
    (fun w => s.Held loose places w ∧ ∀ u i, .link u i ∈ places → ¬ s.Reaches w u) ?_ ⟨hv, hp⟩
  rintro w x ⟨hw, hwp⟩ hx
  have hne : ∀ i, Place.link w i ∉ places := fun i hm => hwp w i hm .refl
  refine ⟨hc.same hw hx hne, fun c hcx => ?_⟩
  rw [← children_of_vertex? hx] at hcx
  obtain ⟨i, hi⟩ := exists_at?_of_mem_children hcx
  exact ⟨.link hw (hne i) hi, fun u j hm hr => hwp u j hm (.head hcx hr)⟩

end ChangesOnly

end Store

end ExprGraph

import ExprGraph.Proofs.Lookup
import Mathlib.Algebra.BigOperators.Group.Finset.Basic
import Mathlib.Algebra.Order.BigOperators.Group.Finset
/-!
  What is bound to a vertex.

  `s.bound v` counts the live handles bound to the vertex `v` and the links of live vertices that lead to
  it, each as often as it occurs.  It is counted from the handles and links alone; the owner counts stored
  in the vertices play no part.  This module says how each elementary change of a store changes it, and
  that two different places bound to a vertex make it at least two.
-/

namespace ExprGraph

namespace Store

/-- The number of live handles bound to a vertex. -/
def handleCount (s : Store) (v : VertexId) : Nat :=
  ∑ h ∈ Finset.range s.handles.size, if s.target? h = some v then 1 else 0

/-- The number of links of live vertices that lead to a vertex. -/
def linkCount (s : Store) (v : VertexId) : Nat :=
  ∑ u ∈ Finset.range s.vertices.size, (s.children u).count v

/-- **The number of handles and links bound to a vertex.** -/
def bound (s : Store) (v : VertexId) : Nat := s.handleCount v + s.linkCount v

/-! ## One summand changes -/

/-- When one summand changes, the sum changes as it does. -/
theorem sum_change {n u : Nat} (f g : Nat → Nat) (hu : u < n) (h : ∀ i, i ≠ u → g i = f i) :
    ∑ i ∈ Finset.range n, g i + f u = ∑ i ∈ Finset.range n, f i + g u := by
  have hmem : u ∈ Finset.range n := Finset.mem_range.mpr hu
  have hrest : ∑ i ∈ (Finset.range n).erase u, g i = ∑ i ∈ (Finset.range n).erase u, f i :=
    Finset.sum_congr rfl fun i hi => h i (Finset.ne_of_mem_erase hi)
  rw [← Finset.add_sum_erase _ f hmem, ← Finset.add_sum_erase _ g hmem, hrest]
  omega

/-- Two summands at different places are part of the sum. -/
theorem add_le_sum {n u w : Nat} (f : Nat → Nat) (hu : u < n) (hw : w < n) (hne : u ≠ w) :
    f u + f w ≤ ∑ i ∈ Finset.range n, f i := by
  have hu' : u ∈ Finset.range n := Finset.mem_range.mpr hu
  have hw' : w ∈ (Finset.range n).erase u :=
    Finset.mem_erase.mpr ⟨fun h => hne h.symm, Finset.mem_range.mpr hw⟩
  rw [← Finset.add_sum_erase _ f hu', ← Finset.add_sum_erase _ f hw']
  omega

theorem le_sum {n u : Nat} (f : Nat → Nat) (hu : u < n) : f u ≤ ∑ i ∈ Finset.range n, f i := by
  rw [← Finset.add_sum_erase _ f (Finset.mem_range.mpr hu)]
  omega

variable {s s' : Store} {u v w : VertexId} {x : Vertex}

/-! ## Places and their count -/

/-- Two places of a list make two occurrences. -/
theorem two_le_count {vs : List VertexId} {i j : Nat} (hi : vs[i]? = some v) (hj : vs[j]? = some v)
    (hne : i ≠ j) : 2 ≤ vs.count v := by
  obtain ⟨hil, hi⟩ := List.getElem?_eq_some_iff.mp hi
  obtain ⟨hjl, hj⟩ := List.getElem?_eq_some_iff.mp hj
  have hset : (vs.set i (v + 1))[j]? = some v := by
    rw [List.getElem?_set_ne hne, List.getElem?_eq_getElem hjl, hj]
  have hmem : v ∈ vs.set i (v + 1) := List.mem_of_getElem? hset
  have hpos := List.count_pos_iff.mpr hmem
  have hcount := List.count_set (a := v + 1) (b := v) hil
  have hin := List.count_pos_iff.mpr (hi ▸ List.getElem_mem hil)
  rw [hi] at hcount
  simp only [beq_self_eq_true, if_true, beq_iff_eq, Nat.succ_ne_self, if_false] at hcount
  omega

theorem children_count_le_linkCount (hx : s.vertex? u = some x) :
    x.children.count v ≤ s.linkCount v := by
  rw [← children_of_vertex? hx]
  exact le_sum (fun u => (s.children u).count v) (lt_size_of_vertex? hx)

/-- A link is bound through the children of its vertex. -/
theorem exists_vertex_of_at?_link {i : Nat} (h : s.at? (.link u i) = some v) :
    ∃ x, s.vertex? u = some x ∧ x.children[i]? = some v := by
  cases hx : s.vertex? u with
  | none =>
    rw [at?_link, children_of_none hx] at h
    exact absurd h (by simp)
  | some x =>
    rw [at?_link, children_of_vertex? hx] at h
    exact ⟨x, rfl, h⟩

/-- A bound place counts. -/
theorem bound_pos {q : Place} (h : s.at? q = some v) : 0 < s.bound v := by
  cases q with
  | handle h' =>
    have hle := le_sum (fun h => if s.target? h = some v then 1 else 0) (lt_size_of_target? h)
    rw [if_pos (show s.target? h' = some v from h)] at hle
    have hle' : 1 ≤ s.handleCount v := hle
    unfold bound
    omega
  | link u i =>
    obtain ⟨x, hx, hxi⟩ := exists_vertex_of_at?_link h
    have hpos := List.count_pos_iff.mpr (List.mem_of_getElem? hxi)
    have hle := children_count_le_linkCount (v := v) hx
    unfold bound
    omega

theorem two_le_bound_of_handle_link {h : Handle} {i : Nat} (hh : s.at? (.handle h) = some v)
    (hl : s.at? (.link u i) = some v) : 2 ≤ s.bound v := by
  have hle := le_sum (fun h => if s.target? h = some v then 1 else 0) (lt_size_of_target? hh)
  rw [if_pos (show s.target? h = some v from hh)] at hle
  have hle' : 1 ≤ s.handleCount v := hle
  obtain ⟨x, hx, hxi⟩ := exists_vertex_of_at?_link hl
  have hpos := List.count_pos_iff.mpr (List.mem_of_getElem? hxi)
  have hcount := children_count_le_linkCount (v := v) hx
  unfold bound
  omega

/-- **Different places bound to one vertex count apart.** -/
theorem two_le_bound {q r : Place} (hq : s.at? q = some v) (hr : s.at? r = some v) (hne : q ≠ r) :
    2 ≤ s.bound v := by
  cases q with
  | handle g =>
    cases r with
    | handle h =>
      have hgh : g ≠ h := fun e => hne (e ▸ rfl)
      have hle := add_le_sum (fun h => if s.target? h = some v then 1 else 0)
        (lt_size_of_target? hq) (lt_size_of_target? hr) hgh
      rw [if_pos (show s.target? g = some v from hq), if_pos (show s.target? h = some v from hr)] at hle
      have hle' : 2 ≤ s.handleCount v := hle
      unfold bound
      omega
    | link u i => exact two_le_bound_of_handle_link hq hr
  | link u i =>
    cases r with
    | handle h => exact two_le_bound_of_handle_link hr hq
    | link w j =>
      obtain ⟨x, hx, hxi⟩ := exists_vertex_of_at?_link hq
      obtain ⟨y, hy, hyj⟩ := exists_vertex_of_at?_link hr
      -- links of one vertex are two occurrences in its children, links of two are two summands
      by_cases huw : u = w
      · subst huw
        obtain rfl := Option.some.inj (hx.symm.trans hy)
        have hij : i ≠ j := fun e => hne (e ▸ rfl)
        have htwo := two_le_count hxi hyj hij
        have hle := children_count_le_linkCount (v := v) hx
        unfold bound
        omega
      · have hle := add_le_sum (fun u => (s.children u).count v) (lt_size_of_vertex? hx)
          (lt_size_of_vertex? hy) huw
        simp only [children_of_vertex? hx, children_of_vertex? hy] at hle
        have hxp := List.count_pos_iff.mpr (List.mem_of_getElem? hxi)
        have hyp := List.count_pos_iff.mpr (List.mem_of_getElem? hyj)
        have hle' : x.children.count v + y.children.count v ≤ s.linkCount v := hle
        unfold bound
        omega

/-- Nothing is bound to a vertex that is not live, when all bound vertices are. -/
theorem bound_eq_zero (hnone : ∀ q, s.at? q ≠ some v) : s.bound v = 0 := by
  have hh : s.handleCount v = 0 := by
    refine Finset.sum_eq_zero fun h _ => ?_
    exact if_neg (hnone (.handle h))
  have hl : s.linkCount v = 0 := by
    refine Finset.sum_eq_zero fun u _ => List.count_eq_zero.mpr fun hmem => ?_
    obtain ⟨i, hi⟩ := exists_at?_of_mem_children hmem
    exact hnone _ hi
  rw [bound, hh, hl]

/-! ## Counts after a change -/

theorem handleCount_congr (hs : s'.handles = s.handles) (v : VertexId) :
    s'.handleCount v = s.handleCount v := by
  have ht : s'.target? = s.target? := by
    funext h
    rw [target?, hs, target?]
  rw [handleCount, hs, ht, handleCount]

theorem linkCount_congr (hn : s'.vertices.size = s.vertices.size)
    (hc : ∀ u, s'.children u = s.children u) (v : VertexId) : s'.linkCount v = s.linkCount v := by
  rw [linkCount, hn, funext hc, linkCount]

/-- The count depends on the handles and the links alone. -/
theorem bound_congr (hs : s'.handles = s.handles) (hn : s'.vertices.size = s.vertices.size)
    (hc : ∀ u, s'.children u = s.children u) (v : VertexId) : s'.bound v = s.bound v := by
  rw [bound, handleCount_congr hs, linkCount_congr hn hc, bound]

@[simp] theorem bound_addOwners (s : Store) (vs : List VertexId) (v : VertexId) :
    (s.addOwners vs).bound v = s.bound v :=
  bound_congr (handles_addOwners s vs) (size_addOwners s vs) (children_addOwners s vs) v

@[simp] theorem bound_dropOwner (s : Store) (u v : VertexId) :
    (s.dropOwner u).bound v = s.bound v :=
  bound_congr (handles_modify s u _) (size_modify s u _) (children_dropOwner s u) v

theorem children_insert (s : Store) (x : Vertex) (u : VertexId) :
    (s.insert x).2.children u = if u = s.vertices.size then x.children else s.children u := by
  unfold children
  rw [vertex?_insert]
  by_cases h : u = s.vertices.size
  · rw [if_pos h, if_pos h]
  · rw [if_neg h, if_neg h]

/-- A new vertex binds its children. -/
@[simp] theorem bound_insert (s : Store) (x : Vertex) (v : VertexId) :
    (s.insert x).2.bound v = s.bound v + x.children.count v := by
  have hold : ∀ u ∈ Finset.range s.vertices.size,
      ((s.insert x).2.children u).count v = (s.children u).count v := by
    intro u hu
    rw [children_insert, if_neg (Nat.ne_of_lt (Finset.mem_range.mp hu))]
  have hl : (s.insert x).2.linkCount v = s.linkCount v + x.children.count v := by
    rw [linkCount, size_insert, Finset.sum_range_succ, Finset.sum_congr rfl hold, children_insert,
      if_pos rfl, linkCount]
  have hh : (s.insert x).2.handleCount v = s.handleCount v := rfl
  rw [bound, hl, hh, bound]
  omega

/-- When one vertex gets other links, its old ones no longer count and its new ones do. -/
theorem bound_of_links (hs : s'.handles = s.handles) (hn : s'.vertices.size = s.vertices.size)
    (hu : u < s.vertices.size) (hc : ∀ w, w ≠ u → s'.children w = s.children w) (v : VertexId) :
    s'.bound v + (s.children u).count v = s.bound v + (s'.children u).count v := by
  have hl : s'.linkCount v + (s.children u).count v = s.linkCount v + (s'.children u).count v := by
    rw [linkCount, hn, linkCount]
    exact sum_change (fun w => (s.children w).count v) (fun w => (s'.children w).count v) hu
      fun w hw => congrArg (List.count v) (hc w hw)
  rw [bound, bound, handleCount_congr hs]
  omega

/-- A vertex taken out no longer binds its children. -/
theorem bound_erase (hx : s.vertex? u = some x) (v : VertexId) :
    (s.erase u).bound v + x.children.count v = s.bound v := by
  have hc : ∀ w, w ≠ u → (s.erase u).children w = s.children w := by
    intro w hw
    unfold children
    rw [vertex?_erase, if_neg fun e => hw e.symm]
  have h : (s.erase u).bound v + (s.children u).count v
      = s.bound v + ((s.erase u).children u).count v :=
    bound_of_links (handles_erase s u) (size_erase s u) (lt_size_of_vertex? hx) hc v
  have hnone : (s.erase u).children u = [] := children_of_none (by rw [vertex?_erase, if_pos rfl])
  rw [children_of_vertex? hx, hnone, List.count_nil] at h
  exact h

/-- Changing a vertex changes what it binds. -/
theorem bound_modify (hx : s.vertex? u = some x) (f : Vertex → Vertex) (v : VertexId) :
    (s.modify u f).bound v + x.children.count v = s.bound v + (f x).children.count v := by
  have hc : ∀ w, w ≠ u → (s.modify u f).children w = s.children w := by
    intro w hw
    unfold children
    rw [vertex?_modify, if_neg fun e => hw e.symm]
  have h : (s.modify u f).bound v + (s.children u).count v
      = s.bound v + ((s.modify u f).children u).count v :=
    bound_of_links (handles_modify s u f) (size_modify s u f) (lt_size_of_vertex? hx) hc v
  have hfx : (s.modify u f).vertex? u = some (f x) := by rw [vertex?_modify, if_pos rfl, hx]; rfl
  rwa [children_of_vertex? hx, children_of_vertex? hfx] at h

/-- A new handle counts for its vertex. -/
@[simp] theorem bound_bind (s : Store) (w v : VertexId) :
    (s.bind w).2.bound v = s.bound v + if w = v then 1 else 0 := by
  have hl : (s.bind w).2.linkCount v = s.linkCount v :=
    linkCount_congr (size_addOwner s w) (children_addOwners s [w]) v
  have hold : ∀ h ∈ Finset.range s.handles.size,
      (if (s.bind w).2.target? h = some v then 1 else 0) = if s.target? h = some v then 1 else 0 := by
    intro h hh
    rw [target?_bind, if_neg (Nat.ne_of_lt (Finset.mem_range.mp hh))]
  have hh : (s.bind w).2.handleCount v = s.handleCount v + if w = v then 1 else 0 := by
    rw [handleCount, size_handles_bind, Finset.sum_range_succ, Finset.sum_congr rfl hold, target?_bind,
      if_pos rfl, handleCount]
    simp only [Option.some.injEq]
  rw [bound, hl, hh, bound]
  omega

/-- When one handle is bound elsewhere, or nowhere, the counts change by what it was bound to and is
    bound to now. -/
theorem bound_of_handle {h : Handle} (hs : s'.vertices = s.vertices)
    (hn : s'.handles.size = s.handles.size) (hh : h < s.handles.size)
    (ht : ∀ g, g ≠ h → s'.target? g = s.target? g) (v : VertexId) :
    s'.bound v + (if s.target? h = some v then 1 else 0)
      = s.bound v + if s'.target? h = some v then 1 else 0 := by
  have hl : s'.linkCount v = s.linkCount v :=
    linkCount_congr (by rw [hs]) (fun u => by rw [children, vertex?, hs]; rfl) v
  have hc : s'.handleCount v + (if s.target? h = some v then 1 else 0)
      = s.handleCount v + if s'.target? h = some v then 1 else 0 := by
    rw [handleCount, hn, handleCount]
    exact sum_change (fun g => if s.target? g = some v then 1 else 0)
      (fun g => if s'.target? g = some v then 1 else 0) hh
      fun g hg => by simp only [ht g hg]
  rw [bound, bound, hl]
  omega

/-! ## Owner counts -/

/-- **Exact counts**: a live vertex has as many owners as handles and links are bound to it. -/
def Exact (s : Store) : Prop := ∀ v x, s.vertex? v = some x → x.owners = s.bound v

/-- No owner is missing from the counts; they may be too high. -/
def Covered (s : Store) : Prop := ∀ v x, s.vertex? v = some x → s.bound v ≤ x.owners

theorem Exact.covered (h : s.Exact) : s.Covered := fun v x hx => Nat.le_of_eq (h v x hx).symm

end Store

end ExprGraph

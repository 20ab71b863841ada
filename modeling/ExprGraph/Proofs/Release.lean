import ExprGraph.Proofs.Balancing
/-!
  Releasing owners.

  Releasing a list of vertices uses up loose owners, one for each occurrence in the list
  (`Balanced.release`).  A vertex taken out had neither a handle nor a link nor another loose owner, so
  everything that is held otherwise stays as it is: `ChangesOnly` with no places at all.

    * state      the store, and the vertices still to release;
    * invariant  the loose owners are those asked for and one for each vertex still to release.

  Whatever is loose, what is left of the store is as it was (`Thinned.release`).
-/

namespace ExprGraph

namespace Store

variable {s : Store} {loose : VertexId → Nat} {v : VertexId} {x : Vertex} {work rest : List VertexId}

/-! ## One step -/

theorem release_dead (hx : s.vertex? v = none) : s.release (v :: rest) = s.release rest := by
  rw [release]
  split
  · rfl
  · next y hy => exact absurd (hx.symm.trans hy) (by simp)

theorem release_last (hx : s.vertex? v = some x) (h : x.owners ≤ 1 ∧ v ∉ s.pinned) :
    s.release (v :: rest) = (s.erase v).release (x.children ++ rest) := by
  rw [release]
  split
  · next hy => exact absurd (hx.symm.trans hy) (by simp)
  · next y hy =>
    obtain rfl := Option.some.inj (hx.symm.trans hy)
    exact if_pos h

theorem release_owned (hx : s.vertex? v = some x) (h : ¬ (x.owners ≤ 1 ∧ v ∉ s.pinned)) :
    s.release (v :: rest) = (s.dropOwner v).release rest := by
  rw [release]
  split
  · next hy => exact absurd (hx.symm.trans hy) (by simp)
  · next y hy =>
    obtain rfl := Option.some.inj (hx.symm.trans hy)
    exact if_neg h

/-- Taking out a vertex that nothing holds changes nothing held. -/
theorem changesOnly_erase (hb : s.Balanced loose') (hbound : s.bound v = 0) (hv : loose v = 0)
    (hle : ∀ u, loose u ≤ loose' u) (places : Set Place) :
    ChangesOnly s (s.erase v) loose places := by
  refine .of_owners rfl (fun u x hu hx => ?_) hb hle
  have hne : v ≠ u := by
    rintro rfl
    have hpos := hu.counted
    omega
  exact ⟨x.owners, by rw [vertex?_erase, if_neg hne, hx]⟩

/-- Counting one owner less changes nothing held. -/
theorem changesOnly_dropOwner (hb : s.Balanced loose') (hle : ∀ u, loose u ≤ loose' u)
    (places : Set Place) : ChangesOnly s (s.dropOwner v) loose places := by
  refine .of_owners rfl (fun u x _ hx => ?_) hb hle
  exact ⟨x.owners - if v = u then 1 else 0, by rw [vertex?_dropOwner, hx]; rfl⟩

/-! ## The whole release -/

theorem handles_release (s : Store) (work : List VertexId) : (s.release work).handles = s.handles := by
  induction s, work using release.induct with
  | case1 s => rw [release]
  | case2 s v rest hx ih => rw [release_dead hx, ih]
  | case3 s v rest x hx h ih => rw [release_last hx h, ih, handles_erase]
  | case4 s v rest x hx h ih => rw [release_owned hx h, ih]; rfl

/-- **A release uses up the loose owners it releases** and changes nothing that is held. -/
theorem Balanced.release (hb : s.Balanced fun v => loose v + work.count v) :
    (s.release work).Balanced loose ∧ ChangesOnly s (s.release work) loose ∅ := by
  induction s, work using Store.release.induct with
  | case1 s =>
    rw [Store.release]
    exact ⟨by simpa using hb, .refl s loose ∅⟩
  | case2 s v rest hx ih =>
    -- a vertex with a loose owner is live
    have hpos : 0 < loose v + (v :: rest).count v := by rw [List.count_cons_self]; omega
    obtain ⟨x, hx'⟩ := hb.loose_live v hpos
    exact absurd (hx.symm.trans hx') (by simp)
  | case3 s v rest x hx h ih =>
    rw [release_last hx h]
    have hown := hb.owners v x hx
    rw [List.count_cons_self] at hown
    -- its last owner was loose, so no link is bound to it, not even one of its own
    have hself : x.children.count v = 0 := by
      have hle := children_count_le_linkCount (v := v) hx
      have hbd : s.bound v = s.handleCount v + s.linkCount v := rfl
      omega
    have hb' : (s.erase v).Balanced fun u => loose u + (x.children ++ rest).count u := by
      refine hb.erase hx (by omega) (fun u hu => ?_) ?_
      · rw [List.count_cons_of_ne (fun e => hu e.symm), List.count_append]
        omega
      · rw [List.count_append]
        omega
    obtain ⟨hbal, hchg⟩ := ih hb'
    have hstep : ChangesOnly s (s.erase v) loose ∅ :=
      changesOnly_erase hb (by omega) (by omega) (fun u => Nat.le_add_right _ _) ∅
    exact ⟨hbal, hstep.trans hchg⟩
  | case4 s v rest x hx h ih =>
    rw [release_owned hx h]
    have hb' : (s.dropOwner v).Balanced fun u => loose u + rest.count u := by
      refine hb.dropOwner fun u => ?_
      rw [List.count_cons]
      simp only [beq_iff_eq]
      omega
    obtain ⟨hbal, hchg⟩ := ih hb'
    have hstep : ChangesOnly s (s.dropOwner v) loose ∅ :=
      changesOnly_dropOwner hb (fun u => Nat.le_add_right _ _) ∅
    exact ⟨hbal, hstep.trans hchg⟩

/-! ## What is left of a store -/

/-- **A store thinned out**: vertices may be gone and owners may have changed, but what is there has the payload
    and the links it had. -/
structure Thinned (s s' : Store) : Prop where
  size : s'.vertices.size = s.vertices.size
  vertex : ∀ v y, s'.vertex? v = some y →
    ∃ x, s.vertex? v = some x ∧ y.payload = x.payload ∧ y.links = x.links

namespace Thinned

theorem refl (s : Store) : Thinned s s := ⟨rfl, fun _ y hy => ⟨y, hy, rfl, rfl⟩⟩

theorem trans {s s' s'' : Store} (h₁ : Thinned s s') (h₂ : Thinned s' s'') : Thinned s s'' := by
  refine ⟨h₂.size.trans h₁.size, ?_⟩
  intro v z hz
  obtain ⟨y, hy, hp, hl⟩ := h₂.vertex v z hz
  obtain ⟨x, hx, hp', hl'⟩ := h₁.vertex v y hy
  exact ⟨x, hx, hp.trans hp', hl.trans hl'⟩

theorem addOwners (s : Store) (vs : List VertexId) : Thinned s (s.addOwners vs) := by
  refine ⟨size_addOwners s vs, ?_⟩
  intro v y hy
  rw [vertex?_addOwners] at hy
  obtain ⟨x, hx, rfl⟩ := Option.map_eq_some_iff.mp hy
  exact ⟨x, hx, rfl, rfl⟩

theorem dropOwner (s : Store) (v : VertexId) : Thinned s (s.dropOwner v) := by
  refine ⟨size_modify s v _, ?_⟩
  intro w y hy
  rw [vertex?_dropOwner] at hy
  obtain ⟨x, hx, rfl⟩ := Option.map_eq_some_iff.mp hy
  exact ⟨x, hx, rfl, rfl⟩

theorem erase (s : Store) (v : VertexId) : Thinned s (s.erase v) := by
  refine ⟨size_erase s v, ?_⟩
  intro w y hy
  rw [vertex?_erase] at hy
  split at hy
  · cases hy
  · exact ⟨y, hy, rfl, rfl⟩

/-- **A release thins a store out.** -/
theorem release (s : Store) (work : List VertexId) : Thinned s (s.release work) := by
  induction s, work using Store.release.induct with
  | case1 s =>
    rw [Store.release]
    exact refl s
  | case2 s v rest hx ih =>
    rw [release_dead hx]
    exact ih
  | case3 s v rest x hx hlast ih =>
    rw [release_last hx hlast]
    exact (erase s v).trans ih
  | case4 s v rest x hx hstay ih =>
    rw [release_owned hx hstay]
    exact (dropOwner s v).trans ih

end Thinned

/-! ## Giving handles back -/

theorem drop_eq {h : Handle} (ht : s.target? h = some v) : s.drop h = (s.unbound h).release [v] := by
  simp only [drop, ht]
  rfl

theorem drop_of_none {h : Handle} (ht : s.target? h = none) : s.drop h = s := by
  simp only [drop, ht]

/-- **A handle given back** is bound to nothing, and nothing else changes. -/
theorem Balanced.drop {h : Handle} (hb : s.Balanced loose) :
    (s.drop h).Balanced loose ∧ ChangesOnly s (s.drop h) loose {.handle h}
      ∧ (s.drop h).target? h = none := by
  cases ht : s.target? h with
  | none =>
    rw [drop_of_none ht]
    exact ⟨hb, .refl s loose _, ht⟩
  | some v =>
    rw [drop_eq ht]
    have hb' : (s.unbound h).Balanced fun u => loose u + [v].count u := by
      refine hb.unbind ht fun u => ?_
      rw [List.count_singleton]
      simp only [beq_iff_eq]
    obtain ⟨hbal, hchg⟩ := hb'.release
    have hunbind : ChangesOnly s (s.unbound h) loose {.handle h} := by
      refine ⟨Array.size_setIfInBounds, fun g hg => ?_, fun u x _ hx => ⟨x, hx, rfl, rfl⟩,
        fun _ _ _ _ => rfl⟩
      rw [target?_unbound, if_neg fun e => hg (by rw [e]; rfl)]
    refine ⟨hbal, hunbind.trans (hchg.mono (Set.empty_subset _)), ?_⟩
    rw [target?_congr (handles_release _ _), target?_unbound, if_pos rfl]

end Store

end ExprGraph

import ExprGraph.Proofs.Moves
/-!
  Vertices without owners do not stay.

  A new vertex comes without owners and waits for its first one; until then every other vertex has an owner
  (`Store.Owned`).  A step of an operation ends with no vertex waiting (`Step.owned`): the vertex that was
  made is bound to a handle, the copies in a deep copy are linked to one another, and what loses its last
  owner is taken out (`Owned.move`).

    * state      the store, and the vertices that wait for an owner;
    * invariant  every other live vertex has an owner, and no pin keeps one that has none (`Store.Owned`);
    * deep copy  a copy waits until a copy of a parent is linked to it (`Owned.cloneVertex`); in the end this is
                 the copy of the root alone, which gets the handle.
-/

namespace ExprGraph

namespace Store

variable {apply : Operator.Interpretation} {s s' : Store} {loose : VertexId → Nat} {edited : Set Handle}
  {waiting waiting' : Set VertexId} {p : Place} {u v w : VertexId} {x : Vertex} {vs : List VertexId}

/-- **Every live vertex has an owner**, but for those that wait for one, and nothing is pinned. -/
structure Owned (s : Store) (waiting : Set VertexId) : Prop where
  pinned : s.pinned = []
  pos : ∀ v x, s.vertex? v = some x → v ∉ waiting → 0 < x.owners

namespace Owned

theorem empty : Store.empty.Owned ∅ where
  pinned := rfl
  pos v _ hx := absurd (lt_size_of_vertex? hx) (Nat.not_lt_zero v)

/-- More may wait. -/
theorem mono (ho : s.Owned waiting) (hsub : waiting ⊆ waiting') : s.Owned waiting' where
  pinned := ho.pinned
  pos v x hx hv := ho.pos v x hx fun hm => hv (hsub hm)

/-! ## Putting in -/

/-- Vertices taken hold of wait no longer. -/
theorem addOwners (ho : s.Owned waiting) (hsub : ∀ v ∈ waiting, v ∉ vs → v ∈ waiting') :
    (s.addOwners vs).Owned waiting' where
  pinned := by rw [pinned_addOwners, ho.pinned]
  pos v y hy hv := by
    rw [vertex?_addOwners] at hy
    obtain ⟨x, hx, rfl⟩ := Option.map_eq_some_iff.mp hy
    show 0 < x.owners + vs.count v
    by_cases hmem : v ∈ vs
    · have hcount := List.count_pos_iff.mpr hmem
      omega
    · have hpos := ho.pos v x hx fun hm => hv (hsub v hm hmem)
      omega

/-- A new vertex comes with owners, or waits for one. -/
theorem insert (ho : s.Owned waiting) (hsub : waiting ⊆ waiting')
    (hx : 0 < x.owners ∨ s.vertices.size ∈ waiting') : (s.insert x).2.Owned waiting' where
  pinned := ho.pinned
  pos v y hy hv := by
    rw [vertex?_insert] at hy
    by_cases hvs : v = s.vertices.size
    · rw [if_pos hvs] at hy
      obtain rfl := Option.some.inj hy
      exact hx.resolve_right fun hm => hv (hvs ▸ hm)
    · rw [if_neg hvs] at hy
      exact ho.pos v y hy fun hm => hv (hsub hm)

/-- A vertex that gets a handle waits no longer. -/
theorem bind (ho : s.Owned {v}) : (s.bind v).2.Owned ∅ := by
  have hadd : (s.addOwners [v]).Owned ∅ := by
    refine ho.addOwners fun u hu hnot => ?_
    obtain rfl := Set.mem_singleton_iff.mp hu
    exact absurd List.mem_cons_self hnot
  exact ⟨hadd.pinned, hadd.pos⟩

/-! ## Moves -/

/-- **A move takes the last owner from no vertex** that it leaves in the store, when nothing is pinned. -/
theorem move (ho : s.Owned ∅) (hm : Move s s') : s'.Owned ∅ := by
  cases hm with
  | addOwners vs => exact ho.addOwners fun v hv _ => hv
  | insert hpos => exact ho.insert (Set.Subset.refl _) (.inl hpos)
  | rebind p w =>
    refine ⟨by cases p <;> exact ho.pinned, fun u y hy hu => ?_⟩
    rw [vertex?_rebind] at hy
    obtain ⟨x, hx, rfl⟩ := Option.map_eq_some_iff.mp hy
    rw [Vertex.owners_rebound]
    exact ho.pos u x hx hu
  | unbind h => exact ⟨ho.pinned, ho.pos⟩
  | modify hf =>
    refine ⟨ho.pinned, fun u y hy hu => ?_⟩
    obtain ⟨x, hx, rfl⟩ := vertex?_modify_eq_some_iff.mp hy
    have hpos := ho.pos u x hx hu
    split
    · rw [hf]
      exact hpos
    · exact hpos
  | @dropOwner v x hx hstay =>
    -- nothing is pinned, so a vertex that stays has another owner
    have hlt : 1 < x.owners := by
      by_contra hle
      refine hstay ⟨by omega, ?_⟩
      rw [ho.pinned]
      exact List.not_mem_nil
    refine ⟨ho.pinned, fun u y hy hu => ?_⟩
    rw [vertex?_dropOwner] at hy
    obtain ⟨z, hz, rfl⟩ := Option.map_eq_some_iff.mp hy
    have hpos := ho.pos u z hz hu
    show 0 < z.owners - if v = u then 1 else 0
    by_cases hvu : v = u
    · subst hvu
      obtain rfl := Option.some.inj (hx.symm.trans hz)
      rw [if_pos rfl]
      omega
    · rw [if_neg hvu]
      omega
  | erase hx hpin =>
    refine ⟨ho.pinned, fun u y hy hu => ?_⟩
    rw [vertex?_erase] at hy
    split at hy
    · cases hy
    · exact ho.pos u y hy hu

theorem moves (ho : s.Owned ∅) (hm : Moves s s') : s'.Owned ∅ := by
  induction hm with
  | refl => exact ho
  | tail _ hstep ih => exact ih.move hstep

end Owned

/-! ## Deep copies -/

/-- The copies to which no copy of a parent is linked yet. -/
def unlinked (s : Store) (vs : List VertexId) (copies : Array (Option VertexId)) : Set VertexId :=
  {w | ∃ u ∈ vs, copies[u]? = some (some w) ∧ ∀ a ∈ vs, u ∉ s.children a}

/-- **A new copy waits, and those of its children wait no longer.** -/
theorem Owned.cloneVertex {fresh : Nat} {copies : Array (Option VertexId)}
    (ho : s'.Owned (unlinked s vs copies)) (hc : Copied s loose fresh vs copies s')
    (hf : s.ChildrenFirst vs) (hx : s.vertex? v = some x) (hmem : ∀ w ∈ x.children, w ∈ vs)
    (hv : v ∉ vs) :
    (Store.cloneVertex fresh (copies, s') v).2.Owned
      (unlinked s (v :: vs) (Store.cloneVertex fresh (copies, s') v).1) := by
  obtain ⟨n, hx'⟩ := hc.vertex v x hx
  simp only [Store.cloneVertex, hx']
  have hlinks : (x.links.map (List.map fun u => (copies[u]?.join).getD u)).getD []
      = x.children.map fun u => (copies[u]?.join).getD u := by
    unfold Vertex.children
    cases x.links <;> rfl
  rw [hlinks]
  have hlt : v < copies.size := by
    rw [hc.size]
    exact lt_size_of_vertex? hx
  -- the copies that still wait when those of the children are linked
  have hadd : (s'.addOwners (x.children.map fun u => (copies[u]?.join).getD u)).Owned
      {w | w ∈ unlinked s vs copies ∧ w ∉ x.children.map fun u => (copies[u]?.join).getD u} :=
    ho.addOwners fun w hw hnot => ⟨hw, hnot⟩
  refine hadd.insert ?_ (.inr ?_)
  · rintro w ⟨⟨u, hu, hcopy, hnone⟩, hnot⟩
    have hne : v ≠ u := fun heq => hv (heq ▸ hu)
    refine ⟨u, List.mem_cons_of_mem v hu, ?_, fun a ha hua => ?_⟩
    · rw [Array.getElem?_setIfInBounds, if_neg hne, hcopy]
    · rcases List.mem_cons.mp ha with rfl | ha
      · rw [children_of_vertex? hx] at hua
        refine hnot (List.mem_map.mpr ⟨u, hua, ?_⟩)
        rw [hcopy]
        rfl
      · exact hnone a ha hua
  · -- nothing that was copied before has the vertex as a child
    refine ⟨v, List.mem_cons_self, Array.getElem?_setIfInBounds_self_of_lt hlt, fun a ha hva => ?_⟩
    rcases List.mem_cons.mp ha with rfl | ha
    · rw [children_of_vertex? hx] at hva
      exact hv (hmem a hva)
    · exact hv (hf.child ha hva)

/-- All vertices of a list with children first are copied. -/
theorem Owned.cloneVertices (ho : s.Owned ∅) (hb : s.Balanced loose) (fresh : Nat)
    (hvs : s.ChildrenFirst vs) :
    (vs.reverse.foldl (Store.cloneVertex fresh) (Array.replicate s.vertices.size none, s)).2.Owned
      (unlinked s vs
        (vs.reverse.foldl (Store.cloneVertex fresh) (Array.replicate s.vertices.size none, s)).1) := by
  induction hvs with
  | nil => exact ho.mono (Set.empty_subset _)
  | cons hx hc hv hf ih =>
    rw [List.reverse_cons, List.foldl_append]
    exact ih.cloneVertex (hb.copied_all fresh hf) hf hx hc hv

/-- **In a deep copy nothing waits in the end**: every vertex of a tree but the root has a parent there. -/
theorem Owned.clone {h : Handle} {r : Handle × Store} (ho : s.Owned ∅) (hb : s.Balanced loose)
    (hr : s.clone h = .ok r) : r.2.Owned ∅ := by
  obtain ⟨v, copies, s', hv, hfold, rfl⟩ := clone_eq_ok hr
  obtain ⟨t, -, -, ht⟩ := (hb.root_agree h).exists_of_ok hv
  obtain ⟨hfirst, hmem⟩ := ht.childrenFirst_finished
  have hcopied := hb.copied_all s.nextCopy hfirst
  have howned := ho.cloneVertices hb s.nextCopy hfirst
  rw [List.reverse_reverse, hfold] at hcopied howned
  obtain ⟨w, hw, -⟩ := hcopied.copy v (List.mem_reverse.mpr hmem)
  have hroot : (copies[v]?.join).getD v = w := by
    rw [hw]
    rfl
  have hsub : unlinked s (s.finished [v]).reverse copies ⊆ {w} := by
    rintro a ⟨u, hu, hcopy, hnone⟩
    rcases Relation.ReflTransGen.cases_tail (reaches_of_mem_finished (List.mem_reverse.mp hu))
      with rfl | ⟨b, hvb, hub⟩
    · exact Set.mem_singleton_iff.mpr (Option.some.inj (Option.some.inj (hcopy.symm.trans hw)))
    · exact absurd hub (hnone b (hfirst.reaches (List.mem_reverse.mpr hmem) hvb))
  rw [hroot]
  exact (howned.mono hsub).bind

/-! ## Steps -/

/-- **After a step no vertex waits for an owner.** -/
theorem Step.owned (hs : Step apply edited s s') (hb : s.Balanced loose) (ho : s.Owned ∅) :
    s'.Owned ∅ := by
  cases hs with
  | make p =>
    have hnew : (s.insert ⟨p, none, 0⟩).2.Owned {s.vertices.size} :=
      ho.insert (Set.empty_subset _) (.inr (Set.mem_singleton _))
    exact hnew.bind
  | makeLinked hr =>
    obtain ⟨vs, -, rfl⟩ := makeLinked_eq_ok hr
    have hadd : (s.addOwners vs).Owned ∅ := ho.addOwners fun v hv _ => hv
    refine (hadd.insert (Set.empty_subset _) (.inr ?_)).bind
    rw [size_addOwners]
    exact Set.mem_singleton _
  | bind hx => exact (ho.mono (Set.empty_subset _)).bind
  | clone hr => exact ho.clone hb hr
  | link _ hc => exact ho.moves (moves_link hc)
  | fold _ => exact ho.moves (moves_foldWith apply _ _)
  | drop g => exact ho.moves (moves_drop s g)
  | reserve n => exact ⟨ho.pinned, ho.pos⟩

theorem Steps.owned (hs : Steps apply edited s s') (hb : s.Balanced loose) (ho : s.Owned ∅) :
    s'.Owned ∅ := by
  induction hs with
  | refl => exact ho
  | tail hrest hstep ih => exact hstep.owned (Steps.balanced hrest hb) ih

/-! ## What owners lead to -/

/-- **Every vertex is reached from a handle** when all owners are handles and links: going up from parent to
    parent ends, since the terms get higher. -/
theorem Owned.exists_handle (ho : s.Owned ∅) (hb : s.Balanced fun _ => 0)
    (hx : s.vertex? v = some x) : ∃ h u, s.target? h = some u ∧ s.Reaches u v := by
  obtain ⟨t, ht⟩ := hb.unfolds v x hx
  generalize hn : s.vertices.size - t.height = n
  induction n using Nat.strongRecOn generalizing v x t with
  | ind n ih =>
    have hpos := ho.pos v x hx (Set.notMem_empty v)
    have hown : x.owners = s.bound v + 0 := hb.owners v x hx
    have hplace : ∃ q, s.at? q = some v := by
      by_contra hnone
      have hzero := bound_eq_zero fun q hq => hnone ⟨q, hq⟩
      omega
    obtain ⟨q, hq⟩ := hplace
    cases q with
    | handle h => exact ⟨h, v, hq, .refl⟩
    | link u i =>
      obtain ⟨y, hy, hyi⟩ := exists_vertex_of_at?_link hq
      obtain ⟨c, hc⟩ := hb.unfolds u y hy
      obtain ⟨t', ht', hvt'⟩ := Pointwise.exists_right (hc.children hy).2.2 (List.mem_of_getElem? hyi)
      obtain rfl := hvt'.unique ht
      have hlt := Term.height_lt ht'
      have hle := hc.height_le_size
      obtain ⟨h, a, ha, hr⟩ := ih _ (by omega) hy c hc rfl
      exact ⟨h, a, ha, hr.tail (mem_children_of_at? hq)⟩

end Store

namespace Session

/-- **After every run every vertex has an owner.** -/
theorem owned_run (apply : Operator.Interpretation) (ops : List Operation) :
    (run apply ops).store.Owned ∅ := by
  refine (balanced_run_induction (motive := fun s => s.store.Owned ∅) .empty (fun s op hb ho => ?_) ops).2
  exact (perform_steps apply hb op).owned hb ho

end Session

end ExprGraph

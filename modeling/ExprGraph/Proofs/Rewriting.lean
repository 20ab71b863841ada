import ExprGraph.Proofs.Release
/-!
  Binding a place elsewhere, and giving a vertex new contents.

  Both change what one vertex leads to.  Vertices from which the changed vertex is not reached keep their
  terms; all others still have one, as long as the new children do not reach the changed vertex.
-/

namespace ExprGraph

/-- A vertex when a place is bound elsewhere: the link changes if it is one of this vertex. -/
def Vertex.rebound (p : Place) (w u : VertexId) (x : Vertex) : Vertex :=
  match p with
  | .handle _ => x
  | .link v i => if v = u then { x with links := x.links.map fun vs => vs.set i w } else x

namespace Vertex

variable {p : Place} {w u : VertexId} {x : Vertex}

@[simp] theorem payload_rebound : (x.rebound p w u).payload = x.payload := by
  unfold rebound
  split
  · rfl
  · split <;> rfl

@[simp] theorem owners_rebound : (x.rebound p w u).owners = x.owners := by
  unfold rebound
  split
  · rfl
  · split <;> rfl

@[simp] theorem length_links_rebound :
    (x.rebound p w u).links.map List.length = x.links.map List.length := by
  unfold rebound
  split
  · rfl
  · split
    · cases x.links <;> simp
    · rfl

theorem rebound_of_ne (h : ∀ i, p ≠ .link u i) : x.rebound p w u = x := by
  unfold rebound
  split
  · rfl
  · next v i =>
    refine if_neg ?_
    rintro rfl
    exact h i rfl

theorem children_rebound_link (i : Nat) : (x.rebound (.link u i) w u).children = x.children.set i w := by
  simp only [rebound, if_true, children]
  cases x.links <;> rfl

end Vertex

namespace Store

variable {s s' : Store} {loose loose' : VertexId → Nat} {p q : Place} {u v w : VertexId} {x y : Vertex}
  {t c : Term}

/-! ## Terms after a change of one vertex -/

/-- The links lead down: a vertex does not reach one with a higher term. -/
theorem Unfolds.not_reaches_of_height_lt (ht : s.Unfolds v t) (hc : s.Unfolds w c)
    (hlt : t.height < c.height) : ¬ s.Reaches v w := by
  intro hr
  obtain ⟨u, hu, hle⟩ := ht.of_reaches hr
  obtain rfl := hu.unique hc
  omega

/-- **Terms that do not contain the changed vertex stay.** -/
theorem Unfolds.past (hs : ∀ u x, u ≠ v → s.vertex? u = some x →
      ∃ n, s'.vertex? u = some { x with owners := n })
    (hr : ¬ s.Reaches w v) (ht : s.Unfolds w t) : s'.Unfolds w t := by
  refine ht.transport (fun u => ¬ s.Reaches u v) (fun u x hu hx => ⟨?_, fun c hc hcv => ?_⟩) hr
  · exact hs u x (by rintro rfl; exact hu .refl) hx
  · rw [← children_of_vertex? hx] at hc
    exact hu (.head hc hcv)

/-- Terms that do not contain the vertex of a place stay when only that vertex changes. -/
theorem Unfolds.past_place (ht : s.Unfolds w t) (hr : ∀ u i, p = .link u i → ¬ s.Reaches w u)
    (hs : ∀ a z, (∀ i, p ≠ .link a i) → s.vertex? a = some z →
      ∃ n, s'.vertex? a = some { z with owners := n }) : s'.Unfolds w t := by
  cases p with
  | handle h => exact ht.of_owners fun a z hz => hs a z (by simp) hz
  | link u i => exact ht.past (fun a z ha hz => hs a z (by simp [ha.symm]) hz) (hr u i rfl)

/-- **Every term has a successor** when the changed vertex has one. -/
theorem Unfolds.exists_after (hs : ∀ u x, u ≠ v → s.vertex? u = some x →
      ∃ n, s'.vertex? u = some { x with owners := n })
    (hv : ∃ c, s'.Unfolds v c) (ht : s.Unfolds u t) : ∃ c, s'.Unfolds u c := by
  induction t generalizing u with
  | step t ih =>
    by_cases huv : u = v
    · exact huv ▸ hv
    · obtain ⟨x, hx⟩ := ht.exists_vertex
      obtain ⟨n, hn⟩ := hs u x huv hx
      have hchild : ∀ w ∈ x.children, ∃ c, s'.Unfolds w c := by
        intro w hw
        obtain ⟨c, hc, hwc⟩ := Pointwise.exists_right (ht.children hx).2.2 hw
        exact ih c hc hwc
      exact exists_unfolds_of_children hn hchild

/-! ## Binding a place elsewhere -/

@[simp] theorem vertex?_rebind (s : Store) (p : Place) (w u : VertexId) :
    (s.rebind p w).vertex? u = (s.vertex? u).map (Vertex.rebound p w u) := by
  cases p with
  | handle h =>
    show s.vertex? u = _
    cases s.vertex? u <;> rfl
  | link v i =>
    show (s.modify v _).vertex? u = _
    rw [vertex?_modify]
    by_cases hvu : v = u
    · rw [if_pos hvu]
      cases s.vertex? u with
      | none => rfl
      | some x => simp only [Option.map_some, Vertex.rebound, if_pos hvu]
    · rw [if_neg hvu]
      cases s.vertex? u with
      | none => rfl
      | some x => simp only [Option.map_some, Vertex.rebound, if_neg hvu]

theorem target?_rebind_handle {h : Handle} (ht : s.target? h = some v) (g : Handle) :
    (s.rebind (.handle h) w).target? g = if g = h then some w else s.target? g := by
  show ((s.handles.modify h fun _ => some w)[g]?).join = _
  rw [Array.getElem?_modify]
  by_cases hgh : g = h
  · rw [if_pos hgh, if_pos hgh.symm]
    have hlt := lt_size_of_target? ht
    rw [hgh, Array.getElem?_eq_getElem hlt]
    rfl
  · rw [if_neg hgh, if_neg fun e => hgh e.symm]
    rfl

/-- **A place bound elsewhere** is bound there, and every other place as before. -/
theorem at?_rebind (hp : s.at? p = some v) (q : Place) :
    (s.rebind p w).at? q = if q = p then some w else s.at? q := by
  cases p with
  | handle h =>
    cases q with
    | handle g =>
      rw [at?_handle, target?_rebind_handle hp]
      simp only [Place.handle.injEq]
      rfl
    | link u j =>
      rw [if_neg (by simp)]
      rfl
  | link u i =>
    obtain ⟨x, hx, hxi⟩ := exists_vertex_of_at?_link hp
    cases q with
    | handle g =>
      rw [if_neg (by simp)]
      rfl
    | link u' j =>
      rw [at?_link, at?_link]
      by_cases hu : u' = u
      · subst hu
        have hx' : (s.rebind (.link u' i) w).vertex? u' = some (x.rebound (.link u' i) w u') := by
          rw [vertex?_rebind, hx]
          rfl
        rw [children_of_vertex? hx', children_of_vertex? hx, Vertex.children_rebound_link]
        obtain ⟨hi, -⟩ := List.getElem?_eq_some_iff.mp hxi
        by_cases hji : j = i
        · subst hji
          rw [if_pos rfl, List.getElem?_set_self hi]
        · rw [if_neg (by simp [hji]), List.getElem?_set_ne fun e => hji e.symm]
      · rw [if_neg (by simp [hu])]
        have hc : (s.rebind (.link u i) w).children u' = s.children u' := by
          unfold children
          rw [vertex?_rebind]
          cases s.vertex? u' with
          | none => rfl
          | some y =>
            simp only [Option.map_some]
            rw [Vertex.rebound_of_ne fun j e => hu (Place.link.inj e).1.symm]
        rw [hc]

/-- A place bound elsewhere counts there. -/
theorem bound_rebind (hp : s.at? p = some v) (a : VertexId) :
    (s.rebind p w).bound a + (if v = a then 1 else 0) = s.bound a + if w = a then 1 else 0 := by
  cases p with
  | handle h =>
    have ht : s.target? h = some v := hp
    have hother : ∀ g, g ≠ h → (s.rebind (.handle h) w).target? g = s.target? g := by
      intro g hg
      rw [target?_rebind_handle ht, if_neg hg]
    have hvertices : (s.rebind (.handle h) w).vertices = s.vertices := rfl
    have hcount := bound_of_handle hvertices Array.size_modify (lt_size_of_target? ht) hother a
    rw [target?_rebind_handle ht, if_pos rfl, ht] at hcount
    simpa only [Option.some.injEq] using hcount
  | link u i =>
    obtain ⟨x, hx, hxi⟩ := exists_vertex_of_at?_link hp
    obtain ⟨hi, hget⟩ := List.getElem?_eq_some_iff.mp hxi
    have hmod := bound_modify hx (fun x => { x with links := x.links.map fun vs => vs.set i w }) a
    have hset : ({ x with links := x.links.map fun vs => vs.set i w } : Vertex).children
        = x.children.set i w := by
      unfold Vertex.children
      cases x.links <;> rfl
    rw [hset, List.count_set hi, hget] at hmod
    simp only [beq_iff_eq] at hmod
    have hin : v = a → 0 < x.children.count a := by
      rintro rfl
      exact List.count_pos_iff.mpr (List.mem_of_getElem? hxi)
    show (s.modify u _).bound a + _ = _
    split at hmod
    · next hva =>
      have hpos := hin hva
      rw [if_pos hva]
      omega
    · next hva =>
      rw [if_neg hva]
      omega

/-- Binding a place elsewhere changes nothing without that place. -/
theorem changesOnly_rebind (hp : s.at? p = some v) (w : VertexId) :
    ChangesOnly s (s.rebind p w) loose {p} where
  size := by
    cases p with
    | handle h => exact Array.size_modify
    | link u i => rfl
  handle h hh := by
    have hat := at?_rebind (w := w) hp (.handle h)
    rwa [if_neg (fun e => hh (Set.mem_singleton_iff.mpr e))] at hat
  vertex u x _ hx := by
    refine ⟨x.rebound p w u, by rw [vertex?_rebind, hx]; rfl, ?_, ?_⟩
    · exact Vertex.payload_rebound
    · exact Vertex.length_links_rebound
  link u i _ hi := by
    rw [at?_rebind hp, if_neg fun e => hi (Set.mem_singleton_iff.mpr e)]

/-- Every vertex still unfolds after a place was bound to a vertex that does not reach it. -/
theorem Balanced.exists_unfolds_rebind (hb : s.Balanced loose) (hp : s.at? p = some v)
    (hx : s.vertex? w = some x) (hr : ∀ u i, p = .link u i → ¬ s.Reaches w u)
    (hy : s.vertex? u = some y) : ∃ t, (s.rebind p w).Unfolds u t := by
  have hkeep : ∀ a z, s.vertex? a = some z → (s.rebind p w).vertex? a = some (z.rebound p w a) := by
    intro a z hz
    rw [vertex?_rebind, hz]
    rfl
  obtain ⟨t, ht⟩ := hb.unfolds u y hy
  cases p with
  | handle h => exact ⟨t, ht.of_owners fun a z hz => ⟨z.owners, hkeep a z hz⟩⟩
  | link b i =>
    have hs : ∀ a z, a ≠ b → s.vertex? a = some z →
        ∃ n, (s.rebind (.link b i) w).vertex? a = some { z with owners := n } := by
      intro a z ha hz
      refine ⟨z.owners, ?_⟩
      rw [hkeep a z hz, Vertex.rebound_of_ne fun j e => ha (Place.link.inj e).1.symm]
    refine ht.exists_after hs ?_
    -- the children of the changed vertex do not reach it, so they keep their terms
    obtain ⟨z, hz, -⟩ := exists_vertex_of_at?_link hp
    refine exists_unfolds_of_children (hkeep b z hz) fun a ha => ?_
    rw [Vertex.children_rebound_link] at ha
    obtain ⟨tb, htb⟩ := hb.unfolds b z hz
    rcases List.mem_or_eq_of_mem_set ha with ha | rfl
    · rw [← children_of_vertex? hz] at ha
      obtain ⟨y', hy'⟩ := hb.child ha
      obtain ⟨ta, hta⟩ := hb.unfolds a y' hy'
      exact ⟨ta, hta.past hs (htb.not_reaches_of_child ha)⟩
    · obtain ⟨ta, hta⟩ := hb.unfolds a x hx
      exact ⟨ta, hta.past hs (hr b i rfl)⟩

/-- **A place bound elsewhere in a balanced store**: the owner of the old vertex gets loose, and the new one
    uses up a loose owner. -/
theorem Balanced.rebind (hb : s.Balanced loose) (hp : s.at? p = some v) (hx : s.vertex? w = some x)
    (hr : ∀ u i, p = .link u i → ¬ s.Reaches w u)
    (hl : ∀ a, loose' a + (if w = a then 1 else 0) = loose a + if v = a then 1 else 0) :
    (s.rebind p w).Balanced loose' := by
  have hkeep : ∀ u y, s.vertex? u = some y → ∃ z, (s.rebind p w).vertex? u = some z := by
    intro u y hy
    exact ⟨y.rebound p w u, by rw [vertex?_rebind, hy]; rfl⟩
  refine ⟨fun h u ht => ?_, fun u hu => ?_, fun u y hy => ?_, fun u y hy => ?_⟩
  · have hat := at?_rebind (w := w) hp (.handle h)
    rw [at?_handle, ht] at hat
    split at hat
    · obtain rfl := Option.some.inj hat
      exact hkeep u x hx
    · obtain ⟨y, hy⟩ := hb.handle_live h u hat.symm
      exact hkeep u y hy
  · have hlive : ∃ y, s.vertex? u = some y := by
      have hlu := hl u
      by_cases hvu : v = u
      · exact hvu ▸ hb.at? hp
      · rw [if_neg hvu] at hlu
        exact hb.loose_live u (by omega)
    obtain ⟨y, hy⟩ := hlive
    exact hkeep u y hy
  · rw [vertex?_rebind] at hy
    obtain ⟨z, hz, -⟩ := Option.map_eq_some_iff.mp hy
    exact hb.exists_unfolds_rebind hp hx hr hz
  · rw [vertex?_rebind] at hy
    obtain ⟨z, hz, rfl⟩ := Option.map_eq_some_iff.mp hy
    have hown := hb.owners u z hz
    have hcount := bound_rebind (w := w) hp u
    have hlu := hl u
    rw [Vertex.owners_rebound]
    omega

/-! ## New contents -/

/-- **A vertex with new contents in a balanced store**: the new links use up loose owners, and the old ones
    leave theirs loose. -/
theorem Balanced.modify {payload : Payload} {links : Option (List VertexId)} (hb : s.Balanced loose)
    (hx : s.vertex? v = some x) (hlive : ∀ w ∈ links.getD [], ∃ y, s.vertex? w = some y)
    (hr : ∀ w ∈ links.getD [], ¬ s.Reaches w v)
    (hl : ∀ a, loose' a + (links.getD []).count a = loose a + x.children.count a) :
    (s.modify v fun x => { x with payload, links }).Balanced loose' := by
  have hs : ∀ a z, a ≠ v → s.vertex? a = some z → ∃ n,
      (s.modify v fun x => { x with payload, links }).vertex? a = some { z with owners := n } := by
    intro a z ha hz
    exact ⟨z.owners, by rw [vertex?_modify, if_neg fun e => ha e.symm, hz]⟩
  have hself : (s.modify v fun x => { x with payload, links }).vertex? v
      = some ⟨payload, links, x.owners⟩ := by
    rw [vertex?_modify, if_pos rfl, hx]
    rfl
  have hkeep : ∀ a z, s.vertex? a = some z →
      ∃ y, (s.modify v fun x => { x with payload, links }).vertex? a = some y :=
    fun a z hz => ⟨_, vertex?_modify_eq_some_iff.mpr ⟨z, hz, rfl⟩⟩
  refine ⟨fun h u ht => ?_, fun u hu => ?_, fun u y hy => ?_, fun u y hy => ?_⟩
  · obtain ⟨z, hz⟩ := hb.handle_live h u ht
    exact hkeep u z hz
  · have hlu := hl u
    have hpos : 0 < loose u ∨ 0 < x.children.count u := by omega
    obtain ⟨z, hz⟩ := hpos.elim (hb.loose_live u) (hb.child_of_count hx)
    exact hkeep u z hz
  · obtain ⟨z, hz, -⟩ := vertex?_modify_eq_some_iff.mp hy
    obtain ⟨t, ht⟩ := hb.unfolds u z hz
    refine ht.exists_after hs (exists_unfolds_of_children hself fun w hw => ?_)
    obtain ⟨y', hy'⟩ := hlive w hw
    obtain ⟨tw, htw⟩ := hb.unfolds w y' hy'
    exact ⟨tw, htw.past hs (hr w hw)⟩
  · obtain ⟨z, hz, heq⟩ := vertex?_modify_eq_some_iff.mp hy
    have hsame : y.owners = z.owners := by
      rw [heq]
      split <;> rfl
    have hown := hb.owners u z hz
    have hcount := bound_modify hx (fun x => { x with payload, links }) u
    have hlu := hl u
    have hnew : ({ x with payload, links } : Vertex).children = links.getD [] := rfl
    rw [hnew] at hcount
    omega

/-- New contents of a vertex change nothing without the only place it is reached by. -/
theorem changesOnly_modify (hv : ¬ s.Held loose {p} v) (f : Vertex → Vertex) :
    ChangesOnly s (s.modify v f) loose {p} where
  size := rfl
  handle _ _ := rfl
  vertex u x hu hx := by
    have hne : v ≠ u := by rintro rfl; exact hv hu
    exact ⟨x, by rw [vertex?_modify, if_neg hne, hx], rfl, rfl⟩
  link u i hu _ := by
    have hne : v ≠ u := by rintro rfl; exact hv hu
    rw [at?_link, at?_link]
    unfold children
    rw [vertex?_modify, if_neg hne]

end Store

end ExprGraph

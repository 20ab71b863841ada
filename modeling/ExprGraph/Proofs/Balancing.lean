import ExprGraph.Proofs.Holding
/-!
  Elementary changes of balanced stores.

  Each elementary change turns a balanced store into a balanced one, with loose owners that differ by what
  the change does to the owner counts and to what is bound.  In every rule the loose owners after the change
  are whatever makes the counts right, so the rules can be put together without rewriting one sum into
  another.
-/

namespace ExprGraph

namespace Store

variable {s s' : Store} {loose loose' : VertexId → Nat} {u v w : VertexId} {x y : Vertex} {t : Term}

/-- **Terms do not depend on owners**: what changes in its owners only unfolds as before. -/
theorem Unfolds.of_owners (hs : ∀ u x, s.vertex? u = some x →
      ∃ n, s'.vertex? u = some { x with owners := n }) (ht : s.Unfolds v t) : s'.Unfolds v t :=
  ht.transport (fun _ => True) (fun w x _ hx => ⟨hs w x hx, fun _ _ => trivial⟩) trivial

/-- Terms do not depend on the numbers taken for functions. -/
theorem Unfolds.reserve (ht : s.Unfolds v t) (n : Nat) : (s.reserve n).Unfolds v t := by
  have hkeep : ∀ u x, s.vertex? u = some x → ∃ k, (s.reserve n).vertex? u = some { x with owners := k } :=
    fun u x hx => ⟨x.owners, hx⟩
  exact ht.of_owners hkeep

theorem target?_congr (hs : s'.handles = s.handles) (h : Handle) : s'.target? h = s.target? h := by
  rw [target?, hs, target?]

/-- The store without a handle; no owners are counted. -/
def unbound (s : Store) (h : Handle) : Store := { s with handles := s.handles.setIfInBounds h none }

@[simp] theorem target?_unbound (s : Store) (h g : Handle) :
    (s.unbound h).target? g = if h = g then none else s.target? g := by
  show ((s.handles.setIfInBounds h none)[g]?).join = _
  rw [Array.getElem?_setIfInBounds]
  split
  · split <;> rfl
  · rfl

namespace Balanced

/-! ## Counting owners -/

/-- **Owners counted anew**: when vertices change in their owners only, the new counts have to be right and
    whatever is bound or loose has to be live; nothing else can go wrong. -/
theorem recount (hb : s.Balanced loose) (f : VertexId → Nat → Nat)
    (hv : ∀ u, s'.vertex? u = (s.vertex? u).map fun x => { x with owners := f u x.owners })
    (hh : ∀ h u, s'.target? h = some u → ∃ x, s.vertex? u = some x)
    (hl : ∀ u, 0 < loose' u → ∃ x, s.vertex? u = some x)
    (hown : ∀ u x, s.vertex? u = some x → f u x.owners = s'.bound u + loose' u) :
    s'.Balanced loose' := by
  have hkeep : ∀ u x, s.vertex? u = some x →
      s'.vertex? u = some { x with owners := f u x.owners } := by
    intro u x hx
    rw [hv, hx]
    rfl
  refine ⟨fun h u ht => ?_, fun u hu => ?_, fun u y hy => ?_, fun u y hy => ?_⟩
  · obtain ⟨x, hx⟩ := hh h u ht
    exact ⟨_, hkeep u x hx⟩
  · obtain ⟨x, hx⟩ := hl u hu
    exact ⟨_, hkeep u x hx⟩
  · rw [hv] at hy
    obtain ⟨x, hx, -⟩ := Option.map_eq_some_iff.mp hy
    obtain ⟨t, ht⟩ := hb.unfolds u x hx
    exact ⟨t, ht.of_owners fun w z hz => ⟨_, hkeep w z hz⟩⟩
  · rw [hv] at hy
    obtain ⟨x, hx, rfl⟩ := Option.map_eq_some_iff.mp hy
    exact hown u x hx

/-- Numbers that are taken for functions are not owners. -/
theorem reserve (hb : s.Balanced loose) (n : Nat) : (s.reserve n).Balanced loose where
  handle_live := hb.handle_live
  loose_live := hb.loose_live
  unfolds v x hx := by
    exact (hb.unfolds v x hx).imp fun t ht => ht.reserve n
  owners v x hx := by
    have hbound : (s.reserve n).bound v = s.bound v := bound_congr rfl rfl (fun _ => rfl) v
    rw [hbound]
    exact hb.owners v x hx

/-- Vertices taken hold of gain loose owners. -/
theorem addOwners {vs : List VertexId} (hb : s.Balanced loose)
    (hvs : ∀ v ∈ vs, ∃ x, s.vertex? v = some x) (hl : ∀ v, loose' v = loose v + vs.count v) :
    (s.addOwners vs).Balanced loose' := by
  refine hb.recount (fun u n => n + vs.count u) (vertex?_addOwners s vs) (fun h u ht => ?_)
    (fun u hu => ?_) fun u x hx => ?_
  · rw [target?_addOwners] at ht
    exact hb.handle_live h u ht
  · have hpos : 0 < loose u ∨ 0 < vs.count u := by rw [hl] at hu; omega
    exact hpos.elim (hb.loose_live u) fun hc => hvs u (List.count_pos_iff.mp hc)
  · have hown := hb.owners u x hx
    rw [bound_addOwners, hl]
    omega

/-- A vertex let go of loses a loose owner. -/
theorem dropOwner (hb : s.Balanced loose) (hl : ∀ u, loose u = loose' u + if v = u then 1 else 0) :
    (s.dropOwner v).Balanced loose' := by
  refine hb.recount (fun u n => n - if v = u then 1 else 0) (vertex?_dropOwner s v) hb.handle_live
    (fun u hu => ?_) fun u x hx => ?_
  · have hlu := hl u
    exact hb.loose_live u (by omega)
  · have hown := hb.owners u x hx
    have hlu := hl u
    rw [bound_dropOwner]
    omega

/-! ## Putting in and taking out -/

/-- **A new vertex** takes the owners of its children for its links, and comes with loose owners of its
    own. -/
theorem insert (hb : s.Balanced loose) (hcx : ∀ w ∈ x.children, ∃ y, s.vertex? w = some y)
    (hl : ∀ u, u ≠ s.vertices.size → loose u = loose' u + x.children.count u)
    (hown : loose' s.vertices.size = x.owners) : (s.insert x).2.Balanced loose' := by
  have hnew : ∀ u y, s.vertex? u = some y → u ≠ s.vertices.size :=
    fun u y hy => Nat.ne_of_lt (lt_size_of_vertex? hy)
  have hold : ∀ u y, s.vertex? u = some y → (s.insert x).2.vertex? u = some y := by
    intro u y hy
    rw [vertex?_insert, if_neg (hnew u y hy), hy]
  -- the children are live, and the number of the new vertex was not in use
  have hself : x.children.count s.vertices.size = 0 := by
    refine List.count_eq_zero.mpr fun hmem => ?_
    obtain ⟨y, hy⟩ := hcx _ hmem
    exact hnew _ y hy rfl
  have hterm : ∀ u t, s.Unfolds u t → (s.insert x).2.Unfolds u t :=
    fun u t ht => ht.of_owners fun w y hy => ⟨y.owners, hold w y hy⟩
  refine ⟨fun h u ht => ?_, fun u hu => ?_, fun u y hy => ?_, fun u y hy => ?_⟩
  · obtain ⟨y, hy⟩ := hb.handle_live h u ht
    exact ⟨y, hold u y hy⟩
  · by_cases hus : u = s.vertices.size
    · exact ⟨x, by rw [vertex?_insert, if_pos hus]⟩
    · have hlu := hl u hus
      obtain ⟨y, hy⟩ := hb.loose_live u (by omega)
      exact ⟨y, hold u y hy⟩
  · rw [vertex?_insert] at hy
    split at hy
    · next hus =>
      obtain rfl := Option.some.inj hy
      have hnew' : (s.insert x).2.vertex? u = some x := by rw [vertex?_insert, if_pos hus]
      refine exists_unfolds_of_children hnew' fun w hw => ?_
      obtain ⟨z, hz⟩ := hcx w hw
      obtain ⟨c, hc⟩ := hb.unfolds w z hz
      exact ⟨c, hterm w c hc⟩
    · obtain ⟨t, ht⟩ := hb.unfolds u y hy
      exact ⟨t, hterm u t ht⟩
  · rw [bound_insert]
    rw [vertex?_insert] at hy
    split at hy
    · next hus =>
      obtain rfl := Option.some.inj hy
      rw [hus, hown, hb.bound_of_none (vertex?_size s), hself]
      omega
    · next hus =>
      have h := hb.owners u y hy
      have hlu := hl u hus
      omega

/-- A new vertex leaves the live ones as they were, but for the owners it adds to its children. -/
theorem vertex?_insert_of_live (ws : List VertexId) (y : Vertex) (hx : s.vertex? v = some x) :
    ((s.addOwners ws).insert y).2.vertex? v = some { x with owners := x.owners + ws.count v } := by
  have hne : v ≠ (s.addOwners ws).vertices.size := by
    rw [size_addOwners]
    exact Nat.ne_of_lt (lt_size_of_vertex? hx)
  rw [vertex?_insert, if_neg hne, vertex?_addOwners, hx]
  rfl

/-- **A new vertex over live children** has the term made of theirs, and comes with loose owners. -/
theorem insert_over {p : Payload} {links : Option (List VertexId)} {ts : Option (List Term)}
    (hb : s.Balanced loose) (hts : Option.Rel (List.Forall₂ s.Unfolds) links ts) (n : Nat) :
    ((s.addOwners (links.getD [])).insert ⟨p, links, n⟩).2.Balanced
        (fun a => loose a + if s.vertices.size = a then n else 0)
      ∧ ((s.addOwners (links.getD [])).insert ⟨p, links, n⟩).2.Unfolds s.vertices.size (.make p ts) := by
  have hlive : ∀ w ∈ links.getD [], ∃ y, s.vertex? w = some y := by
    intro w hw
    obtain ⟨c, -, hc⟩ := Pointwise.exists_right (Pointwise.getD_nil hts) hw
    exact hc.exists_vertex
  have hb₁ : (s.addOwners (links.getD [])).Balanced fun a => loose a + (links.getD []).count a :=
    hb.addOwners hlive fun _ => rfl
  have hlive₁ : ∀ w ∈ links.getD [], ∃ y, (s.addOwners (links.getD [])).vertex? w = some y := by
    intro w hw
    obtain ⟨y, hy⟩ := hlive w hw
    exact ⟨_, by rw [vertex?_addOwners, hy]; rfl⟩
  -- the number of the new vertex was not in use, so no owner of it was loose
  have hfree : loose s.vertices.size = 0 := hb.loose_of_none (vertex?_size s)
  constructor
  · refine hb₁.insert hlive₁ (fun u hu => ?_) ?_
    · rw [size_addOwners] at hu
      rw [if_neg fun e => hu e.symm]
      show _ = loose u + 0 + (links.getD []).count u
      omega
    · rw [size_addOwners, if_pos rfl, hfree]
      exact Nat.zero_add n
  · refine unfolds_iff.mpr ⟨⟨p, links, n⟩, ?_, by simp, ?_⟩
    · rw [vertex?_insert, size_addOwners, if_pos rfl]
    · rw [Term.links_make]
      refine Pointwise.links_imp_mem hts fun w _ c _ hwc => ?_
      exact hwc.of_owners fun a z hz => ⟨_, vertex?_insert_of_live _ _ hz⟩

/-- **A vertex without handles and links goes** and leaves the owners of its children loose. -/
theorem erase (hb : s.Balanced loose) (hx : s.vertex? v = some x) (hbound : s.bound v = 0)
    (hl : ∀ u, u ≠ v → loose' u = loose u + x.children.count u) (hv : loose' v = 0) :
    (s.erase v).Balanced loose' := by
  have hfree : ∀ q, s.at? q ≠ some v := by
    intro q hq
    have hpos := bound_pos hq
    omega
  have hold : ∀ u, u ≠ v → (s.erase v).vertex? u = s.vertex? u := by
    intro u hu
    rw [vertex?_erase, if_neg fun e => hu e.symm]
  have hne : ∀ u y, (s.erase v).vertex? u = some y → u ≠ v := by
    rintro u y hy rfl
    rw [vertex?_erase, if_pos rfl] at hy
    exact absurd hy (by simp)
  have hchild : ∀ u, v ∉ s.children u := by
    intro u hmem
    obtain ⟨i, hi⟩ := exists_at?_of_mem_children hmem
    exact hfree _ hi
  have hterm : ∀ u t, u ≠ v → s.Unfolds u t → (s.erase v).Unfolds u t := by
    intro u t hu ht
    refine ht.transport (fun w => w ≠ v) (fun w y hw hy => ?_) hu
    refine ⟨⟨y.owners, by rw [hold w hw, hy]⟩, ?_⟩
    rintro c hc rfl
    exact hchild w (by rw [children_of_vertex? hy]; exact hc)
  -- nothing leads to the vertex, so handles, loose owners and links are all about others
  refine ⟨fun h u ht => ?_, fun u hu => ?_, fun u y hy => ?_, fun u y hy => ?_⟩
  · have huv : u ≠ v := fun e => hfree (.handle h) (e ▸ ht)
    obtain ⟨y, hy⟩ := hb.handle_live h u ht
    exact ⟨y, by rw [hold u huv, hy]⟩
  · have huv : u ≠ v := by rintro rfl; omega
    have hlu := hl u huv
    have hlive : ∃ y, s.vertex? u = some y := by
      rcases Nat.eq_zero_or_pos (loose u) with hz | hpos
      · exact hb.child_of_count hx (by omega)
      · exact hb.loose_live u hpos
    obtain ⟨y, hy⟩ := hlive
    exact ⟨y, by rw [hold u huv, hy]⟩
  · have huv := hne u y hy
    rw [hold u huv] at hy
    obtain ⟨t, ht⟩ := hb.unfolds u y hy
    exact ⟨t, hterm u t huv ht⟩
  · have huv := hne u y hy
    rw [hold u huv] at hy
    have hown := hb.owners u y hy
    have hcount := bound_erase hx u
    have hlu := hl u huv
    omega

/-! ## Binding handles -/

/-- A new handle counts itself as an owner. -/
theorem bind (hb : s.Balanced loose) (hx : s.vertex? v = some x) : (s.bind v).2.Balanced loose := by
  refine hb.recount (fun u n => n + if v = u then 1 else 0) (vertex?_addOwner s v) (fun h u ht => ?_)
    hb.loose_live fun u y hy => ?_
  · rw [target?_bind] at ht
    split at ht
    · obtain rfl := Option.some.inj ht
      exact ⟨x, hx⟩
    · exact hb.handle_live h u ht
  · have hown := hb.owners u y hy
    rw [bound_bind]
    omega

/-- A handle given back leaves its owner loose. -/
theorem unbind {h : Handle} (hb : s.Balanced loose) (ht : s.target? h = some v)
    (hl : ∀ u, loose' u = loose u + if v = u then 1 else 0) : (s.unbound h).Balanced loose' := by
  have hvertex : ∀ u, (s.unbound h).vertex? u
      = (s.vertex? u).map fun x => { x with owners := x.owners } := by
    intro u
    show s.vertex? u = _
    cases s.vertex? u <;> rfl
  refine hb.recount (fun _ n => n) hvertex (fun g u hg => ?_) (fun u hu => ?_) fun u y hy => ?_
  · rw [target?_unbound] at hg
    split at hg
    · exact absurd hg (by simp)
    · exact hb.handle_live g u hg
  · by_cases hvu : v = u
    · exact hb.handle_live h u (hvu ▸ ht)
    · rw [hl, if_neg hvu] at hu
      exact hb.loose_live u hu
  · have hown := hb.owners u y hy
    have hlu := hl u
    have hother : ∀ g, g ≠ h → (s.unbound h).target? g = s.target? g := by
      intro g hg
      rw [target?_unbound, if_neg fun e => hg e.symm]
    have hvertices : (s.unbound h).vertices = s.vertices := rfl
    have hcount := bound_of_handle hvertices Array.size_setIfInBounds (lt_size_of_target? ht) hother u
    rw [target?_unbound, if_pos rfl, ht] at hcount
    simp only [Option.some.injEq, reduceCtorEq, if_false] at hcount
    omega

end Balanced

end Store

end ExprGraph

import ExprGraph.Proofs.Folding
/-!
  Folding stays within a region.

  A region is a set of vertices out of which no link leads; all vertices still to be made belong to it.  Main
  statement: when the places on the stack lead into a region, folding them binds no place to a vertex outside,
  and gives no vertex outside another owner (`Runs.within`).

    * state      the store, and the places still to be folded;
    * step       a place is taken, folded or left (`within_foldStep`);
    * invariant  the set is still a region, and the places on the stack lead into it (`Region.within`,
                 `Within.leadsInto`).

  What is held without a place stays as it is (`ChangesOnly`), but for its owners.  This module is about
  them: a copy takes hold of the children of the vertex it is a copy of, and they belong to the region.
-/

namespace ExprGraph

namespace Store

variable {s s' s'' : Store} {R : Set VertexId} {p q : Place} {v w : VertexId} {x : Vertex}

/-- **A region**: a set of vertices that links do not lead out of, and that every new vertex will belong to. -/
structure Region (s : Store) (R : Set VertexId) : Prop where
  fresh : ∀ a, s.vertices.size ≤ a → a ∈ R
  closed : ∀ a ∈ R, ∀ c ∈ s.children a, c ∈ R

/-- The place is bound to a vertex of the set, if it is bound at all. -/
def LeadsInto (s : Store) (R : Set VertexId) (p : Place) : Prop := ∀ a, s.at? p = some a → a ∈ R

/-- **A change within a region**: outside, no vertex has got another place bound to it, or another owner. -/
structure Within (R : Set VertexId) (s s' : Store) : Prop where
  size : s.vertices.size ≤ s'.vertices.size
  at? : ∀ q a, s'.at? q = some a → a ∉ R → s.at? q = some a
  owners : ∀ a y, a ∉ R → s'.vertex? a = some y → ∃ x, s.vertex? a = some x ∧ y.owners ≤ x.owners

namespace Within

theorem refl (R : Set VertexId) (s : Store) : Within R s s where
  size := Nat.le_refl _
  at? _ _ ha _ := ha
  owners _ y _ hy := ⟨y, hy, Nat.le_refl _⟩

theorem trans (h₁ : Within R s s') (h₂ : Within R s' s'') : Within R s s'' where
  size := Nat.le_trans h₁.size h₂.size
  at? q a hq ha := h₁.at? q a (h₂.at? q a hq ha) ha
  owners a z ha hz := by
    obtain ⟨y, hy, hle⟩ := h₂.owners a z ha hz
    obtain ⟨x, hx, hle'⟩ := h₁.owners a y ha hy
    exact ⟨x, hx, Nat.le_trans hle hle'⟩

/-- A change within a region is one within a larger one. -/
theorem mono {R' : Set VertexId} (h : Within R s s') (hsub : R ⊆ R') : Within R' s s' where
  size := h.size
  at? q a hq ha := h.at? q a hq fun hm => ha (hsub hm)
  owners a y ha hy := h.owners a y (fun hm => ha (hsub hm)) hy

/-- A place that leads into the region still does. -/
theorem leadsInto (h : Within R s s') (hp : s.LeadsInto R p) : s'.LeadsInto R p := by
  intro a ha
  by_contra hout
  exact hout (hp a (h.at? p a ha hout))

/-- **The vertices may be given one by one**: in the region they have children in the region, outside they
    have no other children and no more owners. -/
theorem of_vertices (hsize : s.vertices.size ≤ s'.vertices.size) (hh : s'.handles = s.handles)
    (hv : ∀ u y, s'.vertex? u = some y → (u ∈ R ∧ ∀ c ∈ y.children, c ∈ R)
      ∨ ∃ x, s.vertex? u = some x ∧ y.children = x.children ∧ (u ∉ R → y.owners ≤ x.owners)) :
    Within R s s' where
  size := hsize
  at? q a hq ha := by
    cases q with
    | handle h => exact (target?_congr hh h).symm.trans hq
    | link u i =>
      obtain ⟨y, hy, hya⟩ := exists_vertex_of_at?_link hq
      rcases hv u y hy with ⟨-, hchildren⟩ | ⟨x, hx, hsame, -⟩
      · exact absurd (hchildren a (List.mem_of_getElem? hya)) ha
      · rw [at?_link, children_of_vertex? hx, ← hsame]
        exact hya
  owners a y ha hy := by
    rcases hv a y hy with ⟨hin, -⟩ | ⟨x, hx, -, hle⟩
    · exact absurd hin ha
    · exact ⟨x, hx, hle ha⟩

end Within

/-- The set is still a region after a change within it. -/
theorem Region.within (hR : s.Region R) (h : Within R s s') : s'.Region R where
  fresh a ha := hR.fresh a (Nat.le_trans h.size ha)
  closed a ha c hc := by
    by_contra hout
    obtain ⟨i, hi⟩ := exists_at?_of_mem_children hc
    exact hout (hR.closed a ha c (mem_children_of_at? (h.at? _ c hi hout)))

/-- The links of a vertex of the region lead into it. -/
theorem Region.leadsInto (hR : s.Region R) (hv : v ∈ R) (i : Nat) : s.LeadsInto R (.link v i) := by
  intro a ha
  exact hR.closed v hv a (mem_children_of_at? ha)

/-! ## Elementary changes -/

theorem within_addOwners {vs : List VertexId} (hvs : ∀ v ∈ vs, v ∈ R) : Within R s (s.addOwners vs) := by
  refine .of_vertices (Nat.le_of_eq (size_addOwners s vs).symm) (handles_addOwners s vs) fun u y hy => .inr ?_
  rw [vertex?_addOwners] at hy
  obtain ⟨x, hx, rfl⟩ := Option.map_eq_some_iff.mp hy
  refine ⟨x, hx, rfl, fun hu => ?_⟩
  have hnone : vs.count u = 0 := List.count_eq_zero.mpr fun hm => hu (hvs u hm)
  show x.owners + vs.count u ≤ x.owners
  omega

theorem within_dropOwner (R : Set VertexId) (s : Store) (v : VertexId) : Within R s (s.dropOwner v) := by
  refine .of_vertices (Nat.le_of_eq (size_modify s v _).symm) (handles_modify s v _) fun u y hy => .inr ?_
  rw [vertex?_dropOwner] at hy
  obtain ⟨x, hx, rfl⟩ := Option.map_eq_some_iff.mp hy
  exact ⟨x, hx, rfl, fun _ => Nat.sub_le _ _⟩

theorem within_erase (R : Set VertexId) (s : Store) (v : VertexId) : Within R s (s.erase v) := by
  refine .of_vertices (Nat.le_of_eq (size_erase s v).symm) (handles_erase s v) fun u y hy => .inr ?_
  rw [vertex?_erase] at hy
  split at hy
  · cases hy
  · exact ⟨y, hy, rfl, fun _ => Nat.le_refl _⟩

theorem within_insert (hR : s.Region R) (hx : ∀ c ∈ x.children, c ∈ R) : Within R s (s.insert x).2 := by
  refine .of_vertices ?_ rfl fun u y hy => ?_
  · rw [size_insert]
    exact Nat.le_succ _
  · rw [vertex?_insert] at hy
    split at hy
    · next hu =>
      obtain rfl := Option.some.inj hy
      exact .inl ⟨hR.fresh u (Nat.le_of_eq hu.symm), hx⟩
    · exact .inr ⟨y, hy, rfl, fun _ => Nat.le_refl _⟩

theorem within_rebind (hp : s.at? p = some v) (hw : w ∈ R) : Within R s (s.rebind p w) where
  size := Nat.le_of_eq (size_rebind s p w).symm
  at? q a hq ha := by
    rw [at?_rebind hp] at hq
    split at hq
    · obtain rfl := Option.some.inj hq
      exact absurd hw ha
    · exact hq
  owners a y _ hy := by
    rw [vertex?_rebind] at hy
    obtain ⟨x, hx, rfl⟩ := Option.map_eq_some_iff.mp hy
    exact ⟨x, hx, by rw [Vertex.owners_rebound]⟩

/-- A vertex may lose its links. -/
theorem within_modify (R : Set VertexId) (s : Store) (v : VertexId) (payload : Payload) :
    Within R s (s.modify v fun x => { x with payload, links := none }) where
  size := Nat.le_of_eq (size_modify s v _).symm
  at? q a hq _ := by
    cases q with
    | handle h => exact hq
    | link u i =>
      obtain ⟨y, hy, hya⟩ := exists_vertex_of_at?_link hq
      obtain ⟨x, hx, rfl⟩ := vertex?_modify_eq_some_iff.mp hy
      by_cases hvu : v = u
      · rw [if_pos hvu] at hya
        cases hya
      · rw [if_neg hvu] at hya
        rw [at?_link, children_of_vertex? hx]
        exact hya
  owners a y _ hy := by
    obtain ⟨x, hx, rfl⟩ := vertex?_modify_eq_some_iff.mp hy
    refine ⟨x, hx, Nat.le_of_eq ?_⟩
    split <;> rfl

theorem within_release (R : Set VertexId) (s : Store) (work : List VertexId) :
    Within R s (s.release work) := by
  induction s, work using Store.release.induct with
  | case1 s =>
    rw [Store.release]
    exact .refl R s
  | case2 s v rest hx ih =>
    rw [release_dead hx]
    exact ih
  | case3 s v rest x hx hlast ih =>
    rw [release_last hx hlast]
    exact (within_erase R s v).trans ih
  | case4 s v rest x hx hstay ih =>
    rw [release_owned hx hstay]
    exact (within_dropOwner R s v).trans ih

/-! ## Copy on write -/

/-- **Making a place the only owner of its vertex** stays within the region that the place leads into, and
    leaves it bound to a vertex of the region. -/
theorem within_makeSole (hR : s.Region R) (hp : s.LeadsInto R p) :
    Within R s (s.makeSole p).2.store ∧ ∀ w, (s.makeSole p).1 = some w → w ∈ R := by
  cases hat : s.at? p with
  | none =>
    simp only [Store.makeSole, hat]
    refine ⟨.refl R s, fun w hw => ?_⟩
    cases hw
  | some v =>
    have hv : v ∈ R := hp v hat
    cases hx : s.vertex? v with
    | none =>
      simp only [Store.makeSole, hat, hx]
      refine ⟨.refl R s, fun w hw => ?_⟩
      cases hw
    | some x =>
      by_cases hle : x.owners ≤ 1
      · rw [makeSole_of_le hat hx hle]
        refine ⟨.refl R s, fun w hw => ?_⟩
        obtain rfl := Option.some.inj hw
        exact hv
      · rw [makeSole_of_lt hat hx hle]
        have hsize : s.vertices.size ∈ R := hR.fresh _ (Nat.le_refl _)
        -- the copy gets hold of the children of the vertex, and they belong to the region as it does
        have hchildren : ∀ c ∈ x.children, c ∈ R := by
          rw [← children_of_vertex? hx]
          exact hR.closed v hv
        have h₁ : Within R s (s.addOwners x.children) := within_addOwners hchildren
        have h₂ : Within R (s.addOwners x.children) (s.withCopy x) := within_insert (hR.within h₁) hchildren
        have h₃ : Within R (s.withCopy x) (s.copyFor p x) := within_rebind (at?_withCopy hat) hsize
        have h₄ : Within R (s.copyFor p x) ((s.copyFor p x).dropOwner v) := within_dropOwner R _ v
        refine ⟨((h₁.trans h₂).trans h₃).trans h₄, fun w hw => ?_⟩
        obtain rfl := Option.some.inj hw
        exact hsize

theorem within_replace (payload : Payload) (hR : s.Region R) (hp : s.LeadsInto R p) :
    Within R s (s.replace p payload).store := by
  obtain ⟨hsole, -⟩ := within_makeSole hR hp
  unfold Store.replace
  split
  · next v c hc =>
    rw [hc] at hsole
    exact (hsole.trans (within_modify R _ v payload)).trans (within_release R _ _)
  · next c hc =>
    rw [hc] at hsole
    exact hsole

/-! ## Folding -/

/-- What is on the stack next leads into the region. -/
def NextWithin (R : Set VertexId) (r : FoldStep) : Prop :=
  ∀ next, r.next = .ok next → ∀ q ∈ next, r.store.LeadsInto R q.place

theorem nextWithin_done {r : FoldStep} (h : r.next = .ok []) : NextWithin R r := by
  intro next hn q hq
  rw [h] at hn
  obtain rfl := Except.ok.inj hn
  cases hq

theorem nextWithin_error {r : FoldStep} {e : Fault} (h : r.next = .error e) : NextWithin R r := by
  intro next hn
  rw [h] at hn
  cases hn

theorem within_expand (hR : s.Region R) (hp : s.LeadsInto R p) (count : Nat) :
    Within R s (s.expand p count).store ∧ NextWithin R (s.expand p count) := by
  obtain ⟨hsole, hvertex⟩ := within_makeSole hR hp
  unfold expand
  split
  · next c hc =>
    rw [hc] at hsole
    exact ⟨hsole, nextWithin_error rfl⟩
  · next v c hc =>
    rw [hc] at hsole hvertex
    refine ⟨hsole, fun next hn q hq => ?_⟩
    obtain rfl := Except.ok.inj hn
    rcases List.mem_append.mp hq with hq | hq
    · obtain ⟨i, -, rfl⟩ := List.mem_map.mp hq
      exact (hR.within hsole).leadsInto (hvertex v rfl) i
    · obtain rfl := List.mem_singleton.mp hq
      exact hsole.leadsInto hp

/-- **One step of folding** stays within the region that its place leads into. -/
theorem within_foldStep (apply : Operator.Interpretation) {t : Pending} (hR : s.Region R)
    (hp : s.LeadsInto R t.place) :
    Within R s (foldStep apply s t).store ∧ NextWithin R (foldStep apply s t) := by
  unfold foldStep
  split
  · exact ⟨.refl R s, nextWithin_error rfl⟩
  · split
    · split
      · split
        · unfold collapse
          split
          · exact ⟨.refl R s, nextWithin_error rfl⟩
          · exact ⟨within_replace _ hR hp, nextWithin_done rfl⟩
        · exact ⟨.refl R s, nextWithin_done rfl⟩
      · split
        · exact ⟨.refl R s, nextWithin_error rfl⟩
        · exact within_expand hR hp _
    · exact ⟨.refl R s, nextWithin_done rfl⟩

/-- **Folding stays within the region** that the places on the stack lead into. -/
theorem within_foldFrom (apply : Operator.Interpretation) (bound : Nat) :
    ∀ {work : List Pending} {s : Store} (notes : List Note) (n : Nat), s.Region R →
      (∀ q ∈ work, s.LeadsInto R q.place) → Within R s (foldFrom apply bound work s notes n).store := by
  induction bound with
  | zero =>
    intro work s notes n _ _
    cases work <;> exact .refl R s
  | succ bound ih =>
    intro work s notes n hR hwork
    cases work with
    | nil => exact .refl R s
    | cons t work =>
      obtain ⟨hstep, hnext⟩ := within_foldStep apply hR (hwork t List.mem_cons_self)
      rw [foldFrom]
      split
      · next hs =>
        rw [hs] at hstep hnext
        refine hstep.trans (ih _ _ (hR.within hstep) fun q hq => ?_)
        rcases List.mem_append.mp hq with hq | hq
        · exact hnext _ rfl q hq
        · exact hstep.leadsInto (hwork q (List.mem_cons_of_mem t hq))
      · next hs =>
        rw [hs] at hstep
        exact hstep

/-- The store a run leads to is the one folding ends in. -/
theorem Runs.store_foldFrom {apply : Operator.Interpretation} {pend : List Pending}
    {r : Except Fault Nat} {c : Nat} (h : Runs apply pend s s' r c) :
    (foldFrom apply c pend s [] 0).store = s' := by
  obtain ⟨more, h⟩ := h
  have hrun := h 0 [] [] 0
  rw [Nat.add_zero, List.append_nil] at hrun
  rw [hrun]
  cases r <;> rfl

/-- **A run stays within the region** that its places lead into. -/
theorem Runs.within {apply : Operator.Interpretation} {pend : List Pending} {r : Except Fault Nat} {c : Nat}
    (h : Runs apply pend s s' r c) (hR : s.Region R) (hpend : ∀ q ∈ pend, s.LeadsInto R q.place) :
    Within R s s' := by
  have hfold := within_foldFrom apply c [] 0 hR hpend
  rw [h.store_foldFrom] at hfold
  exact hfold

end Store

end ExprGraph

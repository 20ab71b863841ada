import ExprGraph.Proofs.Rewriting
import ExprGraph.Store.Linking
/-!
  Copy on write.

  An edit goes through one place (`Edited`): the store stays balanced, nothing changes without the place,
  and the place is bound to a vertex with a given term afterwards.  Making a place the only owner of its
  vertex is an edit that leaves the term as it is (`Balanced.makeSole`); so nobody else can see what is then
  written into the vertex, and replacing its contents is an edit to the new term (`Balanced.overwrite`).
-/

namespace ExprGraph

namespace Store

variable {s s' s'' : Store} {loose loose' : VertexId → Nat} {p q : Place} {u v w : VertexId}
  {x y : Vertex} {t c : Term}

/-- **An edit through a place.** -/
structure Edited (s s' : Store) (loose : VertexId → Nat) (p : Place) (w : VertexId) (t : Term) :
    Prop where
  balanced : s'.Balanced loose
  changes : ChangesOnly s s' loose {p}
  at? : s'.at? p = some w
  unfolds : s'.Unfolds w t

/-- One edit after another through the same place. -/
theorem Edited.trans (h₁ : Edited s s' loose p v t) (h₂ : Edited s' s'' loose p w c) :
    Edited s s'' loose p w c :=
  ⟨h₂.balanced, h₁.changes.trans h₂.changes, h₂.at?, h₂.unfolds⟩

/-! ## What bystanders see -/

/-- Without any changed place, an anchored place is bound as before. -/
theorem ChangesOnly.at?_of_anchored (hc : ChangesOnly s s' loose ∅) (ha : s.Anchored loose p) :
    s'.at? p = s.at? p := by
  cases p with
  | handle h => exact hc.handle h (Set.notMem_empty _)
  | link u i => exact hc.link u i (Held.mono ha (Set.empty_subset _)) (Set.notMem_empty _)

/-- Fewer loose owners hold less, so less is asked. -/
theorem ChangesOnly.mono_loose {places : Set Place} (hc : ChangesOnly s s' loose' places)
    (hle : ∀ v, 0 < loose v → 0 < loose' v) : ChangesOnly s s' loose places where
  size := hc.size
  handle := hc.handle
  vertex u x hu hx := hc.vertex u x (hu.mono_loose hle) hx
  link u i hu hi := hc.link u i (hu.mono_loose hle) hi

/-! ## The copy -/

/-- Stores are equal when the same is found in them. -/
theorem eq_of_vertex? (hsize : s'.vertices.size = s.vertices.size)
    (hv : ∀ u, s'.vertex? u = s.vertex? u) (hh : s'.handles = s.handles)
    (hp : s'.pinned = s.pinned) (hc : s'.copies = s.copies) : s' = s := by
  have harr : s'.vertices = s.vertices := by
    refine Array.ext hsize fun i h₁ h₂ => ?_
    have h := hv i
    unfold vertex? at h
    rw [Array.getElem?_eq_getElem h₁, Array.getElem?_eq_getElem h₂] at h
    exact h
  cases s
  cases s'
  simp only [Store.mk.injEq]
  exact ⟨harr, hh, hp, hc⟩

theorem size_rebind (s : Store) (p : Place) (w : VertexId) :
    (s.rebind p w).vertices.size = s.vertices.size := by
  cases p with
  | handle h => rfl
  | link u i => exact size_modify s u _

/-- Counting an owner less and binding a place elsewhere can be done in either order. -/
theorem rebind_dropOwner (s : Store) (v : VertexId) (p : Place) (w : VertexId) :
    (s.dropOwner v).rebind p w = (s.rebind p w).dropOwner v := by
  refine eq_of_vertex? ?_ (fun u => ?_) ?_ ?_ ?_
  · simp only [size_rebind, dropOwner, size_modify]
  · rw [vertex?_rebind, vertex?_dropOwner, vertex?_dropOwner, vertex?_rebind, Option.map_map,
      Option.map_map]
    refine congrArg (fun f => Option.map f (s.vertex? u)) (funext fun x => ?_)
    simp only [Function.comp, Vertex.rebound]
    cases p with
    | handle h => rfl
    | link b i => by_cases hbu : b = u <;> simp only [hbu, if_true, if_false]
  · cases p <;> rfl
  · cases p <;> rfl
  · cases p <;> rfl

/-- Counting an owner less and putting a vertex in can be done in either order. -/
theorem insert_dropOwner (hv : v < s.vertices.size) (x : Vertex) :
    (s.dropOwner v).insert x = (s.vertices.size, (s.insert x).2.dropOwner v) := by
  have hsize : (s.dropOwner v).vertices.size = s.vertices.size := size_modify s v _
  refine Prod.ext hsize (eq_of_vertex? ?_ (fun u => ?_) rfl rfl rfl)
  · rw [size_insert, hsize, dropOwner, size_modify, size_insert]
  · rw [vertex?_insert, hsize, vertex?_dropOwner, vertex?_dropOwner, vertex?_insert]
    by_cases hu : u = s.vertices.size
    · rw [if_pos hu, if_pos hu, if_neg fun e => Nat.ne_of_lt hv (e.trans hu)]
      rfl
    · rw [if_neg hu, if_neg hu]

/-- A vertex with one owner is taken as it is. -/
theorem makeSole_of_le (hp : s.at? p = some v) (hx : s.vertex? v = some x) (hle : x.owners ≤ 1) :
    s.makeSole p = (some v, ⟨s, []⟩) := by
  simp only [makeSole, hp, hx, if_pos hle]

/-- The store with a copy of a vertex, which has one owner that is still loose. -/
def withCopy (s : Store) (x : Vertex) : Store :=
  ((s.addOwners x.children).insert { x with owners := 1 }).2

/-- The store in which a place has been bound to a copy of its vertex, while the vertex still has the owner
    it had in the place. -/
def copyFor (s : Store) (p : Place) (x : Vertex) : Store := (s.withCopy x).rebind p s.vertices.size

/-- A vertex with more owners is copied. -/
theorem makeSole_of_lt (hp : s.at? p = some v) (hx : s.vertex? v = some x) (hlt : ¬ x.owners ≤ 1) :
    s.makeSole p = (some s.vertices.size,
      ⟨(s.copyFor p x).dropOwner v, [.copied x.payload (x.owners - 1)]⟩) := by
  have hv : v < (s.addOwners x.children).vertices.size := by
    rw [size_addOwners]
    exact lt_size_of_vertex? hx
  simp only [makeSole, hp, hx, if_neg hlt, insert_dropOwner hv, size_addOwners, rebind_dropOwner,
    copyFor, withCopy]

theorem vertex?_withCopy_self (s : Store) (x : Vertex) :
    (s.withCopy x).vertex? s.vertices.size = some { x with owners := 1 } := by
  rw [withCopy, vertex?_insert, size_addOwners, if_pos rfl]

theorem vertex?_withCopy (hy : s.vertex? u = some y) :
    (s.withCopy x).vertex? u = some { y with owners := y.owners + x.children.count u } :=
  Balanced.vertex?_insert_of_live x.children _ hy

/-- Places are bound as before when there is a copy somewhere. -/
theorem at?_withCopy (hp : s.at? p = some v) : (s.withCopy x).at? p = some v := by
  cases p with
  | handle h => exact (target?_addOwners s x.children h).trans hp
  | link u i =>
    obtain ⟨y, hy, hyi⟩ := exists_vertex_of_at?_link hp
    rw [at?_link, children_of_vertex? (vertex?_withCopy hy)]
    exact hyi

/-- **A copy in a balanced store** has the term of the vertex it is a copy of, and takes nothing from
    anybody. -/
theorem Balanced.withCopy (hb : s.Balanced loose) (hx : s.vertex? v = some x) (ht : s.Unfolds v t) :
    (s.withCopy x).Balanced (fun a => loose a + if s.vertices.size = a then 1 else 0)
      ∧ (s.withCopy x).Unfolds s.vertices.size t := by
  obtain ⟨hp, hrel, -⟩ := ht.children hx
  have hsame : Term.make x.payload t.links = t :=
    Term.eq_of_payload_of_links (by rw [Term.payload_make, hp]) (Term.links_make _ _)
  have hcopy := hb.insert_over (p := x.payload) hrel 1
  rw [hsame] at hcopy
  exact hcopy

/-- **A place bound to a copy** of its vertex: an edit that leaves the term, after which the place is the only
    way to the copy. -/
theorem Balanced.copied (hb : s.Balanced loose) (hp : s.at? p = some v) (hx : s.vertex? v = some x)
    (ht : s.Unfolds v t) :
    Edited s ((s.copyFor p x).dropOwner v) loose p s.vertices.size t
      ∧ ¬ ((s.copyFor p x).dropOwner v).Held loose {p} s.vertices.size := by
  obtain ⟨hb₂, ht₂⟩ := hb.withCopy hx ht
  have hp₂ : (s.withCopy x).at? p = some v := at?_withCopy hp
  have hown : ∀ a z, s.vertex? a = some z → ∃ n, (s.withCopy x).vertex? a = some { z with owners := n } :=
    fun a z hz => ⟨_, vertex?_withCopy hz⟩
  -- the parent of the place has a higher term than the copy
  have hr : ∀ u i, p = .link u i → ¬ (s.withCopy x).Reaches s.vertices.size u := by
    rintro u i rfl
    obtain ⟨y, hy, hyi⟩ := exists_vertex_of_at?_link hp
    obtain ⟨c, hc⟩ := hb.unfolds u y hy
    obtain ⟨t', ht', hvt'⟩ := Pointwise.exists_right (hc.children hy).2.2 (List.mem_of_getElem? hyi)
    obtain rfl := hvt'.unique ht
    exact ht₂.not_reaches_of_height_lt (hc.of_owners hown) (Term.height_lt ht')
  have hb₃ : (s.copyFor p x).Balanced fun a => loose a + if v = a then 1 else 0 := by
    refine hb₂.rebind hp₂ (vertex?_withCopy_self s x) hr fun a => ?_
    omega
  have hb₄ : ((s.copyFor p x).dropOwner v).Balanced loose := hb₃.dropOwner fun _ => rfl
  have hat : ((s.copyFor p x).dropOwner v).at? p = some s.vertices.size := by
    rw [at?_dropOwner, copyFor, at?_rebind hp₂, if_pos rfl]
  have hcopy : ((s.copyFor p x).dropOwner v).vertex? s.vertices.size
      = some { x with owners := 1 - if v = s.vertices.size then 1 else 0 } := by
    rw [vertex?_dropOwner, copyFor, vertex?_rebind, vertex?_withCopy_self, Option.map_some,
      Vertex.rebound_of_ne fun i e => hr _ i e .refl]
    rfl
  refine ⟨⟨hb₄, ?_, hat, ?_⟩, hb₄.sole_of_owners_le_one hat hcopy (Nat.sub_le _ _)⟩
  · have h₁ : ChangesOnly s (s.withCopy x) loose {p} := by
      refine .of_owners (handles_addOwners s x.children) (fun u z _ hz => hown u z hz) hb fun _ => ?_
      exact Nat.le_refl _
    have h₃ : ChangesOnly (s.copyFor p x) ((s.copyFor p x).dropOwner v) loose {p} :=
      changesOnly_dropOwner hb₃ (fun _ => Nat.le_add_right _ _) {p}
    exact (h₁.trans (changesOnly_rebind hp₂ _)).trans h₃
  · -- the term of the copy stays, since the copy does not reach the parent that changed
    refine Unfolds.of_owners (fun a z hz => ⟨_, by rw [vertex?_dropOwner, hz]; rfl⟩)
      (ht₂.past_place hr fun a z ha hz => ?_)
    refine ⟨z.owners, ?_⟩
    rw [copyFor, vertex?_rebind, hz, Option.map_some, Vertex.rebound_of_ne fun i e => ha i e]

/-- **Making a place the only owner of its vertex** is an edit that leaves the term. -/
theorem Balanced.makeSole (hb : s.Balanced loose) (hp : s.at? p = some v) (ht : s.Unfolds v t) :
    ∃ w s' notes, s.makeSole p = (some w, ⟨s', notes⟩) ∧ Edited s s' loose p w t
      ∧ ¬ s'.Held loose {p} w := by
  obtain ⟨x, hx⟩ := ht.exists_vertex
  by_cases hle : x.owners ≤ 1
  · refine ⟨v, s, _, makeSole_of_le hp hx hle, ⟨hb, .refl s loose _, hp, ht⟩, ?_⟩
    exact hb.sole_of_owners_le_one hp hx hle
  · obtain ⟨hedit, hsole⟩ := hb.copied hp hx ht
    exact ⟨_, _, _, makeSole_of_lt hp hx hle, hedit, hsole⟩

/-! ## Writing -/

/-- **New contents for a vertex that only one place reaches** are an edit to the new term. -/
theorem Balanced.overwrite {payload : Payload} {links : Option (List VertexId)}
    {ts : Option (List Term)} (hb : s.Balanced loose') (ha : s.Anchored loose p)
    (hp : s.at? p = some v) (hv : ¬ s.Held loose {p} v)
    (hts : Option.Rel (List.Forall₂ s.Unfolds) links ts) (hr : ∀ w ∈ links.getD [], ¬ s.Reaches w v)
    (hl : ∀ a, loose' a = loose a + (links.getD []).count a) :
    Edited s (s.overwrite v payload links) loose p v (.make payload ts) := by
  obtain ⟨x, hx⟩ := hb.at? hp
  have hlive : ∀ w ∈ links.getD [], ∃ y, s.vertex? w = some y := by
    intro w hw
    obtain ⟨c, -, hc⟩ := Pointwise.exists_right (Pointwise.getD_nil hts) hw
    exact hc.exists_vertex
  let f : Vertex → Vertex := fun x => { x with payload, links }
  have hb₁ : (s.modify v f).Balanced fun a => loose a + (s.children v).count a := by
    refine hb.modify hx hlive hr fun a => ?_
    rw [children_of_vertex? hx, hl]
    omega
  have hother : ∀ a, v ≠ a → (s.modify v f).vertex? a = s.vertex? a := by
    intro a hav
    rw [vertex?_modify, if_neg hav]
  have hself : (s.modify v f).vertex? v = some (f x) := by
    rw [vertex?_modify, if_pos rfl, hx]
    rfl
  have hat : (s.modify v f).at? p = some v := by
    cases p with
    | handle h => exact hp
    | link u i =>
      have hne : v ≠ u := by rintro rfl; exact hv ha
      rw [at?_link, children, hother u hne]
      rwa [at?_link, children] at hp
  have hterm : (s.modify v f).Unfolds v (.make payload ts) := by
    refine unfolds_iff.mpr ⟨f x, hself, by simp [f], ?_⟩
    rw [Term.links_make]
    refine Pointwise.links_imp_mem hts fun w hw c _ hwc => ?_
    exact hwc.past (fun a z hav hz => ⟨z.owners, by rw [hother a fun e => hav e.symm, hz]⟩) (hr w hw)
  have h₁ : ChangesOnly s (s.modify v f) loose {p} := changesOnly_modify hv f
  -- the old children are released afterwards, and nothing held notices
  obtain ⟨hb₂, h₂⟩ := hb₁.release
  have ha₁ := h₁.anchored ha
  refine ⟨hb₂, h₁.trans (h₂.mono (Set.empty_subset _)), (h₂.at?_of_anchored ha₁).trans hat, ?_⟩
  exact h₂.unfolds (ha₁.held hat) hterm fun _ _ hm => absurd hm (Set.notMem_empty _)

/-- **Replacing the tree of a place by a leaf.** -/
theorem Balanced.replace (payload : Payload) (hb : s.Balanced loose) (ha : s.Anchored loose p)
    (hp : s.at? p = some v) :
    ∃ w, Edited s (s.replace p payload).store loose p w (.bare payload) := by
  obtain ⟨x, hx⟩ := hb.at? hp
  obtain ⟨t, ht⟩ := hb.unfolds v x hx
  obtain ⟨w, s', notes, hsole, hedit, hw⟩ := hb.makeSole hp ht
  refine ⟨w, hedit.trans ?_⟩
  simp only [Store.replace, hsole]
  have hnone : Option.Rel (List.Forall₂ s'.Unfolds) none none := .none
  exact hedit.balanced.overwrite (hedit.changes.anchored ha) hedit.at? hw hnone (by simp) fun _ => rfl

/-! ## Linking -/

/-- What a held vertex reaches is held, when no link is to be avoided. -/
theorem Held.reaches {h : Handle} (hv : s.Held loose {.handle h} v) (hr : s.Reaches v w) :
    s.Held loose {.handle h} w := by
  induction hr with
  | refl => exact hv
  | tail _ hc ih =>
    obtain ⟨i, hi⟩ := exists_at?_of_mem_children hc
    exact .link ih (by simp) hi

/-- **New children for the tree of a handle.**  They are taken hold of first; so they cannot reach the vertex
    the handle gets to itself, whatever they reached before. -/
theorem Balanced.relink {h : Handle} (payload : Payload) {vs : List VertexId} {ts : List Term}
    (hb : s.Balanced loose) (hh : s.target? h = some v) (hvs : List.Forall₂ s.Unfolds vs ts) :
    ∃ w c, (s.addOwners vs).makeSole (.handle h) = (some w, c)
      ∧ Edited s (c.store.overwrite w payload (some vs)) loose (.handle h) w
        (.linked payload ts) := by
  obtain ⟨x, hx⟩ := hb.handle_live h v hh
  obtain ⟨t, ht⟩ := hb.unfolds v x hx
  have hlive : ∀ w ∈ vs, ∃ y, s.vertex? w = some y := by
    intro w hw
    obtain ⟨c, -, hc⟩ := Pointwise.exists_right hvs hw
    exact hc.exists_vertex
  have hown : ∀ a z, s.vertex? a = some z →
      ∃ n, (s.addOwners vs).vertex? a = some { z with owners := n } := by
    intro a z hz
    exact ⟨z.owners + vs.count a, by rw [vertex?_addOwners, hz]; rfl⟩
  have hb₁ : (s.addOwners vs).Balanced fun a => loose a + vs.count a := hb.addOwners hlive fun _ => rfl
  have hpos : ∀ a, 0 < loose a → 0 < loose a + vs.count a := fun a ha => by omega
  have hh₁ : (s.addOwners vs).at? (.handle h) = some v := (target?_addOwners s vs h).trans hh
  obtain ⟨w, s₂, notes, hsole, hedit, hw⟩ := hb₁.makeSole hh₁ (ht.of_owners hown)
  refine ⟨w, ⟨s₂, notes⟩, hsole, ?_⟩
  -- the new children are held by their loose owners
  have hheld : ∀ a ∈ vs, (s.addOwners vs).Held (fun a => loose a + vs.count a) {.handle h} a := by
    intro a ha
    have hcount := List.count_pos_iff.mpr ha
    exact .loose (by omega)
  have hterms : List.Forall₂ s₂.Unfolds vs ts := by
    refine Pointwise.imp_mem hvs fun a ha c _ hac => ?_
    exact hedit.changes.unfolds (hheld a ha) (hac.of_owners hown) (by simp)
  -- what they reach is held past the handle, and the vertex of the handle is not
  have hreach : ∀ a ∈ vs, ¬ s₂.Reaches a w :=
    fun a ha hr => hw ((hedit.changes.held (hheld a ha)).reaches hr)
  have h₁ : ChangesOnly s (s.addOwners vs) loose {.handle h} := by
    refine .of_owners (handles_addOwners s vs) (fun u z _ hz => hown u z hz) hb fun _ => ?_
    exact Nat.le_refl _
  have hover : Edited s₂ (s₂.overwrite w payload (some vs)) loose (.handle h) w (.linked payload ts) :=
    hedit.balanced.overwrite (anchored_handle _ _ _) hedit.at? (fun hm => hw (hm.mono_loose hpos))
      (.some hterms) hreach
      fun _ => rfl
  exact ⟨hover.balanced, (h₁.trans (hedit.changes.mono_loose hpos)).trans hover.changes, hover.at?,
    hover.unfolds⟩

end Store

end ExprGraph

import ExprGraph.Proofs.Unfolding
import ExprGraph.Store.Reach
/-!
  The depth-first search puts children first.

  A vertex is left after everything that is first met below it.  While a vertex is being searched, the
  vertices entered but not left yet lie on the way to it, and in a store without circles they are not met
  again; so every child of a vertex has been left when the vertex is (`Unfolds.childrenFirst_finished`).

    * state      the vertices seen so far, the record, and the events still to come;
    * invariant  the vertices left so far are listed children first, each once, and were all seen
                 (`Searched`);
    * step       one event of entering, with everything below it (`Unfolds.search_enter`).
-/

namespace ExprGraph

namespace Store

variable {s : Store} {v w u : VertexId} {t : Term} {seen seen' : Array Bool} {record record' : List Visit}

/-- The vertices left so far, latest first. -/
def leftIn (record : List Visit) : List VertexId := record.filterMap Visit.left?

/-- **Children come first**: in a list with the latest first, every vertex is live, and stands once and
    before its children. -/
inductive ChildrenFirst (s : Store) : List VertexId → Prop where
  | nil : ChildrenFirst s []
  | cons {v : VertexId} {x : Vertex} {vs : List VertexId} (hx : s.vertex? v = some x)
      (hc : ∀ w ∈ x.children, w ∈ vs) (hv : v ∉ vs) (h : ChildrenFirst s vs) : ChildrenFirst s (v :: vs)

/-- What holds whenever an event is about to happen. -/
structure Searched (s : Store) (seen : Array Bool) (record : List Visit) : Prop where
  size : seen.size = s.vertices.size
  order : s.ChildrenFirst (leftIn record)
  seen_of_left : ∀ u ∈ leftIn record, seen[u]? = some true

/-- What a part of the search adds to what was seen and left before it. -/
structure Extends (seen seen' : Array Bool) (record record' : List Visit) : Prop where
  still_left : ∀ u ∈ leftIn record, u ∈ leftIn record'
  still_seen : ∀ u : VertexId, seen[u]? = some true → seen'[u]? = some true
  left_of_seen : ∀ u : VertexId, seen'[u]? = some true → seen[u]? = some true ∨ u ∈ leftIn record'
  unseen_of_left : ∀ u ∈ leftIn record', u ∈ leftIn record ∨ seen[u]? ≠ some true

theorem Extends.refl (seen : Array Bool) (record : List Visit) : Extends seen seen record record :=
  ⟨fun _ h => h, fun _ h => h, fun _ h => .inl h, fun _ h => .inl h⟩

theorem Extends.trans {seen'' : Array Bool} {record'' : List Visit}
    (h₁ : Extends seen seen' record record') (h₂ : Extends seen' seen'' record' record'') :
    Extends seen seen'' record record'' where
  still_left u hu := h₂.still_left u (h₁.still_left u hu)
  still_seen u hu := h₂.still_seen u (h₁.still_seen u hu)
  left_of_seen u hu := by
    rcases h₂.left_of_seen u hu with hu | hu
    · exact (h₁.left_of_seen u hu).imp id (h₂.still_left u)
    · exact .inr hu
  unseen_of_left u hu := by
    rcases h₂.unseen_of_left u hu with hu | hu
    · exact h₁.unseen_of_left u hu
    · exact .inr fun hs => hu (h₁.still_seen u hs)

/-- Whatever is seen already and reached from a vertex has been left. -/
def Clear (s : Store) (seen : Array Bool) (record : List Visit) (v : VertexId) : Prop :=
  ∀ u, seen[u]? = some true → s.Reaches v u → u ∈ leftIn record

theorem Clear.extend (hc : Clear s seen record v) (he : Extends seen seen' record record') :
    Clear s seen' record' v := by
  intro u hu hr
  rcases he.left_of_seen u hu with hu | hu
  · exact he.still_left u (hc u hu hr)
  · exact hu

/-! ## Events -/

theorem search_leave (work : List Visit) :
    search s seen record (.leave v :: work) = search s seen (.leave v :: record) work := by
  rw [search]

theorem search_enter_seen (h : seen[v]? ≠ some false) (work : List Visit) :
    search s seen record (.enter v :: work) = search s seen record work := by
  rw [search, dif_neg h]

theorem search_enter_unseen (h : seen[v]? = some false) (work : List Visit) :
    search s seen record (.enter v :: work)
      = search s (seen.setIfInBounds v true) (.enter v :: record)
          ((s.children v).map Visit.enter ++ .leave v :: work) := by
  rw [search, dif_pos h]

/-- Marking a vertex as seen marks no other. -/
theorem getElem?_mark (hlt : v < seen.size) :
    (seen.setIfInBounds v true)[u]? = some true ↔ u = v ∨ seen[u]? = some true := by
  rw [Array.getElem?_setIfInBounds]
  by_cases huv : v = u
  · rw [if_pos huv, if_pos hlt]
    exact ⟨fun _ => .inl huv.symm, fun _ => rfl⟩
  · rw [if_neg huv]
    exact ⟨.inr, fun h => h.resolve_left fun e => huv e.symm⟩

/-- Entering a vertex marks it as seen and leaves nothing. -/
theorem Searched.enter (hs : Searched s seen record) (hlt : v < seen.size) :
    Searched s (seen.setIfInBounds v true) (.enter v :: record) where
  size := by rw [Array.size_setIfInBounds, hs.size]
  order := hs.order
  seen_of_left u hu := (getElem?_mark hlt).mpr (.inr (hs.seen_of_left u hu))

/-- A vertex is left after all its children. -/
theorem Searched.leave {x : Vertex} (hs : Searched s seen record) (hv : seen[v]? = some true)
    (hx : s.vertex? v = some x) (hnot : v ∉ leftIn record) (hc : ∀ w ∈ x.children, w ∈ leftIn record) :
    Searched s seen (.leave v :: record) where
  size := hs.size
  order := .cons hx hc hnot hs.order
  seen_of_left u hu := by
    rcases List.mem_cons.mp (show u ∈ v :: leftIn record from hu) with rfl | hu
    · exact hv
    · exact hs.seen_of_left u hu

/-- What is added between entering a vertex and leaving it, together with the vertex. -/
theorem Extends.leave (hv : seen[v]? = some false)
    (he : Extends (seen.setIfInBounds v true) seen' (.enter v :: record) record') :
    Extends seen seen' record (.leave v :: record') := by
  have hlt : v < seen.size := (Array.getElem?_eq_some_iff.mp hv).1
  refine ⟨fun u hu => List.mem_cons_of_mem v (he.still_left u hu), fun u hu => ?_, fun u hu => ?_,
    fun u hu => ?_⟩
  · exact he.still_seen u ((getElem?_mark hlt).mpr (.inr hu))
  · rcases he.left_of_seen u hu with hu | hu
    · rcases (getElem?_mark hlt).mp hu with rfl | hu
      · exact .inr List.mem_cons_self
      · exact .inl hu
    · exact .inr (List.mem_cons_of_mem v hu)
  · rcases List.mem_cons.mp (show u ∈ v :: leftIn record' from hu) with rfl | hu
    · exact .inr (by rw [hv]; simp)
    · exact (he.unseen_of_left u hu).imp id fun hu hs => hu ((getElem?_mark hlt).mpr (.inr hs))

/-! ## The search of a vertex -/

/-- What entering a vertex comes to. -/
def Enters (s : Store) (v : VertexId) : Prop :=
  ∀ ⦃seen : Array Bool⦄ ⦃record : List Visit⦄, Searched s seen record → Clear s seen record v →
    ∀ work, ∃ seen' record', search s seen record (.enter v :: work) = search s seen' record' work
      ∧ Searched s seen' record' ∧ Extends seen seen' record record' ∧ v ∈ leftIn record'

/-- Several vertices are entered one after the other. -/
theorem search_enterAll {vs : List VertexId} (ih : ∀ v ∈ vs, Enters s v) :
    ∀ {seen : Array Bool} {record : List Visit}, Searched s seen record →
      (∀ v ∈ vs, Clear s seen record v) → ∀ work, ∃ seen' record',
        search s seen record (vs.map Visit.enter ++ work) = search s seen' record' work
          ∧ Searched s seen' record' ∧ Extends seen seen' record record'
          ∧ ∀ v ∈ vs, v ∈ leftIn record' := by
  induction vs with
  | nil =>
    intro seen record hs _ work
    exact ⟨seen, record, rfl, hs, .refl seen record, fun v hv => absurd hv List.not_mem_nil⟩
  | cons v vs ihs =>
    intro seen record hs hclear work
    obtain ⟨seen₁, record₁, heq₁, hs₁, hext₁, hv₁⟩ :=
      ih v List.mem_cons_self hs (hclear v List.mem_cons_self) (vs.map Visit.enter ++ work)
    obtain ⟨seen₂, record₂, heq₂, hs₂, hext₂, hvs₂⟩ :=
      ihs (fun w hw => ih w (List.mem_cons_of_mem v hw)) hs₁
        (fun w hw => (hclear w (List.mem_cons_of_mem v hw)).extend hext₁) work
    refine ⟨seen₂, record₂, heq₁.trans heq₂, hs₂, hext₁.trans hext₂, fun w hw => ?_⟩
    rcases List.mem_cons.mp hw with rfl | hw
    · exact hext₂.still_left w hv₁
    · exact hvs₂ w hw

/-- **Entering a vertex leaves it, after everything below it.** -/
theorem Unfolds.enters (ht : s.Unfolds v t) : Enters s v := by
  induction t generalizing v with
  | step t ih =>
    intro seen record hs hclear work
    obtain ⟨x, hx⟩ := ht.exists_vertex
    have hlt : v < seen.size := by
      rw [hs.size]
      exact lt_size_of_vertex? hx
    by_cases hseen : seen[v]? = some false
    · -- the vertex is entered, its children are searched, and it is left
      have hchild : ∀ w ∈ s.children v, Enters s w := by
        intro w hw
        rw [children_of_vertex? hx] at hw
        obtain ⟨c, hc, hwc⟩ := Pointwise.exists_right (ht.children hx).2.2 hw
        exact ih c hc hwc
      have hclear₁ : ∀ w ∈ s.children v, Clear s (seen.setIfInBounds v true) (.enter v :: record) w := by
        intro w hw u hu hr
        rcases (getElem?_mark hlt).mp hu with rfl | hu
        · -- no way leads from a child back to the vertex
          exact absurd hr (ht.not_reaches_of_child hw)
        · exact hclear u hu (.head hw hr)
      obtain ⟨seen₂, record₂, heq, hs₂, hext, hall⟩ :=
        search_enterAll hchild (hs.enter hlt) hclear₁ (.leave v :: work)
      have hmark : (seen.setIfInBounds v true)[v]? = some true := (getElem?_mark hlt).mpr (.inl rfl)
      have hleft : ∀ w ∈ x.children, w ∈ leftIn record₂ := by
        rw [← children_of_vertex? hx]
        exact hall
      have hnot : v ∉ leftIn record₂ := by
        intro hm
        rcases hext.unseen_of_left v hm with hm | hm
        · exact absurd (hseen.symm.trans (hs.seen_of_left v hm)) (by simp)
        · exact hm hmark
      refine ⟨seen₂, .leave v :: record₂, ?_, hs₂.leave (hext.still_seen v hmark) hx hnot hleft,
        hext.leave hseen, List.mem_cons_self⟩
      rw [search_enter_unseen hseen, heq, search_leave]
    · -- the vertex was seen, so it has been left
      have htrue : seen[v]? = some true := by
        rw [Array.getElem?_eq_getElem hlt] at hseen ⊢
        cases hb : seen[v] with
        | true => rfl
        | false => exact absurd (congrArg some hb) hseen
      exact ⟨seen, record, search_enter_seen hseen work, hs, .refl seen record, hclear v htrue .refl⟩

/-- **The search of a tree lists its vertices children first**, the root among them. -/
theorem Unfolds.childrenFirst_finished (ht : s.Unfolds v t) :
    s.ChildrenFirst (s.finished [v]).reverse ∧ v ∈ s.finished [v] := by
  have hs : Searched s (s.vertices.map Option.isNone) [] :=
    ⟨Array.size_map, .nil, fun u hu => absurd hu List.not_mem_nil⟩
  have hclear : Clear s (s.vertices.map Option.isNone) [] v := by
    -- only numbers without a vertex count as seen at the beginning
    intro u hu hr
    obtain ⟨c, hc, -⟩ := ht.of_reaches hr
    obtain ⟨x, hx⟩ := hc.exists_vertex
    have hget := Option.join_eq_some_iff.mp hx
    rw [Array.getElem?_map, hget] at hu
    exact absurd hu (by simp)
  obtain ⟨seen', record', heq, hs', -, hv⟩ := ht.enters hs hclear []
  have hfin : s.finished [v] = (leftIn record').reverse := by
    show (search s _ [] [.enter v]).filterMap Visit.left? = _
    rw [heq, search, List.filterMap_reverse]
    rfl
  rw [hfin, List.reverse_reverse]
  exact ⟨hs'.order, List.mem_reverse.mpr hv⟩

/-! ## Nothing else is listed -/

/-- **A search stays below its roots**: a set closed under children that holds all vertices to enter holds all
    vertices that are left. -/
theorem leftIn_search {K : VertexId → Prop} (hK : ∀ u w, K u → w ∈ s.children u → K w)
    {work : List Visit} (hr : ∀ u ∈ leftIn record, K u)
    (hw : ∀ u, .enter u ∈ work ∨ .leave u ∈ work → K u) :
    ∀ u ∈ (search s seen record work).filterMap Visit.left?, K u := by
  induction seen, record, work using search.induct s with
  | case1 seen record =>
    rw [search, List.filterMap_reverse]
    exact fun u hu => hr u (List.mem_reverse.mp hu)
  | case2 seen record v work ih =>
    rw [search_leave]
    refine ih (fun u hu => ?_) fun u hu => hw u (hu.imp (List.mem_cons_of_mem _) (List.mem_cons_of_mem _))
    rcases List.mem_cons.mp (show u ∈ v :: leftIn record from hu) with rfl | hu
    · exact hw u (.inr List.mem_cons_self)
    · exact hr u hu
  | case3 seen record v work h below ih =>
    rw [search_enter_unseen h]
    have hv : K v := hw v (.inl List.mem_cons_self)
    refine ih hr fun u hu => ?_
    -- below the vertex, the vertex itself, or what was to be done before
    simp only [below, List.mem_append, List.mem_map, List.mem_cons, Visit.enter.injEq, exists_eq_right,
      reduceCtorEq, and_false, exists_false, false_or, Visit.leave.injEq] at hu
    rcases hu with (hu | hu) | rfl | hu
    · exact hK v u hv hu
    · exact hw u (.inl (List.mem_cons_of_mem _ hu))
    · exact hv
    · exact hw u (.inr (List.mem_cons_of_mem _ hu))
  | case4 seen record v work h ih =>
    rw [search_enter_seen h]
    exact ih hr fun u hu => hw u (hu.imp (List.mem_cons_of_mem _) (List.mem_cons_of_mem _))

/-- The search of a tree lists vertices of the tree alone. -/
theorem reaches_of_mem_finished (hu : u ∈ s.finished [v]) : s.Reaches v u := by
  have hnone : ∀ a ∈ leftIn [], s.Reaches v a := fun a ha => absurd ha List.not_mem_nil
  have hroot : ∀ a, .enter a ∈ [Visit.enter v] ∨ .leave a ∈ [Visit.enter v] → s.Reaches v a := by
    rintro a (ha | ha)
    · obtain rfl : a = v := by simpa using ha
      exact .refl
    · exact absurd ha (by simp)
  exact leftIn_search (fun _ _ hr hw => hr.tail hw) hnone hroot u hu

/-- What was listed children first holds the children of its members. -/
theorem ChildrenFirst.child {vs : List VertexId} (hf : s.ChildrenFirst vs) (hu : u ∈ vs)
    (hw : w ∈ s.children u) : w ∈ vs := by
  induction hf with
  | nil => exact absurd hu List.not_mem_nil
  | @cons v x vs hx hc _ _ ih =>
    rcases List.mem_cons.mp hu with rfl | hu
    · rw [children_of_vertex? hx] at hw
      exact List.mem_cons_of_mem _ (hc w hw)
    · exact List.mem_cons_of_mem _ (ih hu)

/-- What was listed children first holds all that its members reach. -/
theorem ChildrenFirst.reaches {vs : List VertexId} (hf : s.ChildrenFirst vs) (hu : u ∈ vs)
    (hr : s.Reaches u w) : w ∈ vs := by
  induction hr with
  | refl => exact hu
  | tail _ hc ih => exact hf.child ih hc

end Store

end ExprGraph

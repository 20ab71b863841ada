import ExprGraph.Proofs.Searching
import ExprGraph.Proofs.Values
import ExprGraph.Store.Cloning
/-!
  A deep copy is a tree of its own with copied payloads.

  The vertices below a handle are copied children first, so the copies of the children are in the table when
  the copy of their parent is linked to them.

    * state      the table of copies made so far, and the store with the copies in it;
    * invariant  every vertex copied so far has a copy that unfolds into the copied term, and the store is
                 balanced with all old terms in place (`Copied`);
    * step       the copy of one vertex (`Copied.step`).
-/

namespace ExprGraph

namespace Store

variable {s s' : Store} {loose : VertexId → Nat} {h : Handle} {v : VertexId} {x : Vertex} {fresh : Nat}
  {vs : List VertexId} {copies : Array (Option VertexId)}

/-- **What holds after some vertices of a store were copied.** -/
structure Copied (s : Store) (loose : VertexId → Nat) (fresh : Nat) (vs : List VertexId)
    (copies : Array (Option VertexId)) (s' : Store) : Prop where
  size : copies.size = s.vertices.size
  balanced : s'.Balanced loose
  values : s'.values = s.values
  vertex : ∀ v x, s.vertex? v = some x → ∃ n, s'.vertex? v = some { x with owners := n }
  copy : ∀ v ∈ vs, ∃ w, copies[v]? = some (some w) ∧ ∀ t, s.Unfolds v t → s'.Unfolds w (t.deepCopy fresh)

/-- Nothing is copied at the beginning. -/
theorem Balanced.copied_nil (hb : s.Balanced loose) :
    Copied s loose fresh [] (Array.replicate s.vertices.size none) s where
  size := Array.size_replicate
  balanced := hb
  values := rfl
  vertex _ x hx := ⟨x.owners, hx⟩
  copy _ hv := absurd hv List.not_mem_nil

/-- **One vertex is copied**, after its children. -/
theorem Copied.step (hc : Copied s loose fresh vs copies s') (hb : s.Balanced loose)
    (hx : s.vertex? v = some x) (hmem : ∀ w ∈ x.children, w ∈ vs) (hv : v ∉ vs) :
    Copied s loose fresh (v :: vs) (cloneVertex fresh (copies, s') v).1
      (cloneVertex fresh (copies, s') v).2 := by
  obtain ⟨n, hx'⟩ := hc.vertex v x hx
  obtain ⟨t, ht⟩ := hb.unfolds v x hx
  obtain ⟨hp, hrel, -⟩ := ht.children hx
  have hlinks : Option.Rel (List.Forall₂ s'.Unfolds)
      (x.links.map (List.map fun u => (copies[u]?.join).getD u))
      (t.links.map (List.map (Term.deepCopy fresh))) := by
    refine Pointwise.links_map hrel fun u hu c _ huc => ?_
    obtain ⟨w, hw, hcopy⟩ := hc.copy u (hmem u hu)
    show s'.Unfolds ((copies[u]?.join).getD u) _
    rw [hw]
    exact hcopy c huc
  -- the copies of the children unfold into the copied children, so the new vertex into the copied term
  obtain ⟨hb', hnew, hkeep, hval⟩ := hc.balanced.insert_vertex (p := x.payload.deepCopy fresh) hlinks
  rw [show Term.make (x.payload.deepCopy fresh) (t.links.map (List.map (Term.deepCopy fresh)))
    = t.deepCopy fresh by rw [hp, ← Term.deepCopy_eq]] at hnew
  simp only [cloneVertex, hx']
  refine ⟨?_, hb', hval.trans hc.values, fun a z hz => ?_, fun a ha => ?_⟩
  · rw [Array.size_setIfInBounds, hc.size]
  · obtain ⟨m, hz'⟩ := hc.vertex a z hz
    exact ⟨_, (Balanced.vertex?_insert_of_live _ _ hz').trans rfl⟩
  · rcases List.mem_cons.mp ha with rfl | ha
    · have hlt : a < copies.size := by
        rw [hc.size]
        exact lt_size_of_vertex? hx
      refine ⟨_, Array.getElem?_setIfInBounds_self_of_lt hlt, fun c hac => ?_⟩
      obtain rfl := ht.unique hac
      exact hnew
    · -- an earlier copy is still in the table, and keeps its term
      obtain ⟨w, hw, hcopy⟩ := hc.copy a ha
      have hne : v ≠ a := fun heq => hv (heq ▸ ha)
      exact ⟨w, by rw [Array.getElem?_setIfInBounds, if_neg hne, hw], fun c hac => hkeep w _ (hcopy c hac)⟩

/-- **All vertices of a list with children first are copied.** -/
theorem Balanced.copied_all (hb : s.Balanced loose) (fresh : Nat) (hvs : s.ChildrenFirst vs) :
    Copied s loose fresh vs
      (vs.reverse.foldl (cloneVertex fresh) (Array.replicate s.vertices.size none, s)).1
      (vs.reverse.foldl (cloneVertex fresh) (Array.replicate s.vertices.size none, s)).2 := by
  induction hvs with
  | nil => exact hb.copied_nil
  | cons hx hc hv _ ih =>
    rw [List.reverse_cons, List.foldl_append]
    exact ih.step hb hx hc hv

/-! ## New functions -/

/-- The payload of a live vertex has no copies of functions beyond those counted. -/
theorem nextCopy_payload_le (hx : s.vertex? v = some x) : x.payload.nextCopy ≤ s.liveCopies :=
  le_foldl_vertices (fun _ _ => Nat.le_max_left _ _) hx fun _ => Nat.le_max_right _ _

/-- A tree has no functions beyond those in the vertices. -/
theorem Unfolds.nextCopy_le {t : Term} (ht : s.Unfolds v t) : t.nextCopy ≤ s.liveCopies := by
  induction t generalizing v with
  | step t ih =>
    obtain ⟨x, hx⟩ := ht.exists_vertex
    obtain ⟨hp, -, hc⟩ := ht.children hx
    refine Term.nextCopy_le (hp ▸ nextCopy_payload_le hx) fun u hu => ?_
    obtain ⟨w, -, hwu⟩ := Pointwise.exists_left hc hu
    exact ih u hu hwu

/-! ## The copy of a tree -/

/-- **A deep copy has the copied term** and leaves all other terms alone. -/
theorem Balanced.follows_clone (hb : s.Balanced loose) (h : Handle) :
    Agree (Follows loose) (s.clone h) (s.values.clone s.nextCopy h) := by
  refine (hb.root_agree h).map fun v t hr => ?_
  obtain ⟨hfirst, hmem⟩ := hr.2.childrenFirst_finished
  have hc := hb.copied_all s.nextCopy hfirst
  rw [List.reverse_reverse] at hc
  obtain ⟨w, hw, hcopy⟩ := hc.copy v (List.mem_reverse.mpr hmem)
  have hbind := hc.balanced.follows_bind (hcopy t hr.2)
  rw [hc.values] at hbind
  simp only [hw]
  exact hbind

end Store

end ExprGraph

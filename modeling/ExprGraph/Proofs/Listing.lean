import ExprGraph.Proofs.ValueSemantics
import ExprGraph.Proofs.Walking
/-!
  A walk yields the post-order listing.

  Main statement: asked again and again, a walk that has just begun answers with the vertices of the recursive
  listing, one after the other, and from then on with nothing (`Store.answers_start`).

    * spec       operands from left to right, then the vertex (`Store.Listing`);
    * state      the path of the cursor, between two questions;
    * invariant  the answers to come are what the path has pending (`Cursor.answers_of_pending`);
    * measure    the number of vertices pending.

  The listing has a vertex once for each way that leads to it: it runs along the occurrences of the term.
-/

namespace ExprGraph

/-! ## Asking a walk again and again -/

namespace Cursor

variable {s : Store} {c : Cursor} {vs : List VertexId}

/-- The answers of a walk to as many questions. -/
def answers (s : Store) : Nat → Cursor → List (Option VertexId)
  | 0, _ => []
  | n + 1, c => (c.next s).1 :: answers s n (c.next s).2

/-- **An exhausted walk stays exhausted.** -/
theorem answers_of_exhausted (hg : Grounded s c.path) (hp : pending s c.path = []) (n : Nat) :
    answers s n c = List.replicate n none := by
  induction n generalizing c with
  | zero => rfl
  | succ n ih =>
    rcases next_spec hg with ⟨hnone, -⟩ | ⟨v, c', -, hyield, -⟩
    · have hend := next_of_fst_none hnone
      have hrest : answers s n ⟨[]⟩ = List.replicate n none :=
        ih (fun f hf => absurd hf List.not_mem_nil) rfl
      rw [answers, hend, hrest, List.replicate_succ]
    · rw [hp] at hyield
      cases hyield

/-- **The answers to come** are the pending vertices, and nothing after them. -/
theorem answers_of_pending (hg : Grounded s c.path) (hp : pending s c.path = vs) (k : Nat) :
    answers s (vs.length + k) c = vs.map some ++ List.replicate k none := by
  induction vs generalizing c with
  | nil =>
    rw [List.length_nil, Nat.zero_add]
    exact answers_of_exhausted hg hp k
  | cons v vs ih =>
    rcases next_spec hg with ⟨-, hpend⟩ | ⟨w, c', hsome, hyield, hground⟩
    · rw [hp] at hpend
      cases hpend
    · -- the first pending vertex is yielded now, the others stay pending
      rw [hp] at hyield
      obtain ⟨rfl, hrest⟩ := List.cons.inj hyield
      have htail := ih hground hrest
      rw [List.length_cons, Nat.succ_add, answers, hsome, htail]
      rfl

end Cursor

namespace Store

variable {s : Store} {v : VertexId} {x : Vertex} {t : Term} {vs ws : List VertexId}

/-! ## The listing -/

/-- **The post-order listing of a tree.** -/
inductive Listing (s : Store) : VertexId → List VertexId → Prop where
  /-- a leaf alone, whatever is linked to it -/
  | leaf {v : VertexId} {x : Vertex} (hx : s.vertex? v = some x) (hleaf : x.payload.isOperator = false) :
      Listing s v [v]
  /-- the listings of the children of an operator from left to right, then the operator -/
  | operator {v : VertexId} {x : Vertex} {vss : List (List VertexId)} (hx : s.vertex? v = some x)
      (hop : x.payload.isOperator = true) (hvss : List.Forall₂ (Listing s) x.children vss) :
      Listing s v (vss.flatten ++ [v])

/-- **The walk by recursion is a listing.** -/
theorem Unfolds.listing (ht : s.Unfolds v t) : s.Listing v (s.walk v) := by
  induction t generalizing v with
  | step t ih =>
    obtain ⟨x, hx⟩ := ht.exists_vertex
    have hops := operands_of_vertex? hx
    rw [Vertex.operands_eq] at hops
    rw [ht.walk_eq, List.flatMap_def]
    cases hop : x.payload.isOperator with
    | false =>
      rw [hops, hop]
      exact .leaf hx hop
    | true =>
      rw [hop, if_pos rfl] at hops
      have hbelow : ∀ w ∈ x.children, s.Listing w (s.walk w) := by
        intro w hw
        rw [← hops] at hw
        obtain ⟨u, hu, hwu, -⟩ := ht.operand hw
        exact ih u (Term.mem_children_of_mem_operands hu) hwu
      rw [hops]
      exact .operator hx hop (List.forall₂_map_right_iff.mpr (List.forall₂_same.mpr hbelow))

/-- **A tree has one listing.** -/
theorem Unfolds.listing_unique (ht : s.Unfolds v t) (h : s.Listing v ws) : ws = s.walk v := by
  induction t generalizing v ws with
  | step t ih =>
    cases h with
    | @leaf _ x hx hleaf =>
      have hops : s.operands v = [] := by
        rw [operands_of_vertex? hx, Vertex.operands_eq, hleaf]
        rfl
      rw [ht.walk_eq, hops]
      rfl
    | @operator _ x vss hx hop hvss =>
      have hops : s.operands v = x.children := by
        rw [operands_of_vertex? hx, Vertex.operands_eq, hop, if_pos rfl]
      have hall : List.Forall₂ (fun w ws => s.walk w = ws) x.children vss := by
        refine Pointwise.imp_mem hvss fun w hw ws _ hws => ?_
        rw [← hops] at hw
        obtain ⟨u, hu, hwu, -⟩ := ht.operand hw
        exact (ih u (Term.mem_children_of_mem_operands hu) hwu hws).symm
      have hmap : x.children.map s.walk = vss :=
        List.forall₂_eq_eq_eq ▸ List.forall₂_map_left_iff.mpr hall
      rw [ht.walk_eq, hops, List.flatMap_def, hmap]

/-! ## The walk and the listing -/

/-- **A walk is the recursion.**  In a closed store without circles every live vertex has one listing, which
    runs along the occurrences of its term.  A walk from there answers with the vertices of the listing; after
    exactly so many answers it is exhausted, and it answers so to every later question. -/
theorem answers_start (hc : s.Closed) (ha : s.Acyclic) (hx : s.vertex? v = some x) :
    ∃ t vs, s.term? v = some t ∧ (∀ ws, s.Listing v ws ↔ ws = vs)
      ∧ List.Forall₂ s.Unfolds vs t.postOrder
      ∧ ∀ k, Cursor.answers s (vs.length + k) (.start v) = vs.map some ++ List.replicate k none := by
  obtain ⟨t, ht⟩ := hc.exists_unfolds ha hx
  have hground := Cursor.grounded_start ht
  have hpend := Cursor.pending_start ht
  refine ⟨t, s.walk v, term?_eq_some_iff.mpr ht, fun ws => ⟨ht.listing_unique, ?_⟩, ht.walk_postOrder,
    Cursor.answers_of_pending hground hpend⟩
  rintro rfl
  exact ht.listing

end Store

namespace Session

/-- The sum `2 * x + f() + 2 * x`, under handle 4.  The product is one vertex; `f` has never been linked; and
    under the constant lies a child that is not an operand. -/
def inertChild : List Operation :=
  [.variableLeaf (some "x") none, .linked (.const (.integer 2)) (some [0]),
   .linked (.op ⟨.add, "f", none, none, none⟩) none,
   .linked (.op ⟨.multiply, "multiply", none, some "*", some .multiply⟩) (some [1, 0]),
   .linked (.op ⟨.add, "add", none, some "+", some .add⟩) (some [3, 2, 3])]

/-- The product is listed twice, each time after its operands; eight answers, then nothing. -/
theorem answers_inertChild :
    (run Operator.apply inertChild).store.Closed ∧ (run Operator.apply inertChild).store.Acyclic
      ∧ (run Operator.apply inertChild).store.vertex? 4
        = some ⟨.op ⟨.add, "add", none, some "+", some .add⟩, some [3, 2, 3], 1⟩
      ∧ Cursor.answers (run Operator.apply inertChild).store 10 (.start 4)
        = [some 1, some 0, some 3, some 2, some 1, some 0, some 3, some 4, none, none] := by
  have hb := balanced_run Operator.apply inertChild
  have hlive : (run Operator.apply inertChild).store.vertex? 4
      = some ⟨.op ⟨.add, "add", none, some "+", some .add⟩, some [3, 2, 3], 1⟩ := rfl
  obtain ⟨t, vs, -, hvs, -, hanswers⟩ :=
    Store.answers_start hb.closed hb.acyclic hlive
  have hx : (run Operator.apply inertChild).store.Listing 0 [0] := .leaf rfl rfl
  have htwo : (run Operator.apply inertChild).store.Listing 1 [1] := .leaf rfl rfl
  have hf : (run Operator.apply inertChild).store.Listing 2 [2] :=
    @Store.Listing.operator _ 2 _ [] rfl rfl .nil
  have hprod : (run Operator.apply inertChild).store.Listing 3 [1, 0, 3] :=
    @Store.Listing.operator _ 3 _ [[1], [0]] rfl rfl (.cons htwo (.cons hx .nil))
  have hsum : (run Operator.apply inertChild).store.Listing 4 [1, 0, 3, 2, 1, 0, 3, 4] :=
    @Store.Listing.operator _ 4 _ [[1, 0, 3], [2], [1, 0, 3]] rfl rfl
      (.cons hprod (.cons hf (.cons hprod .nil)))
  obtain rfl := (hvs _).mp hsum
  exact ⟨hb.closed, hb.acyclic, hlive, hanswers 2⟩

end Session

end ExprGraph

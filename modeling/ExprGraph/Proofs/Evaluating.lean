import ExprGraph.Proofs.TermValue
import ExprGraph.Proofs.Walking
import ExprGraph.Session
/-!
  Evaluating by either strategy.

  The working list of a walk holds the results of the occurrences yielded so far whose parents are still to
  come, latest first; when a vertex is yielded, the results of its operands lie on top in reverse order
  (`foldlM_walk`).  So a walk leaves the result of the term (`Unfolds.resultOf_eq`), and the descent computes
  the same by its very recursion (`Unfolds.evaluateBelow_eq`).
-/

namespace ExprGraph

namespace Store

variable {s : Store} {v w : VertexId} {x : Vertex} {t : Term} {ε α : Type}

/-! ## Along a walk -/

/-- One vertex with the results of its operands on top of the working list. -/
theorem condense_reverse (result : Vertex → List α → Except ε α) {x : Vertex} {args : List α}
    (hlen : args.length = x.operands.length) (rs : List α) :
    condense result (args.reverse ++ rs) x = (result x args).map fun r => r :: rs := by
  have htop : args.reverse.length = x.operands.length := by rw [List.length_reverse, hlen]
  simp only [condense, ← htop, List.take_left', List.drop_left', List.reverse_reverse]

/-- **The working list along a walk**: the result of the term is put on top, or the walk ends with the first
    error. -/
theorem foldlM_walk {result : Vertex → List α → Except ε α} {node : Payload → List α → Except ε α}
    (hres : ∀ (x : Vertex) args, args.length = x.operands.length →
      result x args = node x.payload args) (ht : s.Unfolds v t) (rs : List α) :
    (s.walk v).foldlM (s.visitOne fun rs _ x => condense result rs x) rs
      = (t.result node).map fun r => r :: rs := by
  induction t generalizing v rs with
  | step t ih =>
    obtain ⟨x, hx⟩ := ht.exists_vertex
    -- the results of the operands come one on top of the other
    have hops : ∀ (ws : List VertexId) (us : List Term) (rs : List α), List.Forall₂ s.Unfolds ws us →
        (∀ u ∈ us, u ∈ t.children) →
        (ws.flatMap s.walk).foldlM (s.visitOne fun rs _ x => condense result rs x) rs
          = (us.mapM (Term.result node)).map fun args => args.reverse ++ rs := by
      intro ws us rs h hus
      induction h generalizing rs with
      | nil => rfl
      | @cons w u ws us hwu _ ihs =>
        rw [List.flatMap_cons, List.foldlM_append, ih u (hus u List.mem_cons_self) hwu, List.mapM_cons]
        cases hu : u.result node with
        | error e => rfl
        | ok r =>
          show List.foldlM _ (r :: rs) _ = _
          rw [ihs (r :: rs) fun c hc => hus c (List.mem_cons_of_mem _ hc)]
          cases us.mapM (Term.result node) with
          | error e => rfl
          | ok args => exact congrArg Except.ok (by simp)
    have hterms := ht.operands hx
    have hsub : ∀ u ∈ t.operands, u ∈ t.children := fun u hu => Term.mem_children_of_mem_operands hu
    rw [ht.walk_eq, operands_of_vertex? hx, List.foldlM_append, hops _ _ rs hterms hsub,
      Term.result_eq node t]
    -- the vertex itself comes last and takes them off again
    cases hargs : t.operands.mapM (Term.result node) with
    | error e => rfl
    | ok args =>
      have hlen : args.length = x.operands.length := by
        rw [← (Pointwise.mapM_eq_ok_iff.mp hargs).length_eq, hterms.length_eq]
      have hp := (ht.children hx).1
      show List.foldlM _ (args.reverse ++ rs) [v] = (node t.payload args).map _
      rw [List.foldlM_cons, visitOne, hx]
      show (condense result (args.reverse ++ rs) x).bind (fun rs => .ok rs) = _
      rw [condense_reverse result hlen, hres x args hlen, hp]
      cases node t.payload args <;> rfl

/-- **The result of a tree is that of its term.** -/
theorem Unfolds.resultOf_eq {result : Vertex → List α → Except ε α}
    {node : Payload → List α → Except ε α} (hres : ∀ (x : Vertex) args,
      args.length = x.operands.length → result x args = node x.payload args) (ht : s.Unfolds v t) :
    s.resultOf v result = (t.result node).map some := by
  rw [resultOf, ht.visit_eq_foldlM, foldlM_walk hres ht]
  cases t.result node <;> rfl

variable (apply : Operator.Interpretation) (b : Bindings)

/-- **The walk computes the value of the term.** -/
theorem Unfolds.evaluateAlong_eq (ht : s.Unfolds v t) :
    evaluateAlong apply s b v = t.value apply b := by
  have hres : s.resultOf v (Vertex.value apply b) = (t.value apply b).map some :=
    ht.resultOf_eq fun _ _ h => Vertex.value_eq apply b h
  rw [evaluateAlong, hres]
  show ((t.value apply b).map some).bind _ = _
  cases t.value apply b <;> rfl

/-! ## By descent -/

/-- **The descent computes the value of the term**, when it may go deep enough. -/
theorem Unfolds.evaluateBelow_eq {depth : Nat} (ht : s.Unfolds v t) (hd : t.height ≤ depth) :
    evaluateBelow apply s b depth v = t.value apply b := by
  induction depth generalizing v t with
  | zero => exact absurd t.height_pos (by omega)
  | succ depth ih =>
    obtain ⟨x, hx⟩ := ht.exists_vertex
    have hterms := ht.operands hx
    have hargs : x.operands.mapM (evaluateBelow apply s b depth)
        = t.operands.mapM (Term.value apply b) := by
      refine Pointwise.mapM_congr (Pointwise.imp_mem hterms fun w _ u hu hwu => ih hwu ?_)
      have hlt := Term.height_lt (Term.mem_children_of_mem_operands hu)
      omega
    simp only [evaluateBelow, hx]
    rw [hargs, Term.value_eq]
    cases hvals : t.operands.mapM (Term.value apply b) with
    | error e => rfl
    | ok args =>
      have hlen : args.length = x.operands.length := by
        rw [← (Pointwise.mapM_eq_ok_iff.mp hvals).length_eq, hterms.length_eq]
      show x.value apply b args = t.payload.value apply b args
      rw [Vertex.value_eq apply b hlen, (ht.children hx).1]

/-- **Either strategy computes the value of the term.** -/
theorem Unfolds.evaluateWith_eq (ht : s.Unfolds v t) (strategy : Strategy) :
    s.evaluateWith apply strategy b v = t.value apply b := by
  cases strategy with
  | iterative => exact ht.evaluateAlong_eq apply b
  | recursive => exact ht.evaluateBelow_eq apply b ht.height_le_size

end Store

/-! ## In a session -/

theorem Strategy.ofName_name (k : Strategy) : Strategy.ofName k.name = .ok k := by cases k <;> rfl

namespace Session

/-- What evaluating the tree of a handle comes to. -/
def value (s : Session) (apply : Operator.Interpretation) (h : Handle) (strategy : String)
    (b : Bindings) : Except Fault Value :=
  (s.evaluateWith apply h strategy b).map Prod.fst

variable (apply : Operator.Interpretation)

/-- **Evaluating a tree comes to the value of its term**, by either strategy. -/
theorem value_eq {s : Session} {h : Handle} {v : VertexId} {t : Term}
    (hh : s.store.target? h = some v) (ht : s.store.Unfolds v t) (k : Strategy) (b : Bindings) :
    s.value apply h k.name b = t.value apply b := by
  obtain ⟨x, hx⟩ := ht.exists_vertex
  rw [value, evaluateWith, Store.root_of_target? hh hx, Strategy.ofName_name]
  show Except.map Prod.fst ((s.store.evaluateWith apply k b v).bind _) = _
  rw [ht.evaluateWith_eq apply b k]
  cases t.value apply b <;> rfl

/-- **Both strategies come to the same**: in a store without circles, a tree has one value by either
    strategy, or fails by either with the first failure in post-order. -/
theorem strategies_agree {s : Session} (hc : s.store.Closed) (ha : s.store.Acyclic) {h : Handle}
    {v : VertexId} (hh : s.store.target? h = some v) (b : Bindings) :
    s.value apply h "iterative" b = s.value apply h "recursive" b
      ∧ ∃ t, s.store.termAt? h = some t
        ∧ ∀ e, s.value apply h "iterative" b = .error e ↔ t.firstFailure? apply b = some e := by
  obtain ⟨x, hx⟩ := hc.handle h v hh
  obtain ⟨t, ht⟩ := hc.exists_unfolds ha hx
  have hiter : s.value apply h "iterative" b = t.value apply b := value_eq apply hh ht .iterative b
  have hrec : s.value apply h "recursive" b = t.value apply b := value_eq apply hh ht .recursive b
  refine ⟨hiter.trans hrec.symm, t, Store.termAt?_eq_some_iff.mpr ⟨v, hh, ht⟩, fun e => ?_⟩
  rw [hiter, Term.value_eq_error_iff]

/-- A session whose store has the sum of a constant and itself, under handle 0. -/
def doubled : Session := ⟨.doubled, .empty, #[], #[]⟩

theorem strategies_agree_doubled :
    doubled.store.Closed ∧ doubled.store.Acyclic ∧ doubled.store.target? 0 = some 1
      ∧ doubled.value (fun _ _ => .error (.raised "boom")) 0 "iterative" []
          = doubled.value (fun _ _ => .error (.raised "boom")) 0 "recursive" [] := by
  have hh : doubled.store.target? 0 = some 1 := rfl
  exact ⟨Store.closed_doubled, Store.acyclic_doubled, hh,
    (strategies_agree _ Store.closed_doubled Store.acyclic_doubled hh []).1⟩

end Session

end ExprGraph

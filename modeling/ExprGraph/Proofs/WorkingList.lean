import ExprGraph.Proofs.Occurrences
import ExprGraph.Proofs.Renderings
/-!
  The working list of a walk.

  Evaluation, depth, text and export all keep a working list of results and take as many off its end as the
  vertex at hand has operands.  Nothing in the loop looks whether so many are there, or whose they are.

  Main statement: after any number of vertices the list holds the results of the greatest subtrees completed,
  from left to right; so the next vertex finds those of its operands at the end, and after the last vertex one
  result is left (`Store.working_lists`).

    * state      the working list, latest result first (`Store.workingList`);
    * invariant  the results at the addresses `t.completed n` (`Store.foldlM_take_walk`);
    * recursion  the operands that were begun, one on top of the other, or the root alone;
    * four loops one rule for the result at a vertex and what it comes to for a term (`Unfolds.accounts`).
-/

namespace ExprGraph

namespace Store

variable {s : Store} {v w root : VertexId} {x : Vertex} {t u : Term} {us : List Term} {ws : List VertexId}
  {ε α : Type} {result : Vertex → List α → Except ε α} {node : Payload → List α → Except ε α}
  {R : Term → α → Prop} {rs rs' : List α} {k n : Nat}

/-- **The working list** of a walk stopped after `n` vertices, latest result first, or the first error.  The
    result of a tree is what is on top of it at the end. -/
def workingList (s : Store) (root : VertexId) (result : Vertex → List α → Except ε α) (n : Nat) :
    Except ε (List α) :=
  s.visitFrom (fun results _ x => condense result results x) n [] (.start root)

/-- A computation that cannot fail, as one that might. -/
def sure (result : Vertex → List α → α) (x : Vertex) (args : List α) : Except Empty α := .ok (result x args)

/-- **What a working list accounts for** after `n` vertices of a walk, where `R` says what a term comes to. -/
structure Accounts (s : Store) (root : VertexId) (t : Term) (result : Vertex → List α → Except ε α)
    (R : Term → α → Prop) (n : Nat) (results : List α) : Prop where
  /-- it holds the results of the greatest subtrees completed, from left to right -/
  completed : List.Forall₂ (fun a r => ∃ u, t.at? a = some u ∧ R u r) (t.completed n) results.reverse
  /-- it has no fewer than the next vertex has operands, and that many at its end are theirs, in order -/
  operands : ∀ w x, (s.postOrder root)[n]? = some w → s.vertex? w = some x →
    x.operands.length ≤ results.length ∧ ∃ u, s.Unfolds w u
      ∧ List.Forall₂ R u.operands (results.reverse.drop (results.length - x.operands.length))
  /-- after the last vertex it has one, which is the result of the tree -/
  last : (s.postOrder root).length ≤ n →
    ∃ r, results = [r] ∧ R t r ∧ s.resultOf root result = .ok (some r)

/-! ## Along a walk -/

/-- Below operands, the list grows by the results of what is completed there, when it does so below each. -/
theorem foldlM_take_walks
    (ih : ∀ u ∈ us, ∀ {w n rs rs'}, s.Unfolds w u →
      ((s.walk w).take n).foldlM (s.visitOne fun rs _ x => condense result rs x) rs = .ok rs' →
      ∃ new, rs' = new.reverse ++ rs
        ∧ List.Forall₂ (fun a r => ∃ c, u.at? a = some c ∧ c.result node = .ok r) (u.completed n) new)
    (h : List.Forall₂ s.Unfolds ws us)
    (hrun : ((ws.flatMap s.walk).take n).foldlM (s.visitOne fun rs _ x => condense result rs x) rs = .ok rs') :
    ∃ new, rs' = new.reverse ++ rs
      ∧ List.Forall₂ (fun a r => ∃ c, Term.IsAt k us a c ∧ c.result node = .ok r)
        (Term.completedFrom k us n) new := by
  induction h generalizing k n rs with
  | nil =>
    rw [List.flatMap_nil, List.take_nil] at hrun
    obtain rfl := Except.ok.inj hrun
    rw [Term.completedFrom_nil]
    exact ⟨[], rfl, .nil⟩
  | @cons w u ws us hwu _ ihs =>
    obtain ⟨ihu, ihus⟩ := List.forall_mem_cons.mp ih
    rw [List.flatMap_cons, List.take_append, List.foldlM_append] at hrun
    obtain ⟨mid, hmid, hrun⟩ := exists_of_bind_eq_ok hrun
    obtain ⟨first, rfl, hfirst⟩ := ihu hwu hmid
    obtain ⟨rest, rfl, hrest⟩ := ihs (k := k + 1) ihus hrun
    refine ⟨first ++ rest, by rw [List.reverse_append, List.append_assoc], ?_⟩
    rw [Term.completedFrom_cons, ← hwu.walk_postOrder.length_eq]
    refine List.rel_append (List.forall₂_map_left_iff.mpr ?_) ?_
    · exact hfirst.imp fun a r ⟨c, hc, hr⟩ => ⟨c, .here hc, hr⟩
    · exact hrest.imp fun a r ⟨c, hc, hr⟩ => ⟨c, .later hc, hr⟩

/-- **The working list grows by the results of what is completed**, as long as there is no error. -/
theorem foldlM_take_walk
    (hres : ∀ (x : Vertex) args, args.length = x.operands.length → result x args = node x.payload args)
    (ht : s.Unfolds v t)
    (hrun : ((s.walk v).take n).foldlM (s.visitOne fun rs _ x => condense result rs x) rs = .ok rs') :
    ∃ new, rs' = new.reverse ++ rs
      ∧ List.Forall₂ (fun a r => ∃ c, t.at? a = some c ∧ c.result node = .ok r) (t.completed n) new := by
  induction t generalizing v n rs rs' with
  | step t ih =>
    have hlen := ht.walk_postOrder.length_eq
    rcases Nat.lt_or_ge n t.postOrder.length with hn | hn
    · -- the root is not reached
      obtain ⟨x, hx⟩ := ht.exists_vertex
      have hbelow : (s.walk v).take n = ((s.operands v).flatMap s.walk).take n := by
        rw [ht.walk_eq] at hlen ⊢
        rw [List.length_append, List.length_singleton] at hlen
        exact List.take_append_of_le_length (by omega)
      rw [hbelow, operands_of_vertex? hx] at hrun
      have hmem : ∀ u ∈ t.operands, u ∈ t.children := fun u hu => Term.mem_children_of_mem_operands hu
      obtain ⟨new, hnew, hall⟩ :=
        foldlM_take_walks (k := 0) (fun u hu => ih u (hmem u hu)) (ht.operands hx) hrun
      refine ⟨new, hnew, ?_⟩
      rw [Term.completed_of_lt hn]
      exact hall.imp fun a r ⟨c, hc, hr⟩ => ⟨c, (Term.isAt_operands_iff.mp hc).2, hr⟩
    · -- the walk is over, and one result is left
      rw [List.take_of_length_le (hlen ▸ hn), foldlM_walk hres ht] at hrun
      cases hr : t.result node with
      | error e =>
        rw [hr] at hrun
        cases hrun
      | ok r =>
        rw [hr] at hrun
        obtain rfl := Except.ok.inj hrun
        rw [Term.completed_of_le hn]
        exact ⟨[r], rfl, .cons ⟨t, rfl, hr⟩ .nil⟩

theorem Unfolds.workingList_eq (ht : s.Unfolds v t) (result : Vertex → List α → Except ε α) (n : Nat) :
    s.workingList v result n
      = ((s.walk v).take n).foldlM (s.visitOne fun rs _ x => condense result rs x) [] := by
  rw [workingList, visitFrom_eq_foldlM_take _ _ (Cursor.grounded_start ht), Cursor.pending_start ht]

/-- The walk runs along the addresses. -/
theorem Unfolds.walk_addresses (ht : s.Unfolds v t) :
    List.Forall₂ (fun w a => ∃ u, t.at? a = some u ∧ s.Unfolds w u) (s.walk v) t.addresses := by
  rw [Pointwise.iff_getElem?, t.length_addresses, ht.walk_postOrder.length_eq]
  refine ⟨rfl, fun i w a hw ha => ?_⟩
  have hlt := (List.getElem?_eq_some_iff.mp ha).1
  have hu := List.getElem?_eq_getElem (t.length_addresses ▸ hlt)
  exact ⟨_, (Pointwise.iff_getElem?.mp t.addresses_postOrder).2 i a _ ha hu,
    (Pointwise.iff_getElem?.mp ht.walk_postOrder).2 i w _ hw hu⟩

/-- Results at the places of all operands are the results of the operands. -/
theorem forall₂_operands {a : List Nat} (hu : t.at? a = some u)
    (h : List.Forall₂ (fun a r => ∃ c, t.at? a = some c ∧ R c r)
      ((List.range u.operands.length).map fun i => a ++ [i]) rs) : List.Forall₂ R u.operands rs := by
  rw [List.forall₂_map_left_iff, Pointwise.iff_getElem?, List.length_range] at h
  obtain ⟨hlen, h⟩ := h
  refine Pointwise.iff_getElem?.mpr ⟨hlen, fun i c r hc hr => ?_⟩
  have hlt := (List.getElem?_eq_some_iff.mp hc).1
  obtain ⟨c', hc', hr'⟩ := h i i r (List.getElem?_range hlt) hr
  rw [Term.at?_append, hu] at hc'
  have hplace : u.at? [i] = some c := by
    rw [Term.at?, hc]
    rfl
  exact Option.some.inj (hplace.symm.trans hc') ▸ hr'

/-- **The results of the operands are at the end**, and no fewer, when their parent comes next. -/
theorem Unfolds.operands_at_end {new : List α} (ht : s.Unfolds v t)
    (hall : List.Forall₂ (fun a r => ∃ u, t.at? a = some u ∧ R u r) (t.completed n) new)
    (hw : (s.walk v)[n]? = some w) (hx : s.vertex? w = some x) :
    x.operands.length ≤ new.length ∧ ∃ u, s.Unfolds w u
      ∧ List.Forall₂ R u.operands (new.drop (new.length - x.operands.length)) := by
  have hlt : n < t.addresses.length :=
    ht.walk_addresses.length_eq ▸ (List.getElem?_eq_some_iff.mp hw).1
  have ha := List.getElem?_eq_getElem hlt
  obtain ⟨u, hu, hwu⟩ := (Pointwise.iff_getElem?.mp ht.walk_addresses).2 n w _ hw ha
  -- what is completed ends with the operands of the vertex, and so does the list with their results
  obtain ⟨front, hfront⟩ := Term.completed_operands ha hu
  have hcount : new.length = front.length + x.operands.length := by
    rw [← hall.length_eq, hfront, List.length_append, List.length_map, List.length_range,
      (hwu.operands hx).length_eq]
  have hend := List.forall₂_drop front.length hall
  rw [hfront, List.drop_left] at hend
  rw [hcount, Nat.add_sub_cancel]
  exact ⟨Nat.le_add_left _ _, u, hwu, forall₂_operands hu hend⟩

/-- **The working list accounts for what is completed**, for any rule by which results are computed. -/
theorem Unfolds.accounts
    (hres : ∀ (x : Vertex) args, args.length = x.operands.length → result x args = node x.payload args)
    (hR : ∀ u r, R u r ↔ u.result node = .ok r) (ht : s.Unfolds v t)
    (hrun : s.workingList v result n = .ok rs) : s.Accounts v t result R n rs := by
  rw [ht.workingList_eq] at hrun
  obtain ⟨new, rfl, hnew⟩ := foldlM_take_walk hres ht hrun
  have hall : List.Forall₂ (fun a r => ∃ u, t.at? a = some u ∧ R u r) (t.completed n) new :=
    hnew.imp fun a r ⟨u, hu, hr⟩ => ⟨u, hu, (hR u r).mpr hr⟩
  rw [List.append_nil]
  refine ⟨by rwa [List.reverse_reverse], fun w x hw hx => ?_, fun hn => ?_⟩
  · rw [ht.postOrder_eq] at hw
    rw [List.reverse_reverse, List.length_reverse]
    exact ht.operands_at_end hall hw hx
  · rw [ht.postOrder_eq, ht.walk_postOrder.length_eq] at hn
    rw [Term.completed_of_le hn] at hnew
    obtain ⟨r, hr, rfl⟩ : ∃ r, t.result node = .ok r ∧ new = [r] := by
      cases hnew with
      | cons h hnil =>
        obtain ⟨u, hu, hr⟩ := h
        obtain rfl := Option.some.inj hu
        cases hnil
        exact ⟨_, hr, rfl⟩
    refine ⟨r, rfl, (hR t r).mpr hr, ?_⟩
    rw [ht.resultOf_eq hres, hr]
    rfl

/-! ## Four loops -/

theorem ok_certain (r : Except Empty α) : r = .ok (certain r) := by
  cases r with
  | error e => cases e
  | ok a => rfl

/-- A working list of results that never fail accounts for what is completed, whatever is there. -/
theorem Unfolds.accounts_sure {result : Vertex → List α → α} {node : Payload → List α → α}
    {rule : Payload → List α → α → Prop} (hres : ∀ (x : Vertex) args, result x args = node x.payload args)
    (hrule : ∀ p args a, rule p args a ↔ node p args = a) (ht : s.Unfolds v t) (n : Nat) :
    s.Accounts v t (sure result) (Term.Derives rule) n (certain (s.workingList v (sure result) n)) := by
  have hsure : ∀ (x : Vertex) args, args.length = x.operands.length →
      sure result x args = (fun p args => (.ok (node p args) : Except Empty α)) x.payload args :=
    fun x args _ => congrArg Except.ok (hres x args)
  exact ht.accounts hsure (fun _ _ => Term.derives_iff_certain hrule) (ok_certain _)

/-- **The working lists of a walk.**  In a closed store without circles let a walk from a live vertex be stopped
    after any number of its vertices, with no error so far.  In evaluation, depth, text and export alike, the
    working list then holds the results of the greatest subtrees completed, from left to right; when an operator
    with `k` operands comes next, it has `k` entries or more, and the last `k` are the results of those operands;
    and after the last vertex one entry is left. -/
theorem working_lists (hc : s.Closed) (ha : s.Acyclic) (hx : s.vertex? root = some x) :
    ∃ t, s.Unfolds root t
      ∧ List.Forall₂ (fun w a => ∃ u, t.at? a = some u ∧ s.Unfolds w u) (s.postOrder root) t.addresses
      ∧ ∀ n, (t.completed n).Pairwise (· < ·)
        ∧ (∀ apply b rs, s.workingList root (Vertex.value apply b) n = .ok rs →
          s.Accounts root t (Vertex.value apply b) (fun u r => u.value apply b = .ok r) n rs)
        ∧ s.Accounts root t (sure fun _ => depthAbove) (Term.Derives DeepAs) n
          (certain (s.workingList root (sure fun _ => depthAbove) n))
        ∧ s.Accounts root t (sure Vertex.render) (Term.Derives WrittenAs) n
          (certain (s.workingList root (sure Vertex.render) n))
        ∧ ∀ {α : Type} (e : Export α) rs, s.workingList root (Vertex.exported e) n = .ok rs →
          s.Accounts root t (Vertex.exported e) (Term.Derives (ImageOf e)) n rs := by
  obtain ⟨t, ht⟩ := hc.exists_unfolds ha hx
  refine ⟨t, ht, ht.postOrder_eq ▸ ht.walk_addresses, fun n => ⟨t.completed_sorted n, ?_, ?_, ?_, ?_⟩⟩
  · intro apply b rs hrun
    exact ht.accounts (fun _ _ h => Vertex.value_eq apply b h) (fun _ _ => Iff.rfl) hrun
  · exact ht.accounts_sure (fun _ _ => rfl) deepAs_iff n
  · exact ht.accounts_sure Vertex.render_eq writtenAs_iff n
  · intro α e rs hrun
    exact ht.accounts (fun _ _ h => Vertex.exported_eq e h) (fun _ _ => Term.derives_iff (imageOf_iff e)) hrun

end Store

namespace Session

/-- Four vertices of `negate(x) + f() + negate(x) + 2` are written: the first negation, `f` and the second `x`
    are there, and the second negation takes the `x` at the end. -/
theorem working_lists_mixed :
    (run Operator.apply mixed).store.Closed ∧ (run Operator.apply mixed).store.Acyclic
      ∧ (run Operator.apply mixed).store.vertex? 4
        = some ⟨.op ⟨.add, "add", none, some "+", some .add⟩, some [3, 2, 3, 1], 1⟩
      ∧ (run Operator.apply mixed).store.postOrder 4 = [0, 3, 2, 0, 3, 1, 4]
      ∧ ∃ t, (run Operator.apply mixed).store.Unfolds 4 t
        ∧ (run Operator.apply mixed).store.Accounts 4 t (Store.sure Vertex.render) (Term.Derives WrittenAs) 4
          ["x", "f()", "negate(x)"] := by
  have hb := balanced_run Operator.apply mixed
  have hlive : (run Operator.apply mixed).store.vertex? 4
      = some ⟨.op ⟨.add, "add", none, some "+", some .add⟩, some [3, 2, 3, 1], 1⟩ := rfl
  have hlisted : (run Operator.apply mixed).store.postOrder 4 = [0, 3, 2, 0, 3, 1, 4] := by decide +kernel
  have hlist : certain ((run Operator.apply mixed).store.workingList 4 (Store.sure Vertex.render) 4)
      = ["x", "f()", "negate(x)"] := by decide +kernel
  obtain ⟨t, ht, -, hlists⟩ := Store.working_lists hb.closed hb.acyclic hlive
  obtain ⟨-, -, -, htext, -⟩ := hlists 4
  rw [hlist] at htext
  exact ⟨hb.closed, hb.acyclic, hlive, hlisted, t, ht, htext⟩

end Session

end ExprGraph

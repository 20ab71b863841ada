import ExprGraph.Proofs.Isolation
import ExprGraph.Tree.Measures
/-!
  Folding keeps the meaning of a tree.

  After folding, whether it came to its end or failed halfway, a tree evaluates as before, by either strategy
  and under all bindings.  Folding fails on no tree that has a value under some bindings, and on a tree
  without variables it leaves the value, or fails as the evaluation does (`Session.fold_keeps_meaning`).
-/

namespace ExprGraph

namespace Store

variable {s : Store} {v : VertexId} {t : Term}

theorem stopAtVariable_eq_ok_iff {x : Vertex} :
    stopAtVariable () v x = .ok () ↔ ∀ name, x.payload ≠ .var name := by
  unfold stopAtVariable
  cases x.payload <;> simp

/-- A walk comes to its end when it meets no variable. -/
theorem Unfolds.visit_eq_ok_iff (ht : s.Unfolds v t) :
    s.visit v stopAtVariable () = .ok () ↔ t.Ground := by
  rw [ht.visit_eq_foldlM, Term.Ground]
  have hwalk := ht.walk_postOrder
  generalize s.walk v = vs at hwalk
  generalize t.postOrder = ts at hwalk
  induction hwalk with
  | nil => exact ⟨fun _ u hu => absurd hu List.not_mem_nil, fun _ => rfl⟩
  | @cons w u vs ts hwu _ ih =>
    obtain ⟨x, hx⟩ := hwu.exists_vertex
    have hhead : stopAtVariable () w x = .ok () ↔ ∀ name, u.payload ≠ .var name := by
      rw [stopAtVariable_eq_ok_iff, (hwu.children hx).1]
    have hone : s.visitOne stopAtVariable () w = stopAtVariable () w x := by rw [visitOne, hx]
    rw [List.foldlM_cons, hone, List.forall_mem_cons, ← hhead]
    cases stopAtVariable () w x with
    | error e =>
      constructor
      · intro h
        cases h
      · rintro ⟨h, -⟩
        cases h
    | ok a => exact ⟨fun h => ⟨rfl, ih.mp h⟩, fun h => ih.mpr h.2⟩

/-- **A tree is constant when no variable occurs in its term.** -/
theorem Unfolds.isConstant_iff (ht : s.Unfolds v t) : s.isConstant v = true ↔ t.Ground := by
  rw [← ht.visit_eq_ok_iff, isConstant]
  cases s.visit v stopAtVariable () with
  | error e => exact ⟨fun h => absurd h (by simp [Except.isOk, Except.toBool]), fun h => by cases h⟩
  | ok a => exact ⟨fun _ => rfl, fun _ => rfl⟩

end Store

namespace Session

variable (apply : Operator.Interpretation) {s : Session} {loose : VertexId → Nat} {h : Handle}
  {v : VertexId} {t : Term}

/-- Folding in a session, seen at the folded handle. -/
theorem foldWith_spec (hb : s.store.Balanced loose) (hh : s.store.target? h = some v)
    (ht : s.store.Unfolds v t) (summary : Bool) :
    (s.foldWith apply h summary).1 = (t.fold apply).2
      ∧ ∃ w, (s.foldWith apply h summary).2.store.target? h = some w
        ∧ (s.foldWith apply h summary).2.store.Unfolds w (t.fold apply).1 := by
  obtain ⟨w, hedit, hout⟩ := hb.foldWith apply hh ht
  rw [fst_foldWith, store_foldWith, hout]
  exact ⟨rfl, w, hedit.at?, hedit.unfolds⟩

/-- **Folding keeps the meaning of a tree**, in a store without circles whose counts are exact: all values
    and failures stay, folding fails on no tree that has a value under some bindings, and a tree without
    variables folds to its value or fails as its evaluation does. -/
theorem fold_keeps_meaning (hc : s.store.Closed) (ha : s.store.Acyclic) (he : s.store.Exact)
    (hh : s.store.target? h = some v) (summary : Bool) :
    (∀ (k : Strategy) b, (s.foldWith apply h summary).2.value apply h k.name b
        = s.value apply h k.name b)
      ∧ ((∃ (k : Strategy) (b : Bindings) (a : Value), s.value apply h k.name b = .ok a) →
        ∃ n, (s.foldWith apply h summary).1 = .ok n)
      ∧ (s.store.isConstant v = true → ∀ k : Strategy,
        ((∃ n, (s.foldWith apply h summary).1 = .ok n) ↔ ∃ a, s.value apply h k.name [] = .ok a)
          ∧ (∀ a, s.value apply h k.name [] = .ok a → ∃ w x,
            (s.foldWith apply h summary).2.store.behind h = .ok (w, x) ∧ x.payload = .const a)
          ∧ ∀ e, s.value apply h k.name [] = .error e → (s.foldWith apply h summary).1 = .error e) := by
  have hb := Store.Balanced.of_covered hc ha he.covered
  obtain ⟨t, ht, -⟩ := hb.termAt? hh
  obtain ⟨hout, w, hw, htw⟩ := foldWith_spec apply hb hh ht summary
  have hvalue : ∀ (k : Strategy) b, s.value apply h k.name b = t.value apply b := value_eq apply hh ht
  -- from here on everything is about the term
  refine ⟨fun k b => ?_, ?_, fun hconst k => ?_⟩
  · rw [value_eq apply hw htw, Term.value_fold, hvalue]
  · rintro ⟨k, b, a, hval⟩
    rw [hvalue] at hval
    rw [hout]
    cases hfold : (t.fold apply).2 with
    | ok n => exact ⟨n, rfl⟩
    | error e =>
      obtain ⟨e', he'⟩ := Term.exists_error_of_fold_error (b := b) hfold
      exact absurd (hval.symm.trans he') (by simp)
  · have hground := ht.isConstant_iff.mp hconst
    have hcomp : Term.Computed (t.fold apply) (t.value apply []) := Term.fold_of_ground hground
    rw [hout, hvalue]
    cases hval : t.value apply [] with
    | error e =>
      rw [hval] at hcomp
      have hfail : (t.fold apply).2 = .error e := hcomp
      rw [hfail]
      refine ⟨⟨fun ⟨n, hn⟩ => absurd hn (by simp), fun ⟨a, ha⟩ => absurd ha (by simp)⟩,
        fun a ha => absurd ha (by simp), fun e' he' => congrArg _ (Except.error.inj he')⟩
    | ok a =>
      rw [hval] at hcomp
      obtain ⟨hpay, n, hn⟩ := hcomp
      rw [hn]
      refine ⟨⟨fun _ => ⟨a, rfl⟩, fun _ => ⟨n, rfl⟩⟩, fun a' ha' => ?_, fun e he => absurd he (by simp)⟩
      obtain rfl := Except.ok.inj ha'
      obtain ⟨x, hx⟩ := htw.exists_vertex
      exact ⟨w, x, Store.behind_of_target? hw hx, (htw.children hx).1.trans hpay⟩

theorem fold_keeps_meaning_doubled :
    doubled.store.Exact ∧ doubled.store.target? 0 = some 1
      ∧ ∃ n, (doubled.foldWith (fun _ _ => .ok (.integer 4)) 0 true).1 = .ok n := by
  have hh : doubled.store.target? 0 = some 1 := rfl
  have hval := value_eq (fun _ _ => .ok (.integer 4)) hh Store.unfolds_doubledTerm .iterative []
  have hfold := fold_keeps_meaning (fun _ _ => .ok (.integer 4)) Store.closed_doubled
    Store.acyclic_doubled Store.exact_doubled hh true
  exact ⟨Store.exact_doubled, hh, hfold.2.1 ⟨.iterative, [], _, hval⟩⟩

end Session

end ExprGraph

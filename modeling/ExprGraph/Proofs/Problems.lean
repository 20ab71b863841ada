import ExprGraph.Proofs.Faults
import ExprGraph.Proofs.Tracing
import ExprGraph.Proofs.ValueSemantics
import ExprGraph.Tree.Validity
/-!
  The problems of a tree predict what evaluation and folding complain of.

  Main statement: as long as operators do not complain of the structure of a tree themselves, evaluating or
  folding a tree complains of it only when an operator without operands is among the problems of the tree; and
  when one is, the tree has no value under any bindings and folding does not come to its end
  (`Session.problems_predict_malformed`).

    * occurrence what is wrong with it (`Term.Flaw`), at most one thing (`Term.problem?_eq_some_iff`);
    * listing    the problems along the walk are those of the occurrences in post-order
                 (`Store.Unfolds.problems_eq`);
    * evaluation the first failure in post-order is a matter of structure only at an operator without operands;
    * folding    comes across the occurrences of the tree in whatever store (`Store.foldWith_traced`).
-/

namespace ExprGraph

namespace Term

variable {t u : Term} {p : Problem}

/-! ## What is wrong with an occurrence -/

/-- **What is wrong with an occurrence**: an operator has no operands, or other than its declared number of
    them, or there are children linked to a leaf. -/
inductive Flaw : Term → Problem → Prop
  | noOperands {t : Term} {f : Operator} (hp : t.payload = .op f) (hnil : t.operands = []) :
      Flaw t (.noOperands f.name)
  | wrongCount {t : Term} {f : Operator} {n : Nat} (hp : t.payload = .op f) (hne : t.operands ≠ [])
      (harity : f.arity = some n) (hlen : t.operands.length ≠ n) :
      Flaw t (.wrongCount f.name n t.operands.length)
  | ignored {t : Term} (hp : t.payload.isOperator = false) (hne : t.children ≠ []) :
      Flaw t (.ignored t.payload t.children.length)

/-- The problem of an occurrence, if it has one. -/
def problem? (t : Term) : Option Problem :=
  match t.payload with
  | .op f =>
    if t.operands.isEmpty then some (.noOperands f.name)
    else match f.arity with
      | some n => if t.operands.length = n then none else some (.wrongCount f.name n t.operands.length)
      | none => none
  | p => if t.children.isEmpty then none else some (.ignored p t.children.length)

theorem problem?_of_leaf (h : t.payload.isOperator = false) :
    t.problem? = if t.children.isEmpty then none else some (.ignored t.payload t.children.length) := by
  unfold problem?
  cases hp : t.payload with
  | op f =>
    rw [hp] at h
    cases h
  | var name | const v => rfl

theorem problem?_of_op {f : Operator} (hp : t.payload = .op f) :
    t.problem? = if t.operands.isEmpty then some (.noOperands f.name)
      else match f.arity with
        | some n => if t.operands.length = n then none else some (.wrongCount f.name n t.operands.length)
        | none => none := by
  simp only [problem?, hp]

/-- **An occurrence has a problem when something is wrong with it**, and one problem only. -/
theorem problem?_eq_some_iff : t.problem? = some p ↔ t.Flaw p := by
  constructor
  · intro h
    cases hop : t.payload.isOperator with
    | false =>
      rw [problem?_of_leaf hop] at h
      split at h
      · cases h
      · next hne =>
        obtain rfl := Option.some.inj h
        exact .ignored hop (by simpa using hne)
    | true =>
      obtain ⟨f, hp⟩ := Payload.isOperator_iff.mp hop
      rw [problem?_of_op hp] at h
      split at h
      · next hnil =>
        obtain rfl := Option.some.inj h
        exact .noOperands hp (List.isEmpty_iff.mp hnil)
      · next hne =>
        split at h
        · next n harity =>
          split at h
          · cases h
          · next hlen =>
            obtain rfl := Option.some.inj h
            exact .wrongCount hp (by simpa using hne) harity hlen
        · cases h
  · intro h
    cases h with
    | noOperands hp hnil => rw [problem?_of_op hp, if_pos (List.isEmpty_iff.mpr hnil)]
    | wrongCount hp hne harity hlen =>
      rw [problem?_of_op hp, if_neg (by simpa using hne), harity]
      exact if_neg hlen
    | ignored hp hne => rw [problem?_of_leaf hp, if_neg (by simpa using hne)]

/-- The problems of a term list an operator without operands when one occurs. -/
theorem exists_noOperands_iff :
    (∃ name, Problem.noOperands name ∈ t.postOrder.filterMap problem?) ↔ ¬ t.Supplied := by
  constructor
  · rintro ⟨name, hname⟩ hsup
    obtain ⟨u, hu, hp⟩ := List.mem_filterMap.mp hname
    cases problem?_eq_some_iff.mp hp with
    | noOperands hf hnil => exact hsup u hu (Payload.isOperator_iff.mpr ⟨_, hf⟩) hnil
  · intro hsup
    unfold Supplied at hsup
    push Not at hsup
    obtain ⟨u, hu, hop, hnil⟩ := hsup
    obtain ⟨f, hp⟩ := Payload.isOperator_iff.mp hop
    exact ⟨f.name, List.mem_filterMap.mpr ⟨u, hu, problem?_eq_some_iff.mpr (.noOperands hp hnil)⟩⟩

/-! ## Its value -/

variable {apply : Operator.Interpretation} {b : Bindings}

/-- **A value fails for the structure of the term only where operands are lacking.** -/
theorem not_supplied_of_value (happly : ∀ f args e, apply f args = .error e → e.isMalformed = false)
    {e : Fault} (h : t.value apply b = .error e) (he : e.isMalformed = true) : ¬ t.Supplied := by
  obtain ⟨u, hu, hfail⟩ := List.exists_of_findSome?_eq_some ((value_eq_error_iff apply b).mp h)
  rcases failure?_cases hfail with ⟨name, -, rfl⟩ | ⟨f, hp, hnil, -⟩ | ⟨f, args, -, -, hr⟩
  · -- a variable that is not bound is not a matter of structure
    cases he
  · intro hsup
    exact hsup u hu (Payload.isOperator_iff.mpr ⟨f, hp⟩) hnil
  · rw [happly f args e hr] at he
    cases he

/-- **A term with a value lacks no operands.** -/
theorem supplied_of_value {a : Value} (h : t.value apply b = .ok a) : t.Supplied := by
  intro u hu hop hnil
  have hfirst : t.firstFailure? apply b = none := by
    rw [← faultOf_value, h]
    rfl
  have hfail := List.findSome?_eq_none_iff.mp hfirst u hu
  obtain ⟨f, hp⟩ := Payload.isOperator_iff.mp hop
  simp only [failure?, hp, hnil] at hfail
  cases hfail

end Term

/-! ## Listing problems along the walk -/

/-- The problems found so far, latest first, with that of one more occurrence. -/
def Term.report (found : List Problem) (u : Term) : List Problem :=
  match u.problem? with
  | some p => p :: found
  | none => found

theorem Term.foldl_report (us : List Term) :
    ∀ found, us.foldl Term.report found = (us.filterMap problem?).reverse ++ found := by
  induction us with
  | nil => exact fun _ => rfl
  | cons u us ih =>
    intro found
    rw [List.foldl_cons, ih, Term.report]
    cases hp : u.problem? with
    | none => rw [List.filterMap_cons_none hp]
    | some p =>
      rw [List.filterMap_cons_some hp, List.reverse_cons, List.append_assoc]
      rfl

namespace Store

variable {s : Store} {v : VertexId} {x : Vertex} {t : Term}

/-- A vertex has the problem of its term. -/
theorem Unfolds.problem?_eq (ht : s.Unfolds v t) (hx : s.vertex? v = some x) :
    x.problem? = t.problem? := by
  obtain ⟨hp, -, hchildren⟩ := ht.children hx
  have hops := ht.operands hx
  unfold Vertex.problem? Term.problem?
  cases hpay : t.payload with
  | op f =>
    cases harity : f.arity <;>
      simp only [hp, hpay, harity, hops.length_eq, Pointwise.isEmpty_eq hops]
  | var name | const a =>
    simp only [hp, hpay, hchildren.length_eq, Pointwise.isEmpty_eq hchildren]

/-- **The problems of a tree are those of its occurrences**, in post-order. -/
theorem Unfolds.problems_eq (ht : s.Unfolds v t) :
    s.problems v = t.postOrder.filterMap Term.problem? := by
  have hfold : s.problems v = (t.postOrder.foldl Term.report []).reverse := by
    refine congrArg List.reverse (ht.fold_eq ?_ [])
    intro found w x u hx hwu
    cases hprob : u.problem? <;> simp only [Term.report, hwu.problem?_eq hx, hprob]
  rw [hfold, Term.foldl_report, List.append_nil, List.reverse_reverse]

/-- Folding complains of the structure of a term only where operands are lacking. -/
theorem FoldFault.not_supplied {apply : Operator.Interpretation} {e : Fault}
    (happly : ∀ f args e, apply f args = .error e → e.isMalformed = false) (h : FoldFault apply t e)
    (he : e.isMalformed = true) : ¬ t.Supplied := by
  cases h with
  | stale | circular => cases he
  | noOperands name hsup => exact hsup
  | raised f args hr =>
    rw [happly f args e hr] at he
    cases he

end Store

/-! ## In a session -/

namespace Session

variable {s : Session} {h : Handle} {v : VertexId}

/-- **The problems of a tree predict what evaluation and folding complain of**, in a store without circles.
    They are the problems of the occurrences in post-order, one for each at which something is wrong.  If
    evaluation, by either strategy and under any bindings, or folding complains of the structure, an operator
    without operands is among them; if one is, there is no value under any bindings and folding does not end
    well.  So of a tree without problems neither ever complains. -/
theorem problems_predict_malformed {apply : Operator.Interpretation}
    (happly : ∀ f args e, apply f args = .error e → e.isMalformed = false) (hc : s.store.Closed)
    (ha : s.store.Acyclic) (hh : s.store.target? h = some v) :
    ∃ t, s.store.termAt? h = some t
      ∧ s.store.problems v = t.postOrder.filterMap Term.problem?
      ∧ (∀ (u : Term) (p : Problem), u.problem? = some p ↔ u.Flaw p)
      ∧ (∀ (k : Strategy) (b : Bindings) (e : Fault), s.value apply h k.name b = .error e →
          e.isMalformed = true → ∃ name, .noOperands name ∈ s.store.problems v)
      ∧ (∀ (summary : Bool) (e : Fault), (s.foldWith apply h summary).1 = .error e →
          e.isMalformed = true → ∃ name, .noOperands name ∈ s.store.problems v)
      ∧ (∀ name, .noOperands name ∈ s.store.problems v →
          (∀ (k : Strategy) (b : Bindings) (a : Value), s.value apply h k.name b ≠ .ok a)
            ∧ ∀ (summary : Bool) (n : Nat), (s.foldWith apply h summary).1 ≠ .ok n)
      ∧ (s.store.isValid v = true →
          (∀ (k : Strategy) (b : Bindings) (e : Fault), s.value apply h k.name b = .error e →
            e.isMalformed = false)
          ∧ ∀ (summary : Bool) (e : Fault), (s.foldWith apply h summary).1 = .error e →
            e.isMalformed = false) := by
  obtain ⟨x, hx⟩ := hc.handle h v hh
  obtain ⟨t, ht⟩ := hc.exists_unfolds ha hx
  obtain ⟨hfold, hend⟩ := Store.foldWith_traced apply hc ha hh ht
  simp only [value_eq apply hh ht, fst_foldWith]
  have hlack : (∃ name, .noOperands name ∈ s.store.problems v) ↔ ¬ t.Supplied := by
    rw [ht.problems_eq]
    exact Term.exists_noOperands_iff
  have hvalid : s.store.isValid v = true → t.Supplied := by
    intro hempty
    by_contra hsup
    obtain ⟨name, hname⟩ := hlack.mpr hsup
    rw [List.isEmpty_iff.mp hempty] at hname
    cases hname
  refine ⟨t, Store.termAt?_eq_some_iff.mpr ⟨v, hh, ht⟩, ht.problems_eq,
    fun _ _ => Term.problem?_eq_some_iff, ?_, ?_, ?_, ?_⟩
  · intro _ b e he hmal
    exact hlack.mpr (Term.not_supplied_of_value happly he hmal)
  · intro _ e he hmal
    exact hlack.mpr ((hfold e he).not_supplied happly hmal)
  · intro name hname
    have hsup := hlack.mp ⟨name, hname⟩
    constructor
    · intro _ b a hvalue
      exact hsup (Term.supplied_of_value hvalue)
    · intro _ n hn
      exact hsup (hend n hn)
  · intro hok
    constructor
    · intro _ b e he
      by_contra hmal
      exact Term.not_supplied_of_value happly he (by simpa using hmal) (hvalid hok)
    · intro _ e he
      by_contra hmal
      exact (hfold e he).not_supplied happly (by simpa using hmal) (hvalid hok)

/-- A difference of three operands, the second an operator that was never linked, under handle 2. -/
def flawed : List Operation :=
  [.variableLeaf (some "x") none, .vertex (.op ⟨.add, "add", none, some "+", some .add⟩),
   .linked (.op ⟨.subtract, "subtract", some 2, some "-", some .subtract⟩) (some [0, 1, 0])]

/-- The difference has two problems, and one of them keeps it from having a value. -/
theorem problems_predict_malformed_flawed :
    (∀ f args e, Operator.apply f args = .error e → e.isMalformed = false)
      ∧ (run Operator.apply flawed).store.Closed ∧ (run Operator.apply flawed).store.Acyclic
      ∧ (run Operator.apply flawed).store.target? 2 = some 2
      ∧ (run Operator.apply flawed).store.problems 2 = [.noOperands "add", .wrongCount "subtract" 2 3]
      ∧ ∀ (k : Strategy) (b : Bindings) (a : Value),
          (run Operator.apply flawed).value Operator.apply 2 k.name b ≠ .ok a := by
  have hb := balanced_run Operator.apply flawed
  have hh : (run Operator.apply flawed).store.target? 2 = some 2 := rfl
  have happly : ∀ f args e, Operator.apply f args = .error e → e.isMalformed = false :=
    fun f args e he => Operator.isMalformed_of_apply he
  have hterm : (run Operator.apply flawed).store.termAt? 2
      = some (.linked (.op ⟨.subtract, "subtract", some 2, some "-", some .subtract⟩)
          [.bare (.var "x"), .bare (.op ⟨.add, "add", none, some "+", some .add⟩), .bare (.var "x")]) := rfl
  obtain ⟨t, ht, hproblems, -, -, -, hnone, -⟩ :=
    problems_predict_malformed happly hb.closed hb.acyclic hh
  obtain rfl := Option.some.inj (ht.symm.trans hterm)
  have hlist : (run Operator.apply flawed).store.problems 2
      = [.noOperands "add", .wrongCount "subtract" 2 3] := hproblems
  refine ⟨happly, hb.closed, hb.acyclic, hh, hlist, (hnone "add" ?_).1⟩
  rw [hlist]
  exact List.mem_cons_self

end Session

end ExprGraph

import ExprGraph.Proofs.Faults
import ExprGraph.Proofs.ValueSemantics
import ExprGraph.Tree.Measures
/-!
  The variables of a tree are what its evaluation needs.

  Main statement: as long as no operator complains of a variable itself, evaluation finds a variable missing
  exactly when some name of the tree is not bound, and then it is the first such occurrence in post-order; a
  tree has a value only when all its names are bound; and nothing else in the bindings matters
  (`Session.variables_determine_value`).

    * state      the bindings;
    * occurrence the names of a term in post-order, one for each occurrence (`Term.varNames`);
    * collector  the usage of names counted along the walk (`Store.usage`), which has the same names.
-/

namespace ExprGraph

/-! ## The names of a term -/

/-- The name of a variable. -/
def Payload.name? : Payload → Option String
  | .var name => some name
  | .op _ | .const _ => none

theorem Payload.name?_eq_some_iff {p : Payload} {name : String} : p.name? = some name ↔ p = .var name := by
  cases p <;> simp [Payload.name?]

/-- A name is not bound. -/
def Bindings.lacks (b : Bindings) (name : String) : Bool := (b.lookup name).isNone

namespace Term

/-- The name of a term that is a variable. -/
def varName? (t : Term) : Option String := t.payload.name?

/-- **The names of the variables of a term in post-order**, once for each occurrence. -/
def varNames (t : Term) : List String := t.postOrder.filterMap varName?

/-- The first variable in post-order that is not bound. -/
def firstUnbound? (b : Bindings) (t : Term) : Option String :=
  t.varNames.find? b.lacks

theorem mem_varNames_iff {t : Term} {name : String} :
    name ∈ t.varNames ↔ ∃ u ∈ t.postOrder, u.payload = .var name := by
  simp only [varNames, List.mem_filterMap, varName?, Payload.name?_eq_some_iff]

/-- The variables below an operand are variables of the term. -/
theorem mem_varNames_of_operand {t u : Term} {name : String} (hu : u ∈ t.operands)
    (h : name ∈ u.varNames) : name ∈ t.varNames := by
  obtain ⟨c, hc, hp⟩ := mem_varNames_iff.mp h
  exact mem_varNames_iff.mpr ⟨c, mem_postOrder_of_operand hu hc, hp⟩

/-- The names below a term are those below its operands, and its own when it is a variable. -/
theorem varNames_eq (t : Term) : t.varNames = t.operands.flatMap varNames ++ t.varName?.toList := by
  rw [varNames, postOrder_eq, List.filterMap_append, List.filterMap_flatMap]
  congr 1

theorem varNames_of_not_var {t : Term} (h : t.varName? = none) : t.varNames = t.operands.flatMap varNames := by
  rw [varNames_eq, h]
  exact List.append_nil _

/-! ## Its value -/

variable {apply : Operator.Interpretation} {b b' : Bindings}

/-- **Bindings that agree on the variables of a term give it one value**, or one failure. -/
theorem value_congr {t : Term} (h : ∀ name ∈ t.varNames, b.lookup name = b'.lookup name) :
    t.value apply b = t.value apply b' := by
  induction t with
  | step t ih =>
    have hops : t.operands.mapM (value apply b) = t.operands.mapM (value apply b') := by
      refine Pointwise.mapM_congr (List.forall₂_same.mpr ?_)
      intro u hu
      refine ih u (mem_children_of_mem_operands hu) ?_
      intro name hname
      exact h name (mem_varNames_of_operand hu hname)
    have hroot : ∀ args, t.payload.value apply b args = t.payload.value apply b' args := by
      intro args
      cases hp : t.payload with
      | op f => rfl
      | const v => rfl
      | var name =>
        have hlook := h name (mem_varNames_iff.mpr ⟨t, self_mem_postOrder t, hp⟩)
        show b.find name = b'.find name
        rw [Bindings.find, Bindings.find, hlook]
    rw [value_eq, value_eq, hops]
    cases t.operands.mapM (value apply b') with
    | error e => rfl
    | ok args => exact hroot args

/-- A variable fails exactly when it is not bound. -/
theorem failure?_var {t : Term} {name : String} (hp : t.payload = .var name) :
    t.failure? apply b = if b.lacks name then some (.unbound name) else none := by
  have hfault : ∀ a : Option Value,
      faultOf (orFault (.unbound name) a) = if a.isNone then some (.unbound name) else none := by
    intro a
    cases a <;> rfl
  simp only [failure?, hp]
  exact hfault (b.lookup name)

/-- An occurrence that complains of a variable is that variable, when operators do not complain of any. -/
theorem name?_of_failure? (happly : ∀ f args name, apply f args ≠ .error (.unbound name)) {t : Term}
    {x : String} (h : t.failure? apply b = some (.unbound x)) : t.varName? = some x := by
  rcases failure?_cases h with ⟨name, hp, he⟩ | ⟨f, -, -, he⟩ | ⟨f, args, -, -, he⟩
  · obtain rfl := Fault.unbound.inj he
    exact Payload.name?_eq_some_iff.mpr hp
  · cases he
  · exact absurd he (happly f args x)

/-- **The first failure complains of the first variable that is not bound.** -/
theorem firstUnbound?_of_firstFailure? (happly : ∀ f args name, apply f args ≠ .error (.unbound name))
    {t : Term} {x : String} (h : t.firstFailure? apply b = some (.unbound x)) :
    t.firstUnbound? b = some x := by
  unfold firstFailure? at h
  unfold firstUnbound? varNames
  -- what comes before the failure in post-order is bound, if it is a variable
  generalize t.postOrder = ts at h ⊢
  induction ts with
  | nil => cases h
  | cons u us ih =>
    rw [List.findSome?_cons] at h
    cases hu : u.failure? apply b with
    | some e =>
      rw [hu] at h
      obtain rfl : e = .unbound x := Option.some.inj h
      have hname := name?_of_failure? happly hu
      have hlook : u.failure? apply b = _ := failure?_var (Payload.name?_eq_some_iff.mp hname)
      have hnone : b.lacks x = true := by
        by_contra hbound
        rw [if_neg hbound, hu] at hlook
        cases hlook
      rw [List.filterMap_cons_some hname, List.find?_cons_of_pos hnone]
    | none =>
      rw [hu] at h
      have hrest := ih h
      cases hname : u.varName? with
      | none =>
        rw [List.filterMap_cons_none hname]
        exact hrest
      | some y =>
        rw [failure?_var (Payload.name?_eq_some_iff.mp hname)] at hu
        have hbound : ¬ b.lacks y = true := by
          intro hnone
          rw [if_pos hnone] at hu
          cases hu
        rw [List.filterMap_cons_some hname, List.find?_cons_of_neg hbound]
        exact hrest

/-- A term with a value has all its variables bound. -/
theorem lookup_isSome_of_value {t : Term} {a : Value} (h : t.value apply b = .ok a) {name : String}
    (hname : name ∈ t.varNames) : (b.lookup name).isSome = true := by
  obtain ⟨u, hu, hp⟩ := mem_varNames_iff.mp hname
  have hfirst : t.firstFailure? apply b = none := by
    rw [← faultOf_value, h]
    rfl
  have hfail := List.findSome?_eq_none_iff.mp hfirst u hu
  rw [failure?_var hp, Bindings.lacks] at hfail
  cases hlook : b.lookup name with
  | some a => rfl
  | none =>
    rw [hlook] at hfail
    cases hfail

end Term

/-! ## Counting names along the walk -/

theorem Usage.mem_names_count {name x : String} {u : Usage} :
    x ∈ (u.count name).names ↔ x = name ∨ x ∈ u.names := by
  unfold names
  induction u with
  | nil => simp [count]
  | cons entry rest ih =>
    obtain ⟨other, n⟩ := entry
    rw [count]
    split
    · next heq =>
      subst heq
      simp
    · rw [List.map_cons, List.mem_cons, ih, List.map_cons, List.mem_cons]
      constructor
      · rintro (h | h | h)
        · exact .inr (.inl h)
        · exact .inl h
        · exact .inr (.inr h)
      · rintro (h | h | h)
        · exact .inr (.inl h)
        · exact .inl h
        · exact .inr (.inr h)

/-- The usage of names with that of one more occurrence. -/
def Term.countInto (u : Usage) (c : Term) : Usage :=
  match c.varName? with
  | some name => u.count name
  | none => u

theorem Term.mem_names_foldl {name : String} (ts : List Term) :
    ∀ u : Usage, name ∈ (ts.foldl Term.countInto u).names
      ↔ name ∈ u.names ∨ name ∈ ts.filterMap varName? := by
  induction ts with
  | nil => simp
  | cons c ts ih =>
    intro u
    rw [List.foldl_cons, ih, Term.countInto]
    cases hname : c.varName? with
    | none =>
      rw [List.filterMap_cons_none hname]
    | some x =>
      rw [List.filterMap_cons_some hname, List.mem_cons, Usage.mem_names_count]
      tauto

/-- The usage of names is counted occurrence by occurrence. -/
theorem Store.Unfolds.usage_eq {s : Store} {v : VertexId} {t : Term} (ht : s.Unfolds v t) :
    s.usage v = t.postOrder.foldl Term.countInto [] := by
  refine ht.fold_eq ?_ []
  intro u w x c hx hwc
  rw [Term.countInto, Term.varName?, ← (hwc.children hx).1]
  cases x.payload <;> rfl

/-- **The collected names are those of the variables of the term.** -/
theorem Store.Unfolds.mem_variableNames_iff {s : Store} {v : VertexId} {t : Term} {name : String}
    (ht : s.Unfolds v t) : name ∈ s.variableNames v ↔ name ∈ t.varNames := by
  rw [variableNames, ht.usage_eq, Term.mem_names_foldl]
  simp [Usage.names, Term.varNames]

/-! ## In a session -/

namespace Session

variable {s : Session} {h : Handle} {v : VertexId}

/-- **The variables of a tree determine its value**, in a store without circles and by either strategy.
    Evaluation complains of the first variable in post-order that is not bound, and of none when all names of
    the tree are bound; with a value all of them are bound; and bindings that agree on them come to the
    same. -/
theorem variables_determine_value {apply : Operator.Interpretation}
    (happly : ∀ f args name, apply f args ≠ .error (.unbound name)) (hc : s.store.Closed)
    (ha : s.store.Acyclic) (hh : s.store.target? h = some v) :
    ∃ t, s.store.termAt? h = some t ∧ ∀ (k : Strategy) (b : Bindings),
      (∀ x, s.value apply h k.name b = .error (.unbound x) →
        x ∈ s.store.variableNames v ∧ b.lookup x = none ∧ t.firstUnbound? b = some x)
      ∧ ((∀ x ∈ s.store.variableNames v, (b.lookup x).isSome = true) →
        ∀ x, s.value apply h k.name b ≠ .error (.unbound x))
      ∧ (∀ a, s.value apply h k.name b = .ok a →
        ∀ x ∈ s.store.variableNames v, (b.lookup x).isSome = true)
      ∧ ∀ b' : Bindings, (∀ x ∈ s.store.variableNames v, b.lookup x = b'.lookup x) →
        s.value apply h k.name b = s.value apply h k.name b' := by
  obtain ⟨x, hx⟩ := hc.handle h v hh
  obtain ⟨t, ht⟩ := hc.exists_unfolds ha hx
  refine ⟨t, Store.termAt?_eq_some_iff.mpr ⟨v, hh, ht⟩, ?_⟩
  intro k b
  simp only [value_eq apply hh ht, ht.mem_variableNames_iff]
  have hmissing : ∀ x, t.value apply b = .error (.unbound x) →
      x ∈ t.varNames ∧ b.lookup x = none ∧ t.firstUnbound? b = some x := by
    intro x hx
    have hfirst := Term.firstUnbound?_of_firstFailure? happly ((Term.value_eq_error_iff apply b).mp hx)
    have hnone := List.find?_some hfirst
    exact ⟨List.mem_of_find?_eq_some hfirst, Option.isNone_iff_eq_none.mp hnone, hfirst⟩
  refine ⟨hmissing, ?_, ?_, ?_⟩
  · intro hall x hx
    obtain ⟨hmem, hnone, -⟩ := hmissing x hx
    have hsome := hall x hmem
    rw [hnone] at hsome
    cases hsome
  · intro a ha x hx
    exact Term.lookup_isSome_of_value ha hx
  · intro b' hagree
    exact Term.value_congr hagree

/-- The sum `x + y + x`, under handle 2. -/
def sumOfNames : List Operation :=
  [.variableLeaf (some "x") none, .variableLeaf (some "y") none,
   .linked (.op ⟨.add, "add", none, some "+", some .add⟩) (some [0, 1, 0])]

/-- With `x` alone bound, the sum lacks `y`, which is its first name that is not bound. -/
theorem variables_determine_value_sumOfNames :
    (∀ f args name, Operator.apply f args ≠ .error (.unbound name))
      ∧ (run Operator.apply sumOfNames).store.Closed ∧ (run Operator.apply sumOfNames).store.Acyclic
      ∧ (run Operator.apply sumOfNames).store.target? 2 = some 2
      ∧ (run Operator.apply sumOfNames).value Operator.apply 2 "recursive" [("x", .integer 1)]
          = .error (.unbound "y")
      ∧ "y" ∈ (run Operator.apply sumOfNames).store.variableNames 2 := by
  have hb := balanced_run Operator.apply sumOfNames
  have hh : (run Operator.apply sumOfNames).store.target? 2 = some 2 := rfl
  have hv : (run Operator.apply sumOfNames).value Operator.apply 2 "recursive" [("x", .integer 1)]
      = .error (.unbound "y") := rfl
  obtain ⟨t, -, hall⟩ := variables_determine_value Operator.apply_ne_unbound hb.closed hb.acyclic hh
  obtain ⟨hmissing, -⟩ := hall .recursive [("x", .integer 1)]
  exact ⟨Operator.apply_ne_unbound, hb.closed, hb.acyclic, hh, hv, (hmissing "y" hv).1⟩

end Session

end ExprGraph

import ExprGraph.Proofs.TermValue
/-!
  Folding the constants of a term.

  Folding goes from the operands up and from left to right, and stops at the first failure with what was
  folded until then (`Term.fold`).  It never changes the value of a term, whatever the bindings and whether it
  comes to its end or not (`Term.value_fold`); it fails only where the term has no value under any bindings
  (`Term.exists_error_of_fold_error`); and where no variable occurs it computes the very value
  (`Term.fold_of_ground`).
-/

namespace ExprGraph

namespace Term

variable (apply : Operator.Interpretation)

/-- The values of constants; nothing when one of the terms is no constant. -/
def constants (ts : List Term) : Option (List Value) := ts.mapM fun t => t.payload.value?

/-- An operator over folded operands, of which `n` occurrences were folded: a constant if they are constants
    and the operator has a value on them. -/
def collapse (f : Operator) (ts : List Term) (n : Nat) : Term × Except Fault Nat :=
  match constants ts with
  | none => (.linked (.op f) ts, .ok n)
  | some args =>
    match apply f args with
    | .ok r => (.bare (.const r), .ok (n + 1))
    | .error e => (.linked (.op f) ts, .error e)

variable {apply} in
theorem collapse_of_none {f : Operator} {ts : List Term} (h : constants ts = none) (n : Nat) :
    collapse apply f ts n = (.linked (.op f) ts, .ok n) := by
  simp only [collapse, h]

variable {apply} in
theorem collapse_of_error {f : Operator} {ts : List Term} {args : List Value} {e : Fault}
    (h : constants ts = some args) (he : apply f args = .error e) (n : Nat) :
    collapse apply f ts n = (.linked (.op f) ts, .error e) := by
  simp only [collapse, h, he]

variable {apply} in
theorem collapse_of_ok {f : Operator} {ts : List Term} {args : List Value} {r : Value}
    (h : constants ts = some args) (hr : apply f args = .ok r) (n : Nat) :
    collapse apply f ts n = (.bare (.const r), .ok (n + 1)) := by
  simp only [collapse, h, hr]

mutual

/-- **The term with its constants folded**, as far as that went, and the number of operators that went or
    the failure.  Leaves stay as they are, with whatever is linked to them. -/
def fold : Term → Term × Except Fault Nat
  | bare (.op f) => (.bare (.op f), .error (.noOperands f.name))
  | bare p => (.bare p, .ok 0)
  | linked (.op f) ts =>
    if ts.isEmpty then (.linked (.op f) ts, .error (.noOperands f.name))
    else match foldAll ts with
      | (us, .ok n) => collapse apply f us n
      | (us, .error e) => (.linked (.op f) us, .error e)
  | linked p ts => (.linked p ts, .ok 0)

/-- Folds terms from left to right, up to the first failure. -/
def foldAll : List Term → List Term × Except Fault Nat
  | [] => ([], .ok 0)
  | t :: ts =>
    match t.fold with
    | (u, .error e) => (u :: ts, .error e)
    | (u, .ok n) =>
      match foldAll ts with
      | (us, .ok m) => (u :: us, .ok (n + m))
      | (us, .error e) => (u :: us, .error e)

end

variable {apply}

theorem fold_of_leaf {t : Term} (h : t.payload.isOperator = false) : t.fold apply = (t, .ok 0) := by
  cases t with
  | bare p => cases p <;> first | rfl | exact absurd h (by simp [payload, Payload.isOperator])
  | linked p ts => cases p <;> first | rfl | exact absurd h (by simp [payload, Payload.isOperator])

theorem operands_of_op {t : Term} {f : Operator} (hp : t.payload = .op f) : t.operands = t.children := by
  rw [operands, hp]
  rfl

/-- An operator without operands cannot be folded. -/
theorem fold_of_no_operands {t : Term} {f : Operator} (hp : t.payload = .op f) (ht : t.operands = []) :
    t.fold apply = (t, .error (.noOperands f.name)) := by
  cases t with
  | bare p =>
    obtain rfl : p = .op f := hp
    rfl
  | linked p ts =>
    obtain rfl : p = .op f := hp
    obtain rfl : ts = [] := ht
    rfl

/-- An operator with operands is linked to them. -/
theorem eq_linked {t : Term} {f : Operator} (hp : t.payload = .op f) (ht : t.operands ≠ []) :
    t = .linked (.op f) t.operands := by
  cases t with
  | bare p => exact absurd rfl (operands_of_op hp ▸ ht)
  | linked p ts =>
    obtain rfl : p = .op f := hp
    rfl

/-- A term that fails leaves those behind it as they are, -/
theorem foldAll_cons_error {t u : Term} {ts : List Term} {e : Fault} (h : t.fold apply = (u, .error e)) :
    foldAll apply (t :: ts) = (u :: ts, .error e) := by
  rw [foldAll, h]

/-- and after one that does not they are folded in turn. -/
theorem foldAll_cons_ok {t u : Term} {ts : List Term} {n : Nat} (h : t.fold apply = (u, .ok n)) :
    foldAll apply (t :: ts) = (u :: (foldAll apply ts).1, (foldAll apply ts).2.map (n + ·)) := by
  rw [foldAll, h]
  cases foldAll apply ts with
  | mk us r => cases r <;> rfl

/-- An operator is folded after its operands, -/
theorem fold_of_ok {t : Term} {f : Operator} {us : List Term} {n : Nat} (hp : t.payload = .op f)
    (ht : t.operands ≠ []) (h : foldAll apply t.operands = (us, .ok n)) :
    t.fold apply = collapse apply f us n := by
  rw [eq_linked hp ht, fold, if_neg (by simpa using ht), h]

/-- unless one of them fails. -/
theorem fold_of_error {t : Term} {f : Operator} {us : List Term} {e : Fault} (hp : t.payload = .op f)
    (ht : t.operands ≠ []) (h : foldAll apply t.operands = (us, .error e)) :
    t.fold apply = (.linked (.op f) us, .error e) := by
  rw [eq_linked hp ht, fold, if_neg (by simpa using ht), h]

/-! ## Values -/

variable {b : Bindings}

theorem value_linked (f : Operator) (ts : List Term) :
    (linked (.op f) ts).value apply b = (ts.mapM (value apply b)).bind ((Payload.op f).value apply b) :=
  value_eq apply b _

/-- A constant has its value, whatever is linked to it. -/
theorem value_of_value? {t : Term} {v : Value} (h : t.payload.value? = some v) :
    t.value apply b = .ok v := by
  cases hp : t.payload with
  | const w =>
    rw [hp] at h
    obtain rfl := Option.some.inj h
    rw [value_eq, hp, operands_of_not_isOperator (by rw [hp]; rfl)]
    rfl
  | op f | var name => rw [hp] at h; exact absurd h (by simp [Payload.value?])

theorem mapM_value_of_constants {ts : List Term} {args : List Value} (h : constants ts = some args) :
    ts.mapM (value apply b) = .ok args :=
  Pointwise.mapM_eq_ok_iff.mpr ((Pointwise.mapM_eq_some_iff.mp h).imp fun _ _ h => value_of_value? h)

/-- An operator on constants has the value of its function. -/
theorem value_of_constants {f : Operator} {ts : List Term} {args : List Value} (hne : ts ≠ [])
    (h : constants ts = some args) : (linked (.op f) ts).value apply b = apply f args := by
  have hlen := (Pointwise.mapM_eq_some_iff.mp h).length_eq
  have hargs : ¬ args.isEmpty = true := by
    rintro he
    rw [List.isEmpty_iff.mp he] at hlen
    exact hne (List.length_eq_zero_iff.mp hlen)
  rw [value_linked, mapM_value_of_constants h]
  exact if_neg hargs

/-- Collapsing an operator leaves its value. -/
theorem value_collapse {f : Operator} {ts : List Term} (hne : ts ≠ []) (n : Nat) :
    (collapse apply f ts n).1.value apply b = (linked (.op f) ts).value apply b := by
  cases hc : constants ts with
  | none => rw [collapse_of_none hc]
  | some args =>
    cases hr : apply f args with
    | error e => rw [collapse_of_error hc hr]
    | ok r =>
      rw [collapse_of_ok hc hr, value_of_constants hne hc, hr]
      rfl

/-- Folding keeps the number of terms and, where it keeps the value of each, all values. -/
theorem mapM_value_foldAll {ts : List Term}
    (h : ∀ t ∈ ts, (t.fold apply).1.value apply b = t.value apply b) :
    (foldAll apply ts).1.length = ts.length
      ∧ (foldAll apply ts).1.mapM (value apply b) = ts.mapM (value apply b) := by
  induction ts with
  | nil => exact ⟨rfl, rfl⟩
  | cons t ts ih =>
    have hhead := h t List.mem_cons_self
    obtain ⟨hlen, hvals⟩ := ih fun u hu => h u (List.mem_cons_of_mem t hu)
    rw [foldAll]
    split
    · next u e hfold =>
      rw [hfold] at hhead
      exact ⟨rfl, by rw [List.mapM_cons, List.mapM_cons, hhead]⟩
    · next u n hfold =>
      rw [hfold] at hhead
      split
      · next us m hall =>
        rw [hall] at hlen hvals
        exact ⟨congrArg Nat.succ hlen, by rw [List.mapM_cons, List.mapM_cons, hhead, hvals]⟩
      · next us e hall =>
        rw [hall] at hlen hvals
        exact ⟨congrArg Nat.succ hlen, by rw [List.mapM_cons, List.mapM_cons, hhead, hvals]⟩

/-- **Folding does not change the value**, under any bindings, and no matter whether it came to its end. -/
theorem value_fold (t : Term) : (t.fold apply).1.value apply b = t.value apply b := by
  induction t with
  | step t ih =>
    cases hp : t.payload with
    | var name | const v => rw [fold_of_leaf (by rw [hp]; rfl)]
    | op f =>
      by_cases hne : t.operands = []
      · rw [fold_of_no_operands hp hne]
      · obtain ⟨hlen, hvals⟩ := mapM_value_foldAll fun u hu => ih u (mem_children_of_mem_operands hu)
        have hsame : (linked (.op f) (foldAll apply t.operands).1).value apply b = t.value apply b := by
          rw [value_linked, hvals, value_eq apply b t, hp]
        cases hall : foldAll apply t.operands with
        | mk us r =>
          rw [hall] at hlen hsame
          cases r with
          | error e => exact (fold_of_error hp hne hall).symm ▸ hsame
          | ok n =>
            have hus : us ≠ [] := by
              rintro rfl
              exact hne (List.length_eq_zero_iff.mp hlen.symm)
            rw [fold_of_ok hp hne hall, value_collapse hus]
            exact hsame

/-! ## Failures -/

/-- When folding terms fails, folding one of them does. -/
theorem exists_mem_of_foldAll_error {ts us : List Term} {e : Fault}
    (h : foldAll apply ts = (us, .error e)) : ∃ t ∈ ts, (t.fold apply).2 = .error e := by
  induction ts generalizing us with
  | nil => exact absurd (congrArg Prod.snd h) (by simp [foldAll])
  | cons t ts ih =>
    rw [foldAll] at h
    split at h
    · next u e' hfold =>
      have he : Except.error e' = Except.error e := congrArg Prod.snd h
      exact ⟨t, List.mem_cons_self, by rw [hfold, ← he]⟩
    · next u n hfold =>
      split at h
      · exact absurd (congrArg Prod.snd h) (by simp)
      · next vs e' hall =>
        obtain rfl : e' = e := Except.error.inj (congrArg Prod.snd h)
        obtain ⟨c, hc, hce⟩ := ih hall
        exact ⟨c, List.mem_cons_of_mem t hc, hce⟩

/-- A collapse fails only as the operator does on the constants. -/
theorem constants_of_collapse_error {f : Operator} {ts : List Term} {n : Nat} {e : Fault}
    (h : (collapse apply f ts n).2 = .error e) :
    ∃ args, constants ts = some args ∧ apply f args = .error e := by
  cases hc : constants ts with
  | none =>
    rw [collapse_of_none hc] at h
    exact absurd h (by simp)
  | some args =>
    cases hr : apply f args with
    | ok r =>
      rw [collapse_of_ok hc hr] at h
      exact absurd h (by simp)
    | error e' =>
      rw [collapse_of_error hc hr] at h
      obtain rfl : e' = e := Except.error.inj h
      exact ⟨args, rfl, hr⟩

/-- **Folding fails only where there is no value**, whatever the bindings. -/
theorem exists_error_of_fold_error {t : Term} {e : Fault} (h : (t.fold apply).2 = .error e) :
    ∃ e', t.value apply b = .error e' := by
  induction t generalizing e with
  | step t ih =>
    cases hp : t.payload with
    | var name | const v =>
      rw [fold_of_leaf (by rw [hp]; rfl)] at h
      exact absurd h (by simp)
    | op f =>
      by_cases hne : t.operands = []
      · exact ⟨.noOperands f.name, by rw [value_eq, hp, hne]; rfl⟩
      · cases hall : foldAll apply t.operands with
        | mk us r =>
          cases r with
          | error e' =>
            obtain ⟨u, hu, hue⟩ := exists_mem_of_foldAll_error hall
            obtain ⟨d, hd⟩ := ih u (mem_children_of_mem_operands hu) hue
            cases hvals : t.operands.mapM (value apply b) with
            | error d' => exact ⟨d', by rw [value_eq, hvals]; rfl⟩
            | ok args =>
              obtain ⟨a, -, ha⟩ := Pointwise.exists_right (Pointwise.mapM_eq_ok_iff.mp hvals) hu
              exact absurd (hd.symm.trans ha) (by simp)
          | ok n =>
            rw [fold_of_ok hp hne hall] at h
            obtain ⟨args, hargs, he⟩ := constants_of_collapse_error h
            obtain ⟨hlen, hvals⟩ := mapM_value_foldAll (b := b) fun u (_ : u ∈ t.operands) => value_fold u
            rw [hall] at hlen hvals
            have hus : us ≠ [] := by
              rintro rfl
              exact hne (List.length_eq_zero_iff.mp hlen.symm)
            refine ⟨e, ?_⟩
            rw [value_eq, hp, ← hvals, ← value_linked, value_of_constants hus hargs, he]

/-! ## Terms without variables -/

/-- No variable occurs in the term. -/
def Ground (t : Term) : Prop := ∀ u ∈ t.postOrder, ∀ name, u.payload ≠ .var name

theorem Ground.operand {t u : Term} (h : t.Ground) (hu : u ∈ t.operands) : u.Ground := by
  intro c hc name
  refine h c ?_ name
  rw [postOrder_eq]
  exact List.mem_append_left _ (List.mem_flatMap.mpr ⟨u, hu, hc⟩)

/-- What folding comes to when it computes a value or fails as the computation does. -/
def Computed (r : Term × Except Fault Nat) : Except Fault Value → Prop
  | .ok v => r.1.payload = .const v ∧ ∃ n, r.2 = .ok n
  | .error e => r.2 = .error e

/-- Operands that compute leave their values as constants, or the first failure among them. -/
theorem foldAll_computed {ts : List Term}
    (h : ∀ t ∈ ts, Computed (t.fold apply) (t.value apply b)) :
    (∃ us n args, foldAll apply ts = (us, .ok n) ∧ constants us = some args
      ∧ ts.mapM (value apply b) = .ok args) ∨
    ∃ us e, foldAll apply ts = (us, .error e) ∧ ts.mapM (value apply b) = .error e := by
  induction ts with
  | nil => exact .inl ⟨[], 0, [], rfl, rfl, rfl⟩
  | cons t ts ih =>
    have hhead := h t List.mem_cons_self
    rw [List.mapM_cons, foldAll]
    cases hv : t.value apply b with
    | error e =>
      rw [hv] at hhead
      have hfold : t.fold apply = ((t.fold apply).1, .error e) := Prod.ext rfl hhead
      rw [hfold]
      exact .inr ⟨_, e, rfl, rfl⟩
    | ok v =>
      rw [hv] at hhead
      obtain ⟨hconst, n, hn⟩ := hhead
      have hfold : t.fold apply = ((t.fold apply).1, .ok n) := Prod.ext rfl hn
      rw [hfold]
      rcases ih fun u hu => h u (List.mem_cons_of_mem t hu) with
        ⟨us, m, args, hall, hargs, hvals⟩ | ⟨us, e, hall, hvals⟩
      · rw [hall, hvals]
        refine .inl ⟨_, n + m, v :: args, rfl, ?_, rfl⟩
        exact Pointwise.mapM_eq_some_iff.mpr
          (.cons (by rw [hconst]; rfl) (Pointwise.mapM_eq_some_iff.mp hargs))
      · rw [hall, hvals]
        exact .inr ⟨_, e, rfl, rfl⟩

/-- **Without variables folding computes the value**, and fails exactly as the computation does. -/
theorem fold_of_ground {t : Term} (h : t.Ground) : Computed (t.fold apply) (t.value apply b) := by
  induction t with
  | step t ih =>
    cases hp : t.payload with
    | var name =>
      refine absurd hp (h t ?_ name)
      rw [postOrder_eq]
      exact List.mem_append_right _ List.mem_cons_self
    | const v =>
      rw [fold_of_leaf (by rw [hp]; rfl), value_of_value? (by rw [hp]; rfl)]
      exact ⟨hp, 0, rfl⟩
    | op f =>
      by_cases hne : t.operands = []
      · rw [fold_of_no_operands hp hne, value_eq, hp, hne]
        exact rfl
      · rcases foldAll_computed (b := b)
            fun u hu => ih u (mem_children_of_mem_operands hu) (h.operand hu) with
          ⟨us, n, args, hall, hargs, hvals⟩ | ⟨us, e, hall, hvals⟩
        · have hlen := (Pointwise.mapM_eq_ok_iff.mp hvals).length_eq
          have hnil : ¬ args.isEmpty = true := by
            intro he
            rw [List.isEmpty_iff.mp he] at hlen
            exact hne (List.length_eq_zero_iff.mp hlen)
          have hvalue : t.value apply b = apply f args := by
            rw [value_eq, hvals, hp]
            exact if_neg hnil
          rw [fold_of_ok hp hne hall, hvalue]
          cases hr : apply f args with
          | error e => rw [collapse_of_error hargs hr]; exact rfl
          | ok r => rw [collapse_of_ok hargs hr]; exact ⟨rfl, n + 1, rfl⟩
        · rw [fold_of_error hp hne hall, value_eq, hvals]
          exact rfl

end Term

end ExprGraph

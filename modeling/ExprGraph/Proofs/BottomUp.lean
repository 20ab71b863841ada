import ExprGraph.Proofs.Meaning
import ExprGraph.Proofs.Variables
/-!
  Folding a tree is the plain recursion on its term.

  Main statement: when folding the tree of a handle comes to its end, the tree unfolds into what its term
  folds to from the bottom up, the number returned is that of the operators in the term with no variable below
  them, and the variables are the same, occurrence by occurrence (`Session.fold_bottom_up`).

    * spec       what a term folds to, one rule for each kind of root (`Term.FoldsTo`);
    * count      operators without variables, once for each occurrence (`Term.foldable`);
    * invariant  what is left is a constant exactly when no variable occurs in it (`FoldsTo.isSome_value?`);
    * induction  over the term (`Term.foldsTo_of_fold`).

  Vertices play no part in this: that a shared vertex is folded once for each of its occurrences is what an
  edit through one place means (`Session.foldWith_spec`).
-/

namespace ExprGraph

namespace Term

variable {apply : Operator.Interpretation} {t u : Term} {ts us : List Term} {f : Operator} {n : Nat}

/-! ## What a term folds to -/

/-- **What a term folds to from the bottom up.** -/
inductive FoldsTo (apply : Operator.Interpretation) : Term → Term → Prop where
  /-- a leaf stays as it is, with whatever is linked to it -/
  | leaf {t : Term} (hleaf : t.payload.isOperator = false) : FoldsTo apply t t
  /-- an operator over constants becomes a constant without children -/
  | constant {f : Operator} {ts us : List Term} {args : List Value} {r : Value} (hne : ts ≠ [])
      (hus : List.Forall₂ (FoldsTo apply) ts us) (hargs : constants us = some args)
      (hr : apply f args = .ok r) : FoldsTo apply (.linked (.op f) ts) (.bare (.const r))
  /-- an operator over anything else stays, over what its operands fold to -/
  | operator {f : Operator} {ts us : List Term} (hus : List.Forall₂ (FoldsTo apply) ts us)
      (hargs : constants us = none) : FoldsTo apply (.linked (.op f) ts) (.linked (.op f) us)

/-- The number of operators in a term with no variable below them, once for each occurrence. -/
def foldable (t : Term) : Nat := t.postOrder.countP fun u => u.payload.isOperator && u.varNames.isEmpty

theorem foldable_eq (t : Term) :
    t.foldable = (t.operands.map foldable).sum
      + if t.payload.isOperator && t.varNames.isEmpty then 1 else 0 := by
  rw [foldable, postOrder_eq, List.countP_append, List.countP_flatMap, List.countP_singleton]
  rfl

/-- **A term folds to one term.** -/
theorem FoldsTo.unique {u' : Term} (h : FoldsTo apply t u) (h' : FoldsTo apply t u') : u = u' := by
  induction t generalizing u u' with
  | step t ih =>
    -- operands fold to the same, so both rules for an operator agree on the constants
    have hoperands : ∀ {f : Operator} {ts us us' : List Term}, t = .linked (.op f) ts →
        List.Forall₂ (FoldsTo apply) ts us → List.Forall₂ (FoldsTo apply) ts us' → us = us' := by
      rintro f ts us us' rfl hus hus'
      have hmem := Pointwise.imp_mem hus fun a ha _ _ hab => And.intro ha hab
      have hmem' := Pointwise.imp_mem hus' fun a ha _ _ hab => And.intro ha hab
      refine Pointwise.eq_of_unique hmem hmem' ?_
      rintro b - a c ⟨ha, hab⟩ ⟨-, hac⟩
      exact ih a ha hab hac
    cases h with
    | leaf hleaf =>
      cases h' with
      | leaf _ => rfl
      | constant => cases hleaf
      | operator => cases hleaf
    | constant hne hus hargs hr =>
      cases h' with
      | leaf hleaf => cases hleaf
      | constant _ hus' hargs' hr' =>
        obtain rfl := hoperands rfl hus hus'
        obtain rfl := Option.some.inj (hargs.symm.trans hargs')
        obtain rfl := Except.ok.inj (hr.symm.trans hr')
        rfl
      | operator hus' hargs' =>
        obtain rfl := hoperands rfl hus hus'
        cases hargs.symm.trans hargs'
    | operator hus hargs =>
      cases h' with
      | leaf hleaf => cases hleaf
      | constant _ hus' hargs' _ =>
        obtain rfl := hoperands rfl hus hus'
        cases hargs.symm.trans hargs'
      | operator hus' _ =>
        obtain rfl := hoperands rfl hus hus'
        rfl

/-! ## Its variables -/

theorem varNames_linked (f : Operator) (ts : List Term) :
    (linked (.op f) ts).varNames = ts.flatMap varNames :=
  varNames_of_not_var rfl

/-- Where each term is a constant exactly when it has no variable, all are constants exactly when none has. -/
theorem isSome_constants (h : ∀ u ∈ us, u.payload.value?.isSome = u.varNames.isEmpty) :
    (constants us).isSome = (us.flatMap varNames).isEmpty := by
  induction us with
  | nil => rfl
  | cons u us ih =>
    have hhead := h u List.mem_cons_self
    have htail := ih fun c hc => h c (List.mem_cons_of_mem u hc)
    rw [constants] at htail
    have hsplit : (u.varNames ++ us.flatMap varNames).isEmpty
        = (u.varNames.isEmpty && (us.flatMap varNames).isEmpty) := by
      cases u.varNames <;> rfl
    rw [constants, List.mapM_cons, List.flatMap_cons, hsplit, ← hhead, ← htail]
    cases u.payload.value? with
    | none => rfl
    | some a => cases us.mapM fun t => t.payload.value? <;> rfl

/-- A term that something folds to has the same variables, and is a constant exactly when it has none. -/
theorem FoldsTo.folded (h : FoldsTo apply t u) :
    u.varNames = t.varNames ∧ u.payload.value?.isSome = u.varNames.isEmpty := by
  induction t generalizing u with
  | step t ih =>
    have hoperands : ∀ {f : Operator} {ts us : List Term}, t = .linked (.op f) ts →
        List.Forall₂ (FoldsTo apply) ts us → us.flatMap varNames = ts.flatMap varNames
          ∧ (constants us).isSome = (us.flatMap varNames).isEmpty := by
      rintro f ts us rfl hus
      have hall : List.Forall₂ (fun a b => b.varNames = a.varNames
          ∧ b.payload.value?.isSome = b.varNames.isEmpty) ts us :=
        Pointwise.imp_mem hus fun a ha b _ hab => ih a ha hab
      refine ⟨?_, isSome_constants fun b hb => ?_⟩
      · exact (Pointwise.flatMap_congr (hall.imp fun a b hab => hab.1.symm)).symm
      · obtain ⟨a, -, hab⟩ := Pointwise.exists_left hall hb
        exact hab.2
    cases h with
    | leaf hleaf =>
      refine ⟨rfl, ?_⟩
      rw [varNames_eq, operands_of_not_isOperator hleaf, varName?]
      cases hp : t.payload with
      | op f =>
        rw [hp] at hleaf
        cases hleaf
      | var name => rfl
      | const a => rfl
    | constant hne hus hargs hr =>
      obtain ⟨hnames, hempty⟩ := hoperands rfl hus
      rw [hargs] at hempty
      have hnone := List.isEmpty_iff.mp hempty.symm
      refine ⟨?_, rfl⟩
      rw [varNames_linked, ← hnames, hnone]
      rfl
    | operator hus hargs =>
      obtain ⟨hnames, hempty⟩ := hoperands rfl hus
      rw [hargs] at hempty
      rw [varNames_linked, varNames_linked]
      exact ⟨hnames, hempty⟩

/-- **Folding keeps the variables**, in their order. -/
theorem FoldsTo.varNames_eq (h : FoldsTo apply t u) : u.varNames = t.varNames := h.folded.1

/-- **What is left is a constant exactly when it has no variable.** -/
theorem FoldsTo.isSome_value? (h : FoldsTo apply t u) : u.payload.value?.isSome = u.varNames.isEmpty :=
  h.folded.2

/-! ## The fold in place -/

/-- What holds of every term that folds to its end holds along a list that does, and the counts add up. -/
theorem foldAll_of_ok {R : Term → Term → Prop} {c : Term → Nat}
    (h : ∀ t ∈ ts, ∀ u n, t.fold apply = (u, .ok n) → R t u ∧ n = c t)
    (hall : foldAll apply ts = (us, .ok n)) : List.Forall₂ R ts us ∧ n = (ts.map c).sum := by
  induction ts generalizing us n with
  | nil =>
    cases hall
    exact ⟨.nil, rfl⟩
  | cons t ts ih =>
    rw [foldAll] at hall
    split at hall
    · cases hall
    · next u m hfold =>
      obtain ⟨hhead, rfl⟩ := h t List.mem_cons_self u m hfold
      split at hall
      · next us' m' hrest =>
        obtain ⟨htail, rfl⟩ := ih (fun a ha => h a (List.mem_cons_of_mem t ha)) hrest
        cases hall
        exact ⟨.cons hhead htail, rfl⟩
      · cases hall

/-- **The fold in place follows the recursion** and counts the operators without variables. -/
theorem foldsTo_of_fold (h : t.fold apply = (u, .ok n)) : FoldsTo apply t u ∧ n = t.foldable := by
  induction t generalizing u n with
  | step t ih =>
    rw [foldable_eq]
    cases hp : t.payload with
    | var name | const a =>
      have hleaf : t.payload.isOperator = false := by rw [hp]; rfl
      rw [fold_of_leaf hleaf] at h
      cases h
      rw [operands_of_not_isOperator hleaf]
      exact ⟨.leaf hleaf, rfl⟩
    | op f =>
      by_cases hne : t.operands = []
      · rw [fold_of_no_operands hp hne] at h
        cases h
      · have ht := eq_linked hp hne
        generalize t.operands = ts at ht hne
        subst ht
        cases hall : foldAll apply ts with
        | mk us r =>
          cases r with
          | error e =>
            rw [fold_of_error hp hne hall] at h
            cases h
          | ok m =>
            rw [fold_of_ok hp hne hall] at h
            obtain ⟨hus, rfl⟩ := foldAll_of_ok ih hall
            have hnames : ts.flatMap varNames = us.flatMap varNames :=
              Pointwise.flatMap_congr (hus.imp fun a b hab => hab.varNames_eq.symm)
            have hconst : (constants us).isSome = (us.flatMap varNames).isEmpty := by
              refine isSome_constants fun b hb => ?_
              obtain ⟨a, -, hab⟩ := Pointwise.exists_left hus hb
              exact hab.isSome_value?
            rw [varNames_linked, hnames]
            -- the operator goes exactly when no variable occurs below it
            cases hc : constants us with
            | none =>
              rw [collapse_of_none hc] at h
              rw [hc] at hconst
              cases h
              rw [← hconst]
              exact ⟨.operator hus hc, rfl⟩
            | some args =>
              rw [hc] at hconst
              cases hr : apply f args with
              | error e =>
                rw [collapse_of_error hc hr] at h
                cases h
              | ok a =>
                rw [collapse_of_ok hc hr] at h
                cases h
                rw [← hconst]
                exact ⟨.constant hne hus hc hr, rfl⟩

end Term

/-! ## In a session -/

/-- Trees with the same variables, in their order, use their names alike. -/
theorem Store.Unfolds.usage_congr {s s' : Store} {v w : VertexId} {t u : Term} (ht : s.Unfolds v t)
    (hu : s'.Unfolds w u) (hnames : u.varNames = t.varNames) : s'.usage w = s.usage v := by
  have hcount : ∀ t : Term, t.postOrder.foldl Term.countInto []
      = t.varNames.foldl (fun (c : Usage) name => c.count name) [] := by
    intro t
    rw [Term.varNames, List.foldl_filterMap]
    congr 1
    funext c a
    unfold Term.countInto
    cases a.varName? <;> rfl
  rw [ht.usage_eq, hu.usage_eq, hcount, hcount, hnames]

namespace Session

variable {s : Session} {h : Handle} {v : VertexId} {n : Nat}

/-- **Folding is the recursion from the bottom up**, whatever is shared, in a store without circles whose
    counts are exact.  When it comes to its end, the tree unfolds into the one term that its term folds to; it
    returns the number of operators with no variable below them, each occurrence counted; and the variables
    are the same in the same order, so names are used as often as before. -/
theorem fold_bottom_up {apply : Operator.Interpretation} (hc : s.store.Closed) (ha : s.store.Acyclic)
    (he : s.store.Exact) (hh : s.store.target? h = some v) {summary : Bool}
    (hn : (s.foldWith apply h summary).1 = .ok n) :
    ∃ t u w, s.store.termAt? h = some t ∧ (s.foldWith apply h summary).2.store.target? h = some w
      ∧ (s.foldWith apply h summary).2.store.termAt? h = some u
      ∧ (∀ c, Term.FoldsTo apply t c ↔ c = u)
      ∧ n = t.foldable
      ∧ u.varNames = t.varNames
      ∧ (s.foldWith apply h summary).2.store.usage w = s.store.usage v := by
  have hb := Store.Balanced.of_covered hc ha he.covered
  obtain ⟨t, ht, hterm⟩ := hb.termAt? hh
  obtain ⟨hout, w, hw, hu⟩ := foldWith_spec apply hb hh ht summary
  have hfold : t.fold apply = ((t.fold apply).1, .ok n) := Prod.ext rfl (hout.symm.trans hn)
  obtain ⟨hto, hcount⟩ := Term.foldsTo_of_fold hfold
  refine ⟨t, (t.fold apply).1, w, hterm, hw, Store.termAt?_eq_some_iff.mpr ⟨w, hw, hu⟩, ?_, hcount,
    hto.varNames_eq, ht.usage_congr hu hto.varNames_eq⟩
  intro c
  constructor
  · intro hc
    exact hc.unique hto
  · rintro rfl
    exact hto

/-- The sum `(2 + 2) * x + (2 + 2)`, under handle 4.  The inner sum is one vertex. -/
def sharedTwice : List Operation :=
  [.constantLeaf (.integer 2), .linked (.op ⟨.add, "add", none, some "+", some .add⟩) (some [0, 0]),
   .variableLeaf (some "x") none, .linked (.op ⟨.multiply, "multiply", none, some "*", some .multiply⟩) (some [1, 2]),
   .linked (.op ⟨.add, "add", none, some "+", some .add⟩) (some [3, 1])]

/-- Its term. -/
def sharedTwiceTerm : Term :=
  let four := Term.linked (.op ⟨.add, "add", none, some "+", some .add⟩)
    [.bare (.const (.integer 2)), .bare (.const (.integer 2))]
  .linked (.op ⟨.add, "add", none, some "+", some .add⟩)
    [.linked (.op ⟨.multiply, "multiply", none, some "*", some .multiply⟩) [four, .bare (.var "x")], four]

theorem term?_sharedTwice : (run Operator.apply sharedTwice).store.term? 4 = some sharedTwiceTerm := rfl

/-- Two operators go. -/
theorem foldWith_sharedTwice :
    ((run Operator.apply sharedTwice).foldWith Operator.apply 4 true).1 = .ok 2 := by
  have hh : (run Operator.apply sharedTwice).store.target? 4 = some 4 := rfl
  have ht := Store.term?_eq_some_iff.mp term?_sharedTwice
  exact (foldWith_spec Operator.apply (balanced_run Operator.apply sharedTwice) hh ht true).1.trans rfl

/-- The shared sum is folded twice, once for each of its occurrences. -/
theorem fold_bottom_up_sharedTwice :
    (run Operator.apply sharedTwice).store.Closed ∧ (run Operator.apply sharedTwice).store.Acyclic
      ∧ (run Operator.apply sharedTwice).store.Exact
      ∧ (run Operator.apply sharedTwice).store.target? 4 = some 4
      ∧ ((run Operator.apply sharedTwice).foldWith Operator.apply 4 true).1 = .ok 2
      ∧ 2 = sharedTwiceTerm.foldable := by
  have hb := balanced_run Operator.apply sharedTwice
  have he : (run Operator.apply sharedTwice).store.Exact := hb.owners
  have hh : (run Operator.apply sharedTwice).store.target? 4 = some 4 := rfl
  obtain ⟨t, u, w, ht, -, -, -, hcount, -⟩ :=
    fold_bottom_up hb.closed hb.acyclic he hh foldWith_sharedTwice
  obtain rfl := Option.some.inj (ht.symm.trans term?_sharedTwice)
  exact ⟨hb.closed, hb.acyclic, he, hh, foldWith_sharedTwice, hcount⟩

end Session

end ExprGraph

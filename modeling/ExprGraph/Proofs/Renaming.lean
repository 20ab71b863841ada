import ExprGraph.Proofs.TermFolding
/-!
  Renaming functions.

  A function with operands fixed beforehand has a number, which says no more than which of the copies it is.
  Renaming the numbers in a term (`Term.rename`) changes nothing that is computed from the term: it has the
  same value (`Term.value_rename`), and it is folded in the same way (`Term.fold_rename`).  That asks of the
  operators that a copy of a function computes what the function does (`Operator.Uniform`), as they do
  (`Operator.uniform_apply`).  A deep copy is a renaming itself (`Term.deepCopy_eq_rename`).
-/

namespace ExprGraph

variable {ρ σ : Nat → Nat} {apply : Operator.Interpretation} {b : Bindings}

/-! ## Payloads -/

/-- The function with another number. -/
def Primitive.rename (ρ : Nat → Nat) : Primitive → Primitive
  | partialSum n => partialSum (ρ n)
  | f => f

/-- The operator with its function renamed. -/
def Operator.rename (ρ : Nat → Nat) (f : Operator) : Operator := { f with function := f.function.rename ρ }

/-- The payload with its function renamed, if it has one. -/
def Payload.rename (ρ : Nat → Nat) : Payload → Payload
  | op f => op (f.rename ρ)
  | p => p

/-- **A copy of a function computes what the function does.** -/
def Operator.Uniform (apply : Operator.Interpretation) : Prop :=
  ∀ (ρ : Nat → Nat) (f : Operator) (args : List Value), apply (f.rename ρ) args = apply f args

theorem Operator.uniform_apply : Operator.Uniform Operator.apply := by
  rintro ρ ⟨f, name, arity, symbol⟩ args
  cases f <;> rfl

namespace Primitive

theorem rename_rename (f : Primitive) : (f.rename ρ).rename σ = f.rename (σ ∘ ρ) := by
  cases f <;> rfl

theorem rename_id (f : Primitive) : f.rename id = f := by
  cases f <;> rfl

theorem rename_congr {f : Primitive} (h : ∀ n < f.nextCopy, ρ n = σ n) : f.rename ρ = f.rename σ := by
  cases f with
  | partialSum n => exact congrArg partialSum (h n (Nat.lt_succ_self n))
  | _ => rfl

theorem deepCopy_eq_rename (fresh : Nat) (f : Primitive) : f.deepCopy fresh = f.rename (fresh + ·) := by
  cases f <;> rfl

end Primitive

namespace Payload

@[simp] theorem isOperator_rename (p : Payload) : (p.rename ρ).isOperator = p.isOperator := by
  cases p <;> rfl

@[simp] theorem value?_rename (p : Payload) : (p.rename ρ).value? = p.value? := by
  cases p <;> rfl

theorem rename_rename (p : Payload) : (p.rename ρ).rename σ = p.rename (σ ∘ ρ) := by
  cases p with
  | op f => exact congrArg (fun g => op { f with function := g }) f.function.rename_rename
  | var name => rfl
  | const v => rfl

theorem rename_id (p : Payload) : p.rename id = p := by
  cases p with
  | op f => exact congrArg (fun g => op { f with function := g }) f.function.rename_id
  | var name => rfl
  | const v => rfl

theorem rename_congr {p : Payload} (h : ∀ n < p.nextCopy, ρ n = σ n) : p.rename ρ = p.rename σ := by
  cases p with
  | op f => exact congrArg (fun g => op { f with function := g }) (Primitive.rename_congr h)
  | var name => rfl
  | const v => rfl

theorem deepCopy_eq_rename (fresh : Nat) (p : Payload) : p.deepCopy fresh = p.rename (fresh + ·) := by
  cases p with
  | op f => exact congrArg (fun g => op { f with function := g }) (f.function.deepCopy_eq_rename fresh)
  | var name => rfl
  | const v => rfl

/-- Renaming does not show in the value. -/
theorem value_rename (hu : Operator.Uniform apply) (p : Payload) (args : List Value) :
    (p.rename ρ).value apply b args = p.value apply b args := by
  cases p with
  | op f =>
    show (if args.isEmpty then Except.error (Fault.noOperands f.name) else apply (f.rename ρ) args)
      = if args.isEmpty then Except.error (Fault.noOperands f.name) else apply f args
    rw [hu]
  | var name => rfl
  | const v => rfl

end Payload

/-! ## Terms -/

namespace Term

mutual

/-- **The term with all its functions renamed**, those in inert children too. -/
def rename (ρ : Nat → Nat) : Term → Term
  | bare p => .bare (p.rename ρ)
  | linked p ts => .linked (p.rename ρ) (renameAll ρ ts)

/-- Several terms renamed. -/
def renameAll (ρ : Nat → Nat) : List Term → List Term
  | [] => []
  | t :: ts => t.rename ρ :: renameAll ρ ts

end

theorem renameAll_eq_map (ts : List Term) : renameAll ρ ts = ts.map (rename ρ) := by
  induction ts with
  | nil => rfl
  | cons t ts ih => rw [renameAll, ih, List.map_cons]

theorem rename_linked (p : Payload) (ts : List Term) :
    (linked p ts).rename ρ = .linked (p.rename ρ) (ts.map (rename ρ)) := by
  rw [rename, renameAll_eq_map]

@[simp] theorem payload_rename (t : Term) : (t.rename ρ).payload = t.payload.rename ρ := by
  cases t <;> rfl

@[simp] theorem links_rename (t : Term) : (t.rename ρ).links = t.links.map (List.map (rename ρ)) := by
  cases t with
  | bare p => rfl
  | linked p ts => exact congrArg some (renameAll_eq_map ts)

theorem children_rename (t : Term) : (t.rename ρ).children = t.children.map (rename ρ) := by
  cases t with
  | bare p => rfl
  | linked p ts => exact renameAll_eq_map ts

theorem operands_rename (t : Term) : (t.rename ρ).operands = t.operands.map (rename ρ) := by
  unfold operands
  rw [payload_rename, Payload.isOperator_rename, children_rename]
  split <;> rfl

/-- Two ways to map the links agree when they agree at each child. -/
theorem links_map_congr {t : Term} {f g : Term → Term} (h : ∀ u ∈ t.children, f u = g u) :
    t.links.map (List.map f) = t.links.map (List.map g) := by
  cases t with
  | bare p => rfl
  | linked p ts => exact congrArg some (List.map_congr_left h)

/-- One renaming after the other. -/
theorem rename_rename (t : Term) : (t.rename ρ).rename σ = t.rename (σ ∘ ρ) := by
  induction t with
  | step t ih =>
    refine eq_of_payload_of_links ?_ ?_
    · rw [payload_rename, payload_rename, payload_rename, Payload.rename_rename]
    · have htwice : (t.links.map (List.map (rename ρ))).map (List.map (rename σ))
          = t.links.map (List.map (rename σ ∘ rename ρ)) := by
        cases t.links with
        | none => rfl
        | some ts => exact congrArg some List.map_map
      rw [links_rename, links_rename, links_rename, htwice]
      exact links_map_congr ih

theorem nextCopy_payload_le (t : Term) : t.payload.nextCopy ≤ t.nextCopy := by
  cases t with
  | bare p => exact Nat.le_refl _
  | linked p ts => exact Nat.le_max_left _ _

theorem nextCopy_child_le {t u : Term} (hu : u ∈ t.children) : u.nextCopy ≤ t.nextCopy := by
  have hall : ∀ ts : List Term, u ∈ ts → u.nextCopy ≤ nextCopyAll ts := by
    intro ts hu
    induction ts with
    | nil => exact absurd hu List.not_mem_nil
    | cons t ts ih =>
      rcases List.mem_cons.mp hu with rfl | hu
      · exact Nat.le_max_left _ _
      · exact Nat.le_trans (ih hu) (Nat.le_max_right _ _)
  cases t with
  | bare p => exact absurd hu List.not_mem_nil
  | linked p ts => exact Nat.le_trans (hall ts hu) (Nat.le_max_right _ _)

/-- **Only the numbers that occur count.** -/
theorem rename_congr {t : Term} (h : ∀ n < t.nextCopy, ρ n = σ n) : t.rename ρ = t.rename σ := by
  induction t with
  | step t ih =>
    refine eq_of_payload_of_links ?_ ?_
    · rw [payload_rename, payload_rename]
      exact Payload.rename_congr fun n hn => h n (Nat.lt_of_lt_of_le hn t.nextCopy_payload_le)
    · rw [links_rename, links_rename]
      refine links_map_congr fun u hu => ih u hu fun n hn => ?_
      exact h n (Nat.lt_of_lt_of_le hn (nextCopy_child_le hu))

/-- **A deep copy renames every function.** -/
theorem deepCopy_eq_rename (fresh : Nat) (t : Term) : t.deepCopy fresh = t.rename (fresh + ·) := by
  induction t with
  | step t ih =>
    rw [deepCopy_eq]
    refine eq_of_payload_of_links ?_ ?_
    · rw [payload_make, payload_rename, Payload.deepCopy_eq_rename]
    · rw [links_make, links_rename]
      exact links_map_congr ih

theorem rename_id (t : Term) : t.rename id = t := by
  induction t with
  | step t ih =>
    refine eq_of_payload_of_links ?_ ?_
    · rw [payload_rename, Payload.rename_id]
    · have hid : t.links.map (List.map id) = t.links := by
        cases t.links with
        | none => rfl
        | some ts => exact congrArg some (List.map_id ts)
      rw [links_rename, links_map_congr ih]
      exact hid

/-! ## Values -/

/-- **Renaming does not show in the value of a term.** -/
theorem value_rename (hu : Operator.Uniform apply) (t : Term) :
    (t.rename ρ).value apply b = t.value apply b := by
  induction t with
  | step t ih =>
    have hargs : (t.operands.map (rename ρ)).mapM (value apply b) = t.operands.mapM (value apply b) := by
      refine Pointwise.mapM_congr (List.forall₂_map_left_iff.mpr (List.forall₂_same.mpr fun u hu => ?_))
      exact ih u (mem_children_of_mem_operands hu)
    rw [value_eq, value_eq apply b t, operands_rename, payload_rename, hargs]
    exact congrArg _ (funext fun args => t.payload.value_rename hu args)

/-! ## Folding -/

theorem constants_rename (ts : List Term) : constants (ts.map (rename ρ)) = constants ts := by
  unfold constants
  induction ts with
  | nil => rfl
  | cons t ts ih => rw [List.map_cons, List.mapM_cons, List.mapM_cons, ih, payload_rename, Payload.value?_rename]

/-- A renamed result of folding. -/
def renameFolded (ρ : Nat → Nat) (r : Term × Except Fault Nat) : Term × Except Fault Nat :=
  (r.1.rename ρ, r.2)

theorem collapse_rename (hu : Operator.Uniform apply) (f : Operator) (ts : List Term) (n : Nat) :
    collapse apply (f.rename ρ) (ts.map (rename ρ)) n = renameFolded ρ (collapse apply f ts n) := by
  have hlinked : ((linked (.op f) ts).rename ρ) = .linked (.op (f.rename ρ)) (ts.map (rename ρ)) :=
    rename_linked _ _
  cases hc : constants ts with
  | none =>
    rw [collapse_of_none hc, collapse_of_none ((constants_rename ts).trans hc), renameFolded, hlinked]
  | some args =>
    have hc' := (constants_rename (ρ := ρ) ts).trans hc
    cases hr : apply f args with
    | error e =>
      rw [collapse_of_error hc hr, collapse_of_error hc' ((hu ρ f args).trans hr), renameFolded, hlinked]
    | ok r =>
      rw [collapse_of_ok hc hr, collapse_of_ok hc' ((hu ρ f args).trans hr)]
      rfl

theorem foldAll_rename {ts : List Term}
    (h : ∀ t ∈ ts, (t.rename ρ).fold apply = renameFolded ρ (t.fold apply)) :
    foldAll apply (ts.map (rename ρ))
      = ((foldAll apply ts).1.map (rename ρ), (foldAll apply ts).2) := by
  induction ts with
  | nil => rfl
  | cons t ts ih =>
    have hhead := h t List.mem_cons_self
    have hrest := ih fun u hu => h u (List.mem_cons_of_mem t hu)
    rw [List.map_cons, foldAll, foldAll, hhead, hrest]
    obtain ⟨u, r⟩ := t.fold apply
    cases r with
    | error e => rfl
    | ok n =>
      obtain ⟨us, q⟩ := foldAll apply ts
      cases q with
      | error e => rfl
      | ok m => rfl

/-- **Renaming and folding can be done in either order.** -/
theorem fold_rename (hu : Operator.Uniform apply) (t : Term) :
    (t.rename ρ).fold apply = renameFolded ρ (t.fold apply) := by
  induction t with
  | step t ih =>
    cases hp : t.payload with
    | var name | const v =>
      have hleaf : t.payload.isOperator = false := by
        rw [hp]
        rfl
      rw [fold_of_leaf hleaf, fold_of_leaf (by rw [payload_rename, Payload.isOperator_rename, hleaf])]
      rfl
    | op f =>
      have hp' : (t.rename ρ).payload = .op (f.rename ρ) := by
        rw [payload_rename, hp]
        rfl
      by_cases hne : t.operands = []
      · have hne' : (t.rename ρ).operands = [] := by rw [operands_rename, hne, List.map_nil]
        rw [fold_of_no_operands hp hne, fold_of_no_operands hp' hne']
        rfl
      · have hne' : (t.rename ρ).operands ≠ [] := by
          rw [operands_rename]
          exact fun hnil => hne (List.map_eq_nil_iff.mp hnil)
        have hall := foldAll_rename fun u hu => ih u (mem_children_of_mem_operands hu)
        rw [← operands_rename] at hall
        cases hold : foldAll apply t.operands with
        | mk us r =>
          rw [hold] at hall
          cases r with
          | error e =>
            have hlinked : (linked (.op f) us).rename ρ
                = .linked (.op (f.rename ρ)) (us.map (rename ρ)) := rename_linked _ _
            rw [fold_of_error hp hne hold, fold_of_error hp' hne' hall, renameFolded, hlinked]
          | ok n => rw [fold_of_ok hp hne hold, fold_of_ok hp' hne' hall, collapse_rename hu]

end Term

end ExprGraph

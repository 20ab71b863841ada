import ExprGraph.Proofs.Pointwise
import ExprGraph.Proofs.Term
import ExprGraph.Tree.Evaluation
/-!
  The value of a term, and what goes wrong first.

  A term has the value of its payload on the values of its operands, which are computed from left to right;
  the first error ends the computation (`Term.value`).  Seen from the occurrences of a term, an occurrence
  fails by itself when its operands have values and its own step has none, and the error of the term is that
  of the first occurrence in post-order that fails (`Term.value_eq_error_iff`).
-/

namespace ExprGraph

/-- The error of a computation that failed. -/
def faultOf {ε α : Type} : Except ε α → Option ε
  | .error e => some e
  | .ok _ => none

theorem faultOf_eq_some_iff {ε α : Type} {r : Except ε α} {e : ε} :
    faultOf r = some e ↔ r = .error e := by
  cases r with
  | error e' => exact ⟨fun h => congrArg _ (Option.some.inj h), fun h => congrArg _ (Except.error.inj h)⟩
  | ok a => exact ⟨fun h => absurd h (by simp [faultOf]), fun h => absurd h (by simp)⟩

/-- The error of a computation along a list is the first error of a member. -/
theorem faultOf_mapM {ε α β : Type} (f : α → Except ε β) (as : List α) :
    faultOf (as.mapM f) = as.findSome? fun a => faultOf (f a) := by
  induction as with
  | nil => rfl
  | cons a as ih =>
    rw [List.mapM_cons, List.findSome?_cons, ← ih]
    cases f a with
    | error e => rfl
    | ok b => cases as.mapM f <;> rfl

theorem findSome?_congr {α β : Type} {f g : α → Option β} :
    ∀ {as : List α}, (∀ a ∈ as, f a = g a) → as.findSome? f = as.findSome? g
  | [], _ => rfl
  | a :: as, h => by
    rw [List.findSome?_cons, List.findSome?_cons, h a List.mem_cons_self,
      findSome?_congr fun b hb => h b (List.mem_cons_of_mem a hb)]

namespace Term

section FirstFault

variable {ε α : Type} (node : Payload → List α → Except ε α)

/-- **What goes wrong at an occurrence itself**, its operands having results. -/
def ownFault? (t : Term) : Option ε :=
  match t.operands.mapM (result node) with
  | .ok args => faultOf (node t.payload args)
  | .error _ => none

variable {node} in
theorem ownFault?_of_ok {t : Term} {args : List α} (h : t.operands.mapM (result node) = .ok args) :
    t.ownFault? node = faultOf (node t.payload args) := by
  rw [ownFault?, h]

variable {node} in
theorem ownFault?_of_error {t : Term} {e : ε} (h : t.operands.mapM (result node) = .error e) :
    t.ownFault? node = none := by
  rw [ownFault?, h]

/-- The first fault among occurrences listed below several terms is found term by term. -/
theorem findSome?_flatMap_postOrder {β : Type} (f : Term → Option β) (us : List Term) :
    (us.flatMap postOrder).findSome? f = us.findSome? fun u => u.postOrder.findSome? f := by
  induction us with
  | nil => rfl
  | cons u us ih =>
    rw [List.flatMap_cons, List.findSome?_append, ih, List.findSome?_cons]
    cases u.postOrder.findSome? f <;> rfl

/-- **A term has no result for the reason of its first failing occurrence** in post-order. -/
theorem faultOf_result (t : Term) :
    faultOf (t.result node) = t.postOrder.findSome? (ownFault? node) := by
  induction t with
  | step t ih =>
    have hops : faultOf (t.operands.mapM (result node))
        = (t.operands.flatMap postOrder).findSome? (ownFault? node) := by
      rw [faultOf_mapM, findSome?_flatMap_postOrder]
      exact findSome?_congr fun u hu => ih u (mem_children_of_mem_operands hu)
    rw [postOrder_eq, List.findSome?_append, ← hops, List.findSome?_singleton, result_eq]
    cases h : t.operands.mapM (result node) with
    | error e => rfl
    | ok args =>
      rw [ownFault?_of_ok h]
      rfl

end FirstFault

end Term

/-- The value of a payload on the values of its operands. -/
def Payload.value (apply : Operator.Interpretation) (b : Bindings) :
    Payload → List Value → Except Fault Value
  | .op f, args => if args.isEmpty then .error (.noOperands f.name) else apply f args
  | .var name, _ => b.find name
  | .const v, _ => .ok v

/-- The value of a vertex is that of its payload, on as many values as it has operands. -/
theorem Vertex.value_eq (apply : Operator.Interpretation) (b : Bindings) {x : Vertex}
    {args : List Value} (h : args.length = x.operands.length) :
    x.value apply b args = x.payload.value apply b args := by
  unfold Vertex.value Payload.value
  cases x.payload with
  | op f =>
    have hempty : x.operands.isEmpty = args.isEmpty := by
      cases hx : x.operands <;> cases args <;> simp_all
    simp only [hempty]
  | var name => rfl
  | const v => rfl

namespace Term

variable (apply : Operator.Interpretation) (b : Bindings)

/-- **The value of a term.** -/
def value (t : Term) : Except Fault Value := t.result (Payload.value apply b)

/-- The value of a term by those of its operands. -/
theorem value_eq (t : Term) :
    t.value apply b = (t.operands.mapM (value apply b)).bind (t.payload.value apply b) :=
  result_eq _ t

/-- **What goes wrong at an occurrence itself**, its operands having values: a variable is not bound, an
    operator has no operands, or the operator fails. -/
def failure? (t : Term) : Option Fault :=
  match t.payload with
  | .const _ => none
  | .var name => faultOf (b.find name)
  | .op f =>
    if t.operands.isEmpty then some (.noOperands f.name)
    else match t.operands.mapM (value apply b) with
      | .ok args => faultOf (apply f args)
      | .error _ => none

variable {apply b} in
/-- **An occurrence fails for one of three reasons.** -/
theorem failure?_cases {t : Term} {e : Fault} (h : t.failure? apply b = some e) :
    (∃ name, t.payload = .var name ∧ e = .unbound name)
      ∨ (∃ f, t.payload = .op f ∧ t.operands = [] ∧ e = .noOperands f.name)
      ∨ ∃ f args, t.payload = .op f ∧ t.operands.mapM (value apply b) = .ok args
        ∧ apply f args = .error e := by
  unfold failure? at h
  split at h
  · cases h
  · next name hp =>
    rw [faultOf_eq_some_iff, Bindings.find] at h
    cases hlook : b.lookup name with
    | some v =>
      rw [hlook] at h
      cases h
    | none =>
      rw [hlook] at h
      exact .inl ⟨name, hp, (Except.error.inj h).symm⟩
  · next f hp =>
    split at h
    · next hnil => exact .inr (.inl ⟨f, hp, List.isEmpty_iff.mp hnil, (Option.some.inj h).symm⟩)
    · split at h
      · next args hargs => exact .inr (.inr ⟨f, args, hp, hargs, faultOf_eq_some_iff.mp h⟩)
      · cases h

/-- **The first failure in post-order.** -/
def firstFailure? (t : Term) : Option Fault := t.postOrder.findSome? (failure? apply b)

theorem operands_of_not_isOperator {t : Term} (h : t.payload.isOperator = false) : t.operands = [] := by
  rw [operands, h]
  rfl

/-- What goes wrong at an occurrence is what goes wrong with its payload on the values of its operands. -/
theorem failure?_eq (t : Term) : t.failure? apply b = t.ownFault? (Payload.value apply b) := by
  cases h : t.operands.mapM (value apply b) with
  | ok args =>
    have hlen := (Pointwise.mapM_eq_ok_iff.mp h).length_eq
    have hempty : args.isEmpty = t.operands.isEmpty := by
      cases args <;> cases hops : t.operands <;> simp_all
    rw [ownFault?_of_ok h]
    unfold failure? Payload.value
    cases t.payload with
    | const v => rfl
    | var name => rfl
    | op f =>
      simp only [hempty, h]
      split <;> rfl
  | error e =>
    -- only an operator has operands that can fail
    have hop : t.payload.isOperator = true := by
      cases hp : t.payload.isOperator with
      | true => rfl
      | false =>
        rw [operands_of_not_isOperator hp] at h
        cases h
    obtain ⟨f, hf⟩ := Payload.isOperator_iff.mp hop
    have hne : t.operands.isEmpty = false := by
      cases hops : t.operands with
      | nil =>
        rw [hops] at h
        cases h
      | cons u us => rfl
    rw [ownFault?_of_error h]
    simp only [failure?, hf, hne, h]
    rfl

theorem faultOf_value (t : Term) : faultOf (t.value apply b) = t.firstFailure? apply b := by
  rw [value, faultOf_result, firstFailure?]
  exact findSome?_congr fun u _ => (failure?_eq apply b u).symm

/-- **A term has no value for the reason of its first failing occurrence.** -/
theorem value_eq_error_iff {t : Term} {e : Fault} :
    t.value apply b = .error e ↔ t.firstFailure? apply b = some e := by
  rw [← faultOf_value, faultOf_eq_some_iff]

end Term

end ExprGraph

import ExprGraph.Operator
/-!
  What operators complain of.

  Main statement: a primitive function fails in plain arithmetic, asks for an operand it was not given, or
  gives up with a text of its own (`Primitive.eval_faults`).  So no operator complains of the structure of a
  tree or of a name that is not bound.

    * predicate  every failure of a computation is one of arithmetic (`Calculates`);
    * step       it holds of a failure of arithmetic, and passes through `map` and `bind`;
    * functions  one lemma for each function of values that can fail, in the order in which they call each
                 other.
-/

namespace ExprGraph

/-- The fault is one of plain arithmetic on values. -/
def Fault.isArithmetic : Fault → Bool
  | .kindMismatch | .outOfRange | .notANumeral | .shapeMismatch | .ambiguousTruth | .nothingToChoose => true
  | _ => false

/-- **Every failure of a computation is one of arithmetic.** -/
def Calculates {α : Type} (r : Except Fault α) : Prop := ∀ e, r = .error e → e.isArithmetic = true

namespace Calculates

variable {α β : Type}

@[simp] theorem ok (a : α) : Calculates (.ok a) := by
  intro e he
  cases he

@[simp] theorem pure (a : α) : Calculates (Pure.pure a) := ok a

@[simp] theorem error_iff {e : Fault} :
    Calculates (.error e : Except Fault α) ↔ e.isArithmetic = true := by
  constructor
  · intro h
    exact h e rfl
  · intro h e' he
    rw [← Except.error.inj he]
    exact h

@[simp] theorem map_iff {r : Except Fault α} {f : α → β} : Calculates (r.map f) ↔ Calculates r := by
  cases r with
  | error e =>
    show Calculates (.error e) ↔ _
    rw [error_iff, error_iff]
  | ok a =>
    show Calculates (.ok (f a)) ↔ _
    simp only [ok]

theorem bind {r : Except Fault α} {f : α → Except Fault β} (hr : Calculates r)
    (hf : ∀ a, Calculates (f a)) : Calculates (r >>= f) := by
  cases r with
  | error e => exact error_iff.mpr (hr e rfl)
  | ok a => exact hf a

theorem of_orFault {e : Fault} (he : e.isArithmetic = true) (a : Option α) :
    Calculates (orFault e a) := by
  cases a with
  | none => exact error_iff.mpr he
  | some a => exact ok a

theorem foldlM {f : β → α → Except Fault β} (hf : ∀ b a, Calculates (f b a)) (as : List α) (b : β) :
    Calculates (as.foldlM f b) := by
  induction as generalizing b with
  | nil => exact pure b
  | cons a as ih =>
    rw [List.foldlM_cons]
    exact bind (hf b a) ih

end Calculates

open Calculates

/-! ## Sum, difference, product and negation -/

namespace Numeric

theorem calculates_integerCell (k : CellKind) (n : Int) : Calculates (integerCell k n) := by
  cases k <;> simp only [integerCell, map_iff] <;> exact of_orFault rfl _

theorem calculates_beside (k : CellKind) (x : Numeric) : Calculates (x.beside k) := by
  cases x with
  | integer n => exact calculates_integerCell k n
  | truth b | real x | fixed c => exact ok _

end Numeric

theorem Cells.calculates_meet (f : (k : CellKind) → Option (k.Carrier → k.Carrier → k.Carrier))
    (a b : Cells) : Calculates (meet f a b) := by
  unfold meet
  simp only
  split
  · exact error_iff.mpr rfl
  · exact map_iff.mpr (of_orFault rfl _)

theorem Cells.calculates_negate (c : Cells) : Calculates c.negate := by
  obtain ⟨kind, g⟩ := c
  cases kind with
  | truth => exact error_iff.mpr rfl
  | word | unsigned | half | double => exact ok _

namespace Numeric

theorem calculates_combine (op : Arith) (x y : Numeric) : Calculates (combine op x y) := by
  have hmeet := Cells.calculates_meet op.onCells
  have hround (n : Int) : Calculates (realOfInt n) := of_orFault rfl _
  unfold combine
  split
  · exact map_iff.mpr (hmeet _ _)
  · exact (calculates_beside _ _).bind fun _ => (hmeet _ _).bind fun _ => ok _
  · exact (calculates_beside _ _).bind fun _ => (hmeet _ _).bind fun _ => ok _
  · exact ok _
  · exact (hround _).bind fun _ => ok _
  · exact (hround _).bind fun _ => ok _
  all_goals exact ok _

theorem calculates_negate (x : Numeric) : Calculates x.negate := by
  cases x with
  | fixed c => exact map_iff.mpr c.calculates_negate
  | truth b | integer n | real x => exact ok _

end Numeric

namespace Value

theorem calculates_toNumeric (v : Value) : Calculates v.toNumeric := of_orFault rfl _

theorem calculates_repeatText (s : String) (n : Int) : Calculates (repeatText s n) := by
  unfold repeatText
  split
  · exact error_iff.mpr rfl
  · split
    · exact ok _
    · split
      · exact error_iff.mpr rfl
      · exact ok _

/-- A text beside a value that is none is repeated, or does not go with it. -/
theorem calculates_beside_text (op : Arith) (s : String) (v : Value) : Calculates
    (match op, v.count? with
      | .mul, some n => repeatText s n
      | _, _ => .error .kindMismatch) := by
  split
  · exact calculates_repeatText _ _
  · exact error_iff.mpr rfl

theorem calculates_combine (op : Arith) (a b : Value) : Calculates (combine op a b) := by
  unfold combine
  split
  · split
    · exact ok _
    · exact error_iff.mpr rfl
  · exact calculates_beside_text op _ _
  · exact calculates_beside_text op _ _
  · refine (calculates_toNumeric _).bind fun _ => (calculates_toNumeric _).bind fun _ => ?_
    exact (Numeric.calculates_combine op _ _).bind fun _ => ok _

theorem calculates_negate (a : Value) : Calculates a.negate :=
  (calculates_toNumeric a).bind fun x => x.calculates_negate.bind fun _ => ok _

/-! ## Elementary functions -/

theorem calculates_elementary (f : Float → Float) (v : Value) : Calculates (v.elementary f) := by
  have halone : ∀ x : Numeric, Calculates x.alone := by
    intro x
    cases x with
    | integer n => exact of_orFault rfl _
    | truth b | real x | fixed c => exact ok _
  exact (calculates_toNumeric v).bind fun x => (halone x).bind fun _ => ok _

theorem calculates_abs (v : Value) : Calculates v.abs := (calculates_toNumeric v).bind fun _ => ok _

theorem calculates_sqrt (v : Value) : Calculates v.sqrt :=
  (calculates_abs v).bind fun _ => calculates_elementary _ _

theorem calculates_exp (v : Value) : Calculates v.exp :=
  (calculates_toNumeric v).bind fun _ => calculates_elementary _ _

theorem calculates_power (base exponent : Value) : Calculates (power base exponent) := by
  refine (calculates_toNumeric exponent).bind fun e => (calculates_toNumeric base).bind fun x => ?_
  refine Calculates.bind ?_ fun _ => ok _
  refine (Numeric.calculates_beside _ _).bind fun e => (Numeric.calculates_beside _ _).bind fun x => ?_
  exact Cells.calculates_meet _ _ _

theorem calculates_toDoubles (v : Value) : Calculates v.toDoubles := by
  cases v with
  | text s => exact map_iff.mpr (of_orFault rfl _)
  | absent => exact ok _
  | integer n | real x | truth b | cell c | array c =>
    exact (calculates_toNumeric _).bind fun x => (x.calculates_beside .double).bind fun _ => ok _

theorem calculates_protectedDivide (a b : Value) : Calculates (protectedDivide a b) :=
  (calculates_toDoubles a).bind fun _ => (calculates_toDoubles b).bind fun _ =>
    (of_orFault rfl _).bind fun _ => ok _

theorem calculates_protectedLog (v : Value) : Calculates v.protectedLog :=
  (calculates_toDoubles v).bind fun _ => ok _

end Value

/-! ## Order -/

namespace Numeric

theorem calculates_align (x y : Numeric) : Calculates (align x y) := by
  have hint : ∀ (c : Cells) (n : Int), Calculates (c.alignInt n) := by
    intro c n
    unfold Cells.alignInt
    split
    · exact error_iff.mpr rfl
    · split
      · exact ok _
      · exact map_iff.mpr (of_orFault rfl _)
  unfold align
  split
  · exact ok _
  · exact map_iff.mpr (hint _ _)
  · exact map_iff.mpr (hint _ _)
  · exact map_iff.mpr (calculates_beside _ _)
  · exact map_iff.mpr (calculates_beside _ _)
  · exact ok _

theorem calculates_less (x y : Numeric) : Calculates (less x y) := by
  refine (calculates_align x y).bind fun p => (of_orFault rfl _).bind fun g => ?_
  split
  · exact ok _
  · exact error_iff.mpr rfl

end Numeric

namespace Value

theorem calculates_less (a b : Value) : Calculates (less a b) := by
  have hempty : ∀ c : Cells, Calculates
      (.error (if c.grid.cells.isEmpty then .ambiguousTruth else .kindMismatch) : Except Fault Bool) := by
    intro c
    split <;> exact error_iff.mpr rfl
  unfold less
  split
  · exact ok _
  · exact hempty _
  · exact hempty _
  · refine (calculates_toNumeric _).bind fun x => (calculates_toNumeric _).bind fun y => ?_
    exact x.calculates_less y

theorem calculates_bestOf {better : Value → Value → Except Fault Bool}
    (hbetter : ∀ a b, Calculates (better a b)) (vs : List Value) : Calculates (bestOf better vs) := by
  cases vs with
  | nil => exact error_iff.mpr rfl
  | cons v vs =>
    refine foldlM (fun best x => (hbetter x best).bind fun wins => ?_) vs v
    split <;> exact pure _

end Value

/-! ## Operators -/

namespace Primitive

variable {args : List Value} {e : Fault}

theorem unary_faults {f : Value → Except Fault Value} (hf : ∀ a, Calculates (f a))
    (h : unary f args = .error e) : e.isArithmetic = true ∨ e = .missingOperand ∧ args = [] := by
  cases args with
  | nil => exact .inr ⟨(Except.error.inj h).symm, rfl⟩
  | cons a rest => exact .inl (hf a e h)

theorem binary_faults {f : Value → Value → Except Fault Value} (hf : ∀ a b, Calculates (f a b))
    (h : binary f args = .error e) : e.isArithmetic = true ∨ e = .missingOperand ∧ args.length < 2 := by
  match args with
  | [] => exact .inr ⟨(Except.error.inj h).symm, Nat.zero_lt_two⟩
  | [a] => exact .inr ⟨(Except.error.inj h).symm, Nat.one_lt_two⟩
  | a :: b :: rest => exact .inl (hf a b e h)

theorem calculates_chain {f : Value → Value → Except Fault Value} (hf : ∀ a b, Calculates (f a b))
    (args : List Value) : Calculates (chain f args) := by
  cases args with
  | nil => exact error_iff.mpr rfl
  | cons a rest => exact foldlM hf rest a

/-- The number of operands that a function looks at by their place. -/
def reach : Primitive → Nat
  | subtract | divide | power | difference => 2
  | negate | sin | cos | exp | log | sqrt | abs | first | last => 1
  | add | multiply | sum | product | count | fail | max | min | anonymousSum | partialSum _ => 0

/-- **A function fails in arithmetic, or for want of an operand it looks at, or with a text of its own.** -/
theorem eval_faults {f : Primitive} (h : f.eval args = .error e) :
    e.isArithmetic = true ∨ (e = .missingOperand ∧ args.length < f.reach) ∨ ∃ text, e = .raised text := by
  have hone : ∀ {g : Value → Except Fault Value}, (∀ a, Calculates (g a)) → ∀ {args : List Value},
      unary g args = .error e →
      e.isArithmetic = true ∨ (e = .missingOperand ∧ args.length < 1) ∨ ∃ text, e = .raised text := by
    intro g hg args h
    rcases unary_faults hg h with he | ⟨he, rfl⟩
    · exact .inl he
    · exact .inr (.inl ⟨he, Nat.zero_lt_one⟩)
  have htwo : ∀ {g : Value → Value → Except Fault Value}, (∀ a b, Calculates (g a b)) →
      binary g args = .error e →
      e.isArithmetic = true ∨ (e = .missingOperand ∧ args.length < 2) ∨ ∃ text, e = .raised text := by
    intro g hg h
    exact (binary_faults hg h).imp_right .inl
  cases f with
  | add | multiply => exact .inl (calculates_chain (Value.calculates_combine _) _ e h)
  | subtract | difference => exact htwo (Value.calculates_combine _) h
  | divide => exact htwo Value.calculates_protectedDivide h
  | power => exact htwo Value.calculates_power h
  | negate => exact hone Value.calculates_negate h
  | sin | cos => exact hone (Value.calculates_elementary _) h
  | exp => exact hone Value.calculates_exp h
  | log => exact hone Value.calculates_protectedLog h
  | sqrt => exact hone Value.calculates_sqrt h
  | abs => exact hone Value.calculates_abs h
  | sum | anonymousSum | partialSum | product =>
    exact .inl (foldlM (Value.calculates_combine _) _ _ e h)
  | count => cases h
  | first => exact hone ok h
  | last =>
    have hlast : e.isArithmetic = true ∨ (e = .missingOperand ∧ args.reverse.length < 1)
        ∨ ∃ text, e = .raised text := hone ok h
    rwa [List.length_reverse] at hlast
  | fail => exact .inr (.inr ⟨"boom", (Except.error.inj h).symm⟩)
  | max => exact .inl (Value.calculates_bestOf (fun a b => Value.calculates_less b a) _ e h)
  | min => exact .inl (Value.calculates_bestOf Value.calculates_less _ e h)

end Primitive

namespace Operator

/-- Operators do not complain of the structure of a tree. -/
theorem isMalformed_of_apply {f : Operator} {args : List Value} {e : Fault}
    (h : f.apply args = .error e) : e.isMalformed = false := by
  rcases Primitive.eval_faults h with h | ⟨rfl, -⟩ | ⟨text, rfl⟩
  · cases e <;> first | rfl | cases h
  · rfl
  · rfl

/-- Operators do not complain of names. -/
theorem apply_ne_unbound (f : Operator) (args : List Value) (name : String) :
    f.apply args ≠ .error (.unbound name) := by
  intro h
  rcases Primitive.eval_faults h with h | ⟨h, -⟩ | ⟨text, h⟩ <;> cases h

/-- **An operator on as many operands as its function looks at** finds them. -/
theorem apply_ne_missingOperand {f : Operator} {args : List Value} (h : f.function.reach ≤ args.length) :
    f.apply args ≠ .error .missingOperand := by
  intro he
  rcases Primitive.eval_faults he with he | ⟨-, hlt⟩ | ⟨text, he⟩
  · cases he
  · exact absurd h (Nat.not_le.mpr hlt)
  · cases he

end Operator

end ExprGraph

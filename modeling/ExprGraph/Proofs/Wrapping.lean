import ExprGraph.Proofs.Meaning
import ExprGraph.Proofs.Soundness
import ExprGraph.Proofs.Variables
import Mathlib.Algebra.Ring.Int.Defs
/-!
  Words wrap around.

  Main statement: a tree of sums, products, differences and negatives of words always has a value, which is a
  word: the whole number that the tree denotes, wrapped to sixty-four bits.  If that number fits a word, it
  is the value, whatever the results on the way to it; and folding first changes none of this
  (`Session.words_wrap`).

    * words      wrapping commutes with the arithmetic of two numbers (`Value.combine_wrap`)
    * functions  hence with that of all operands (`Primitive.eval_wrap`)
    * trees      and, by induction on the term, with evaluation (`Term.value_wrap`)
-/

namespace ExprGraph

/-! ## Words -/

/-- Wrapping keeps sums, differences and products. -/
theorem Arith.onWord_ofInt (op : Arith) (m n : Int) :
    op.onWord (Int64.ofInt m) (Int64.ofInt n) = Int64.ofInt (op.onInt m n) := by
  cases op with
  | add => exact (Int64.ofInt_add m n).symm
  | sub => exact (Int64.ofInt_sub m n).symm
  | mul => exact (Int64.ofInt_mul m n).symm

namespace Value

/-- **A whole number wrapped to a word.** -/
def wrap (n : Int) : Value := word (Int64.ofInt n)

theorem wrap_toInt (w : Int64) : wrap w.toInt = word w := congrArg word (Int64.ofInt_toInt w)

theorem combine_wrap (op : Arith) (m n : Int) :
    combine op (wrap m) (wrap n) = .ok (wrap (op.onInt m n)) := by
  have hword : combine op (wrap m) (wrap n) = .ok (word (op.onWord (Int64.ofInt m) (Int64.ofInt n))) := by
    cases op <;> rfl
  rw [hword, Arith.onWord_ofInt]
  rfl

theorem negate_wrap (n : Int) : (wrap n).negate = .ok (wrap (-n)) := by
  have hword : (wrap n).negate = .ok (word (-Int64.ofInt n)) := rfl
  rw [hword, ← Int64.ofInt_neg]
  rfl

theorem foldlM_wrap (op : Arith) (m : Int) (ns : List Int) :
    (ns.map wrap).foldlM (combine op) (wrap m) = .ok (wrap (ns.foldl op.onInt m)) := by
  induction ns generalizing m with
  | nil => rfl
  | cons n ns ih =>
    rw [List.map_cons, List.foldlM_cons, combine_wrap]
    exact ih (op.onInt m n)

/-- The whole number that a word stands for. -/
def toWhole : Value → Int
  | cell ⟨.word, w⟩ => w.toInt
  | _ => 0

end Value

/-! ## Functions -/

namespace Primitive

/-- **The function is arithmetic on so many operands**: a sum or a product of at least one, a difference of two
    or a negative. -/
def isRing : Primitive → Nat → Bool
  | add, n | multiply, n => decide (0 < n)
  | subtract, n => n == 2
  | negate, n => n == 1
  | _, _ => false

/-- **Exact arithmetic**: what the function comes to on whole numbers of any size. -/
def onInts : Primitive → List Int → Int
  | add, ns => ns.sum
  | multiply, ns => ns.prod
  | subtract, [m, n] => m - n
  | negate, [n] => -n
  | _, _ => 0

/-- **Wrapping commutes with arithmetic.** -/
theorem eval_wrap {f : Primitive} {ns : List Int} (h : f.isRing ns.length = true) :
    f.eval (ns.map Value.wrap) = .ok (Value.wrap (f.onInts ns)) := by
  match f, ns, h with
  | add, n :: ns, _ =>
    show (ns.map Value.wrap).foldlM (Value.combine .add) (Value.wrap n) = .ok (Value.wrap (n :: ns).sum)
    rw [Value.foldlM_wrap, List.sum_eq_foldl, List.foldl_cons, Int.zero_add]
    rfl
  | multiply, n :: ns, _ =>
    show (ns.map Value.wrap).foldlM (Value.combine .mul) (Value.wrap n) = .ok (Value.wrap (n :: ns).prod)
    rw [Value.foldlM_wrap, List.prod_eq_foldl, List.foldl_cons, Int.one_mul]
    rfl
  | subtract, [m, n], _ => exact Value.combine_wrap .sub m n
  | negate, [n], _ => exact Value.negate_wrap n

end Primitive

/-! ## Trees -/

/-- The whole number that a payload denotes, by those of its operands. -/
def Payload.whole (b : Bindings) : Payload → List Int → Int
  | .op f, ns => f.function.onInts ns
  | .var name, _ => ((b.lookup name).map Value.toWhole).getD 0
  | .const a, _ => a.toWhole

namespace Term

mutual

/-- **The whole number that a term denotes**, computed exactly. -/
def whole (b : Bindings) : Term → Int
  | bare p => p.whole b []
  | linked p ts => p.whole b (wholeAll b ts)

/-- The whole numbers that several terms denote. -/
def wholeAll (b : Bindings) : List Term → List Int
  | [] => []
  | t :: ts => t.whole b :: wholeAll b ts

end

theorem wholeAll_eq_map (b : Bindings) (ts : List Term) : wholeAll b ts = ts.map (whole b) := by
  induction ts with
  | nil => rfl
  | cons t ts ih => rw [wholeAll, ih, List.map_cons]

/-- The number of a term by those of its operands. -/
theorem whole_eq (b : Bindings) (t : Term) :
    t.whole b = t.payload.whole b (t.operands.map (whole b)) := by
  cases t with
  | bare p => cases p <;> rfl
  | linked p ts =>
    rw [whole, wholeAll_eq_map]
    cases p <;> rfl

/-- **Trees of words**: the operators are sums, products, differences and negatives, the constants are words, and
    so are the bindings of the variables. -/
structure OfWords (b : Bindings) (t : Term) : Prop where
  ring : ∀ u ∈ t.postOrder, ∀ f, u.payload = .op f → f.function.isRing u.operands.length = true
  constant : ∀ u ∈ t.postOrder, ∀ a, u.payload = .const a → ∃ w, a = .word w
  bound : ∀ name ∈ t.varNames, ∃ w, b.lookup name = some (.word w)

variable {b : Bindings} {t u : Term}

theorem OfWords.operand (h : t.OfWords b) (hu : u ∈ t.operands) : u.OfWords b where
  ring := fun c hc => h.ring c (mem_postOrder_of_operand hu hc)
  constant := fun c hc => h.constant c (mem_postOrder_of_operand hu hc)
  bound := fun name hname => h.bound name (mem_varNames_of_operand hu hname)

/-- At a term whose operands have the wrapped numbers for values. -/
theorem OfWords.value_payload (h : t.OfWords b) :
    t.payload.value Operator.apply b (t.operands.map fun u => .wrap (u.whole b)) = .ok (.wrap (t.whole b)) := by
  rw [whole_eq]
  cases hp : t.payload with
  | const a =>
    obtain ⟨w, rfl⟩ := h.constant t t.self_mem_postOrder a hp
    exact congrArg Except.ok (Value.wrap_toInt w).symm
  | var name =>
    have hname : name ∈ t.varNames := mem_varNames_iff.mpr ⟨t, t.self_mem_postOrder, hp⟩
    obtain ⟨w, hw⟩ := h.bound name hname
    show b.find name = .ok (.wrap (((b.lookup name).map Value.toWhole).getD 0))
    rw [Bindings.find, hw]
    exact congrArg Except.ok (Value.wrap_toInt w).symm
  | op f =>
    have hring := h.ring t t.self_mem_postOrder f hp
    have hne : (t.operands.map fun u => Value.wrap (u.whole b)).isEmpty = false := by
      cases hops : t.operands with
      | cons u us => rfl
      | nil =>
        rw [hops] at hring
        cases f with | mk function name arity symbol => cases function <;> cases hring
    show (if List.isEmpty _ then _ else f.function.eval _) = _
    rw [hne]
    have hcount : f.function.isRing (t.operands.map (whole b)).length = true := by rwa [List.length_map]
    have heval := Primitive.eval_wrap hcount
    rw [List.map_map] at heval
    exact heval

/-- **Wrapping commutes with evaluation.** -/
theorem value_wrap (h : t.OfWords b) : t.value Operator.apply b = .ok (.wrap (t.whole b)) := by
  induction t with
  | step t ih =>
    have hoperands : t.operands.mapM (value Operator.apply b)
        = .ok (t.operands.map fun u => .wrap (u.whole b)) := by
      rw [Pointwise.mapM_eq_ok_iff, List.forall₂_map_right_iff, List.forall₂_same]
      exact fun u hu => ih u (mem_children_of_mem_operands hu) (h.operand hu)
    rw [value_eq, hoperands]
    exact h.value_payload

end Term

/-! ## In a session -/

namespace Session

variable {s : Session} {h : Handle} {t : Term} {b : Bindings}

/-- **Words wrap around.**  By either strategy a tree of words has a word for its value, which is the exact
    number modulo `2^64`, and that number itself if it fits a word.  Folding such a tree succeeds, and then the
    value is still the same. -/
theorem words_wrap (hs : s.store.Sound) (ht : s.store.termAt? h = some t) (hwords : t.OfWords b) :
    ∃ w : Int64, w.toInt = (t.whole b).bmod (2 ^ 64)
      ∧ (-2 ^ 63 ≤ t.whole b → t.whole b < 2 ^ 63 → w.toInt = t.whole b)
      ∧ (∀ k : Strategy, s.value Operator.apply h k.name b = .ok (.word w))
      ∧ ∀ summary, (∃ n, (s.foldConstants h summary).1 = .ok n)
        ∧ ∀ k : Strategy, (s.foldConstants h summary).2.value Operator.apply h k.name b = .ok (.word w) := by
  obtain ⟨v, hh, hv⟩ := Store.termAt?_eq_some_iff.mp ht
  have hvalue := Term.value_wrap hwords
  refine ⟨Int64.ofInt (t.whole b), Int64.toInt_ofInt, Int64.toInt_ofInt_of_le, ?_, ?_⟩
  · intro k
    rw [value_eq Operator.apply hh hv, hvalue]
    rfl
  · intro summary
    obtain ⟨hout, w, hw, hfold⟩ := foldWith_spec Operator.apply hs.balanced hh hv summary
    constructor
    · cases hresult : (t.fold Operator.apply).2 with
      | ok n => exact ⟨n, hout.trans hresult⟩
      | error e =>
        -- folding fails only on a tree without a value
        obtain ⟨e', he'⟩ := Term.exists_error_of_fold_error (b := b) hresult
        rw [hvalue] at he'
        cases he'
    · intro k
      refine (value_eq Operator.apply hw hfold k b).trans ?_
      rw [Term.value_fold, hvalue]
      rfl

/-- The difference `(c + c) - x` for the greatest word `c`, under handle 3. -/
def doubledLess : List Operation :=
  [.constantLeaf (.word 9223372036854775807), .linked (.op ⟨.add, "add", none, some "+", some .add⟩) (some [0, 0]),
   .variableLeaf (some "x") none, .linked (.op ⟨.subtract, "subtract", some 2, some "-", some .subtract⟩) (some [1, 2])]

/-- The term of the sum of the greatest word and itself. -/
def doubledWordTerm : Term :=
  .linked (.op ⟨.add, "add", none, some "+", some .add⟩)
    [.bare (.const (.word 9223372036854775807)), .bare (.const (.word 9223372036854775807))]

/-- The term of the difference. -/
def doubledLessTerm : Term :=
  .linked (.op ⟨.subtract, "subtract", some 2, some "-", some .subtract⟩) [doubledWordTerm, .bare (.var "x")]

/-- When `x` is the greatest word, too, the sum overflows and the difference is the greatest word again, also
    where the sum has been folded. -/
theorem words_wrap_doubledLess :
    (run Operator.apply doubledLess).store.Sound
      ∧ (run Operator.apply doubledLess).store.termAt? 3 = some doubledLessTerm
      ∧ doubledLessTerm.OfWords [("x", .word 9223372036854775807)]
      ∧ doubledWordTerm.whole [] = 18446744073709551614
      ∧ ∀ k : Strategy,
        ((run Operator.apply doubledLess).foldConstants 3 true).2.value Operator.apply 3 k.name
          [("x", .word 9223372036854775807)] = .ok (.word 9223372036854775807) := by
  have hs := (balanced_run Operator.apply doubledLess).sound
  have ht : (run Operator.apply doubledLess).store.termAt? 3 = some doubledLessTerm := rfl
  have hmem : ∀ u ∈ doubledLessTerm.postOrder, u = .bare (.const (.word 9223372036854775807))
      ∨ u = doubledWordTerm ∨ u = .bare (.var "x") ∨ u = doubledLessTerm := by
    intro u hu
    have hlist : u ∈ [.bare (.const (.word 9223372036854775807)),
      .bare (.const (.word 9223372036854775807)), doubledWordTerm, .bare (.var "x"), doubledLessTerm] := hu
    simpa using hlist
  have hwords : doubledLessTerm.OfWords [("x", .word 9223372036854775807)] := by
    constructor
    · intro u hu f hf
      rcases hmem u hu with rfl | rfl | rfl | rfl <;> cases hf <;> rfl
    · intro u hu a ha
      rcases hmem u hu with rfl | rfl | rfl | rfl <;> cases ha
      exact ⟨_, rfl⟩
    · intro name hname
      obtain rfl := List.mem_singleton.mp hname
      exact ⟨_, rfl⟩
  have hwhole : doubledLessTerm.whole [("x", .word 9223372036854775807)] = 9223372036854775807 := by decide
  obtain ⟨w, -, hfits, -, hfold⟩ := words_wrap hs ht hwords
  rw [hwhole] at hfits
  have hw : w = 9223372036854775807 := Int64.toInt_inj.mp (hfits (by decide) (by decide))
  rw [hw] at hfold
  exact ⟨hs, ht, hwords, by decide, (hfold true).2⟩

end Session

end ExprGraph

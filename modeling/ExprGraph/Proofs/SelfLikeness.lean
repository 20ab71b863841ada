import ExprGraph.Proofs.Likeness
/-!
  A tree compared with itself.

  Main statement: comparing a tree with itself vertex by vertex finds it alike exactly when no constant in it
  holds a NaN, so the answer for trees on one vertex, given without a look, differs from the comparison
  exactly where there is a NaN; and apart from that only the terms count (`Store.shortcut_unseen`).

    * values     a value equals itself unless a NaN is among its numbers (`Value.same_self`);
    * terms      compared with itself, a term stops at the first NaN (`Term.alikeAll_self`);
    * vertices   both comparisons are those of the terms (`Unfolds.alikeAlong_eq`).

  An edit through one of two handles for a vertex moves it to a copy.  From then on the look is taken, and a
  tree with a NaN is no longer alike to its copy (`Session.alike_split`).
-/

namespace ExprGraph

open Number (Exact)

/-! ## Values -/

theorem Number.Exact.equals_self (e : Exact) : e.equals e = !decide (e = .nan) := by
  cases e <;> simp [equals]

theorem Grid.agree_self {α : Type} (r : α → α → Bool) (g : Grid α) :
    g.agree r g = g.cells.all fun x => r x x := by
  rw [agree, decide_eq_true rfl, Bool.true_and, List.zipWith_self, List.all_map]
  rfl

/-- Cells brought together with themselves are their exact numbers. -/
theorem Cells.align_self (c : Cells) : c.align c = (c.exactly, c.exactly) := by
  cases hw : c.kind.isWhole with
  | true => rw [align, hw, Bool.and_self, if_pos rfl]
  | false =>
    have hexact : c.toFloats.map Number.exactly = c.exactly := by
      have hcell : Number.exactly ∘ c.kind.toFloat = c.kind.exactly := by
        funext x
        rw [CellKind.exactly, hw]
        rfl
      rw [toFloats, exactly, ← hcell]
      simp [Grid.map]
    rw [align, hw, hexact]
    rfl

namespace Numeric

/-- The exact numbers in a number: one for each cell, or the free number itself. -/
def numbers : Numeric → List Exact
  | fixed c => c.exactly.cells
  | x => [x.exactly]

theorem align_self (x : Numeric) : ∃ g, x.align x = .ok (g, g) ∧ g.cells = x.numbers := by
  cases x with
  | fixed c => exact ⟨c.exactly, congrArg Except.ok c.align_self, rfl⟩
  | truth b => exact ⟨.scalar (exactly (.truth b)), rfl, rfl⟩
  | integer n => exact ⟨.scalar (exactly (.integer n)), rfl, rfl⟩
  | real x => exact ⟨.scalar (exactly (.real x)), rfl, rfl⟩

end Numeric

/-- Grids of exact numbers agree with themselves unless there is a NaN. -/
theorem Grid.agree_equals_self (g : Grid Exact) :
    g.agree Exact.equals g = !g.cells.any fun e => decide (e = .nan) := by
  rw [agree_self, List.not_any_eq_all_not]
  simp only [Exact.equals_self]

namespace Value

/-- **A NaN is among the numbers of a value**: it is one, or one of its cells is. -/
def hasNan (v : Value) : Bool :=
  match v.numeric? with
  | some x => x.numbers.any fun e => decide (e = .nan)
  | none => false

/-- **A value equals itself** unless a NaN is among its numbers. -/
theorem same_self (v : Value) : v.same v = .ok (!v.hasNan) := by
  have hfree : ∀ x : Numeric, v.numeric? = some x → x.same x = .ok (!v.hasNan) := by
    intro x hx
    obtain ⟨g, halign, hcells⟩ := x.align_self
    rw [Numeric.same, halign, hasNan, hx]
    show Except.ok (g.agree Exact.equals g) = _
    rw [g.agree_equals_self, hcells]
  cases v with
  | text s => exact congrArg Except.ok (decide_eq_true rfl)
  | absent => rfl
  | integer n | real x | truth b | cell c => exact hfree _ rfl
  | array c =>
    -- arrays take the way of arrays, which brings their cells together as well
    show Except.ok ((c.align c).1.agree Exact.equals (c.align c).2) = _
    rw [c.align_self]
    exact congrArg Except.ok c.exactly.agree_equals_self

end Value

/-! ## Terms -/

namespace Term

variable {t : Term}

/-- The root is a constant with a NaN. -/
def isNan (t : Term) : Bool := t.payload.value?.any Value.hasNan

/-- **Some constant in the term has a NaN**; inert children do not count. -/
def hasNan (t : Term) : Bool := t.postOrder.any isNan

theorem alike_self (t : Term) : t.alike t = .ok (!t.isNan) := by
  rw [alike, if_pos rfl, isNan]
  cases t.payload with
  | op f => exact congrArg Except.ok (decide_eq_true rfl)
  | var name => exact congrArg Except.ok (decide_eq_true rfl)
  | const a => exact a.same_self

/-- **Occurrences compared with themselves** agree up to the first NaN. -/
theorem alikeAll_self (ts : List Term) : alikeAll ts ts = .ok (!ts.any isNan) := by
  induction ts with
  | nil => rfl
  | cons t ts ih =>
    rw [alikeAll, alike_self, List.any_cons]
    cases t.isNan with
    | true => rfl
    | false => exact ih

end Term

/-! ## Trees -/

namespace Store

variable {s s' : Store} {v w v' w' : VertexId} {t : Term} {g h g' h' : Handle}

/-- A tree compared with itself vertex by vertex. -/
theorem Unfolds.alikeAlong_self (ht : s.Unfolds v t) : s.alikeAlong v v = .ok (!t.hasNan) := by
  rw [ht.alikeAlong_eq ht, Term.alikeAll_self]
  rfl

/-- **The answer for one vertex**, given without a look, is that of the comparison unless there is a NaN. -/
theorem Unfolds.alike_eq_alikeAlong_iff (ht : s.Unfolds v t) :
    s.alike v w = s.alikeAlong v w ↔ ¬(v = w ∧ t.hasNan = true) := by
  rw [alike]
  split
  · next heq =>
    subst heq
    rw [ht.alikeAlong_self]
    cases t.hasNan <;> simp
  · next hne => exact ⟨fun _ h => hne h.1, fun _ => rfl⟩

/-- **The shortcut for one vertex is unseen but for a NaN.**  In closed stores without circles, the comparison
    vertex by vertex always comes to an answer for a tree and itself: that they are alike, unless a constant
    in it has a NaN.  So the shortcut makes a difference exactly for two handles of one vertex with a NaN
    below.
    The comparison itself depends only on the terms behind the handles; and without a NaN so does the answer
    with the shortcut, whatever vertices the trees are on. -/
theorem shortcut_unseen (hc : s.Closed) (ha : s.Acyclic) (hg : s.target? g = some v)
    (hh : s.target? h = some w) (hg' : s'.target? g' = some v') (hh' : s'.target? h' = some w')
    (hleft : s'.termAt? g' = s.termAt? g) (hright : s'.termAt? h' = s.termAt? h) :
    ∃ t, s.termAt? g = some t
      ∧ s.alikeAlong v v = .ok (!t.hasNan)
      ∧ (s.alike v w = s.alikeAlong v w ↔ ¬(v = w ∧ t.hasNan = true))
      ∧ s'.alikeAlong v' w' = s.alikeAlong v w
      ∧ (t.hasNan = false → s'.alike v' w' = s.alike v w) := by
  obtain ⟨x, hx⟩ := hc.handle g v hg
  obtain ⟨y, hy⟩ := hc.handle h w hh
  obtain ⟨t, ht⟩ := hc.exists_unfolds ha hx
  obtain ⟨u, hu⟩ := hc.exists_unfolds ha hy
  have hterm : s.termAt? g = some t := termAt?_eq_some_iff.mpr ⟨v, hg, ht⟩
  have ht' : s'.Unfolds v' t := unfolds_of_termAt? hg' (hleft.trans hterm)
  have hu' : s'.Unfolds w' u := unfolds_of_termAt? hh' (hright.trans (termAt?_eq_some_iff.mpr ⟨w, hh, hu⟩))
  have halong : s'.alikeAlong v' w' = s.alikeAlong v w := by
    rw [ht'.alikeAlong_eq hu', ht.alikeAlong_eq hu]
  refine ⟨t, hterm, ht.alikeAlong_self, ht.alike_eq_alikeAlong_iff, halong, ?_⟩
  intro hnan
  have hunseen : ∀ a b : VertexId, ¬(a = b ∧ t.hasNan = true) := by
    rintro a b ⟨-, hyes⟩
    rw [hnan] at hyes
    cases hyes
  rw [ht'.alike_eq_alikeAlong_iff.mpr (hunseen _ _), ht.alike_eq_alikeAlong_iff.mpr (hunseen _ _), halong]

end Store

namespace Session

/-- The sum of a constant and `x`. -/
def sumWith (a : Value) : Term :=
  .linked (.op ⟨.add, "add", none, some "+", some .add⟩) [.bare (.const a), .bare (.var "x")]

/-- Makes it, under handles 2 and 3 for one vertex. -/
def twoHandles (a : Value) : List Operation :=
  [.constantLeaf a, .variableLeaf (some "x") none,
   .linked (.op ⟨.add, "add", none, some "+", some .add⟩) (some [0, 1]), .share 2]

/-- The store with both handles on one vertex. -/
def together (a : Value) : Store := (run Operator.apply (twoHandles a)).store

/-- The store after folding through handle 3, which has nothing to fold but needs a vertex of its own. -/
def split (a : Value) : Store := (run Operator.apply (twoHandles a ++ [.fold 3 true])).store

/-- With a number for the constant, the trees of the two handles are alike before and after. -/
theorem shortcut_unseen_split :
    (together (.integer 2)).Closed ∧ (together (.integer 2)).Acyclic
      ∧ (together (.integer 2)).target? 2 = some 2 ∧ (together (.integer 2)).target? 3 = some 2
      ∧ (split (.integer 2)).target? 2 = some 2 ∧ (split (.integer 2)).target? 3 = some 3
      ∧ (split (.integer 2)).termAt? 2 = (together (.integer 2)).termAt? 2
      ∧ (split (.integer 2)).termAt? 3 = (together (.integer 2)).termAt? 3
      ∧ (split (.integer 2)).alike 2 3 = .ok true := by
  have hb : (together (.integer 2)).Balanced fun _ => 0 := balanced_run Operator.apply _
  have hg : (together (.integer 2)).target? 2 = some 2 := rfl
  have hh : (together (.integer 2)).target? 3 = some 2 := rfl
  have hg' : (split (.integer 2)).target? 2 = some 2 := rfl
  have hh' : (split (.integer 2)).target? 3 = some 3 := rfl
  have ht : (together (.integer 2)).termAt? 2 = some (sumWith (.integer 2)) := rfl
  have hleft : (split (.integer 2)).termAt? 2 = (together (.integer 2)).termAt? 2 := rfl
  have hright : (split (.integer 2)).termAt? 3 = (together (.integer 2)).termAt? 3 := rfl
  obtain ⟨t, hterm, -, -, -, halike⟩ :=
    Store.shortcut_unseen hb.closed hb.acyclic hg hh hg' hh' hleft hright
  obtain rfl := Option.some.inj (hterm.symm.trans ht)
  exact ⟨hb.closed, hb.acyclic, hg, hh, hg', hh', hleft, hright, halike rfl⟩

/-- **The shortcut is seen at a NaN.**  Two handles for one vertex are alike without a look, though the
    comparison tells the tree from itself; and once an edit has moved one of the handles to a copy with the
    same term, they are not alike any more. -/
theorem alike_split :
    (together (.real (0.0 / 0.0))).Closed ∧ (together (.real (0.0 / 0.0))).Acyclic
      ∧ (together (.real (0.0 / 0.0))).target? 2 = some 2 ∧ (together (.real (0.0 / 0.0))).target? 3 = some 2
      ∧ (together (.real (0.0 / 0.0))).alike 2 2 = .ok true
      ∧ (together (.real (0.0 / 0.0))).alikeAlong 2 2 = .ok false
      ∧ (split (.real (0.0 / 0.0))).target? 2 = some 2 ∧ (split (.real (0.0 / 0.0))).target? 3 = some 3
      ∧ (split (.real (0.0 / 0.0))).term? 2 = (together (.real (0.0 / 0.0))).term? 2
      ∧ (split (.real (0.0 / 0.0))).term? 3 = (together (.real (0.0 / 0.0))).term? 2
      ∧ (split (.real (0.0 / 0.0))).alike 2 3 = .ok false := by
  have hb : (together (.real (0.0 / 0.0))).Balanced fun _ => 0 := balanced_run Operator.apply _
  have ht : (together (.real (0.0 / 0.0))).term? 2 = some (sumWith (.real (0.0 / 0.0))) := rfl
  have hu : (split (.real (0.0 / 0.0))).term? 2 = some (sumWith (.real (0.0 / 0.0))) := rfl
  have hu' : (split (.real (0.0 / 0.0))).term? 3 = some (sumWith (.real (0.0 / 0.0))) := rfl
  have hnan : (sumWith (.real (0.0 / 0.0))).hasNan = true := by decide +kernel
  have hbefore := (Store.term?_eq_some_iff.mp ht).alikeAlong_self
  have hafter : (split (.real (0.0 / 0.0))).alike 2 3 = .ok (!(sumWith (.real (0.0 / 0.0))).hasNan) := by
    have hleft := Store.term?_eq_some_iff.mp hu
    rw [Store.alike, if_neg (by decide), hleft.alikeAlong_eq (Store.term?_eq_some_iff.mp hu'),
      Term.alikeAll_self]
    rfl
  rw [hnan] at hbefore hafter
  exact ⟨hb.closed, hb.acyclic, rfl, rfl, rfl, hbefore, rfl, rfl, hu.trans ht.symm, hu'.trans ht.symm, hafter⟩

end Session

end ExprGraph

import ExprGraph.Proofs.Problems
import ExprGraph.Proofs.PublicTours
import ExprGraph.Proofs.VertexRules
/-!
  The arity discipline.

  Main statement: after every tour of public events, each operator was never linked or has as many children
  as it admits; so no tree has a wrong number of operands among its problems, evaluating and folding call
  operators only on lists they admit, and a built-in operator never misses an operand (`Tour.arity_kept`).

  The number is checked once, when children are linked.  Afterwards vertices are copied, bound elsewhere, folded
  and released, and none of these changes the number of children of an operator.

    * state      the store;
    * step       what the public does to a store (`Store.Kept`);
    * invariant  every vertex keeps to the arity of its operator (`Store.Disciplined`).
-/

namespace ExprGraph

/-- **An operator admits a number of operands**: at least one, and the declared number when there is one. -/
def Operator.Admits (f : Operator) (n : Nat) : Prop := 0 < n ∧ ∀ m, f.arity = some m → n = m

/-- The check of linking admits what the operator admits. -/
theorem Store.admits_of_checkCount {f : Operator} {n : Nat} (h : checkCount (.op f) n = .ok ()) :
    f.Admits n := by
  simp only [checkCount] at h
  split at h
  · cases h
  · next hpos =>
    refine ⟨Nat.pos_of_ne_zero hpos, ?_⟩
    intro m hm
    rw [hm] at h
    simp only at h
    split at h
    · next heq => exact heq
    · cases h

/-! ## Vertices -/

/-- **A vertex keeps to the arity**: an operator that was ever linked has as many children as it admits. -/
def Vertex.Disciplined (x : Vertex) : Prop :=
  ∀ f vs, x.payload = .op f → x.links = some vs → f.Admits vs.length

namespace Vertex

variable {x y : Vertex}

/-- Only the payload and the number of children matter. -/
theorem Disciplined.of_shape (h : x.Disciplined) (hp : y.payload = x.payload)
    (hl : y.links.map List.length = x.links.map List.length) : y.Disciplined := by
  intro f vs hf hvs
  rw [hvs] at hl
  obtain ⟨us, hus, hlen⟩ := Option.map_eq_some_iff.mp hl.symm
  have hlen' : us.length = vs.length := hlen
  rw [← hlen']
  exact h f us (hp.symm.trans hf) hus

theorem disciplined_of_none (h : x.links = none) : x.Disciplined := by
  intro f vs _ hvs
  rw [h] at hvs
  cases hvs

end Vertex

namespace Store

/-- **All vertices keep to the arity.** -/
def Disciplined (s : Store) : Prop := ∀ v x, s.vertex? v = some x → x.Disciplined

/-- **Copying, linking and folding keep a vertex to the arity**: linking checks the number of children, and
    nothing else changes it. -/
theorem vertexRule_disciplined : VertexRule Vertex.Disciplined where
  shape h hp hl := h.of_shape hp hl
  copied := by
    intro x fresh h f vs hf hvs
    -- a copied operator has the arity of its source
    cases hp : x.payload with
    | op g =>
      have hadmits := h g vs hp hvs
      have hf' : (Payload.op g).deepCopy fresh = .op f := hp ▸ hf
      obtain rfl := Payload.op.inj hf'
      exact hadmits
    | var name | const a =>
      have hf' : x.payload.deepCopy fresh = .op f := hf
      rw [hp] at hf'
      cases hf'
  constant a := Vertex.disciplined_of_none rfl
  linked := by
    intro x vs _ hcheck f us hf hus
    obtain rfl : vs = us := Option.some.inj hus
    have hf' : x.payload = .op f := hf
    rw [hf'] at hcheck
    exact admits_of_checkCount hcheck

/-- **The public keeps every store to the arity.** -/
theorem kept_disciplined (apply : Operator.Interpretation) : Kept apply Disciplined := by
  have hrule : Rule apply (fun _ => True) (fun _ => False) Disciplined := by
    refine vertexRule_disciplined.rule apply ?_ ?_
    · intro p _
      exact Vertex.disciplined_of_none rfl
    · intro p h
      exact h.elim
  exact hrule.kept

end Store

/-! ## Terms -/

/-- **All operators in a term that were ever linked have as many children as they admit.** -/
def Term.Disciplined (t : Term) : Prop :=
  ∀ u ∈ t.postOrder, ∀ f ts, u.payload = .op f → u.links = some ts → f.Admits ts.length

/-- Where all vertices keep to the arity, so does every term. -/
theorem Store.Disciplined.term {s : Store} {v : VertexId} {t : Term} (hs : s.Disciplined)
    (ht : s.Unfolds v t) : t.Disciplined := by
  intro u hu f ts hf hts
  obtain ⟨w, -, hw⟩ := Pointwise.exists_left ht.walk_postOrder hu
  obtain ⟨x, hx⟩ := hw.exists_vertex
  obtain ⟨hp, hrel, hchildren⟩ := hw.children hx
  cases hl : x.links with
  | none =>
    rw [hl, hts] at hrel
    cases hrel
  | some vs =>
    have hlen : vs.length = ts.length := by
      have hlen' := hchildren.length_eq
      unfold Vertex.children Term.children at hlen'
      rw [hl, hts] at hlen'
      exact hlen'
    rw [← hlen]
    exact hs w x hx f vs (hp.trans hf) hl

namespace Term

variable {a a' : Operator.Interpretation} {b : Bindings} {t u : Term}

/-- An operator in a disciplined term admits its operands, if there are any. -/
theorem Disciplined.admits {f : Operator} (h : t.Disciplined) (hu : u ∈ t.postOrder)
    (hf : u.payload = .op f) (hne : u.operands ≠ []) : f.Admits u.operands.length := by
  rw [operands_of_op hf] at hne ⊢
  unfold children at hne ⊢
  cases hl : u.links with
  | none =>
    rw [hl] at hne
    exact absurd rfl hne
  | some ts => exact h u hu f ts hf hl

/-- **No operator of a disciplined term has a wrong number of operands.** -/
theorem Disciplined.wrongCount_not_mem (h : t.Disciplined) (name : String) (expected got : Nat) :
    .wrongCount name expected got ∉ t.postOrder.filterMap problem? := by
  intro hmem
  obtain ⟨u, hu, hp⟩ := List.mem_filterMap.mp hmem
  cases problem?_eq_some_iff.mp hp with
  | wrongCount hf hne harity hlen => exact hlen ((h.admits hu hf hne).2 _ harity)

/-- **In a disciplined term operators are called only on lists they admit.** -/
theorem Disciplined.callsAgree (h : t.Disciplined)
    (hagree : ∀ f args, f.Admits args.length → a f args = a' f args) : t.CallsAgree a a' := by
  intro u hu f args hf hne hlen
  refine hagree f args ?_
  rw [hlen]
  refine h.admits hu hf ?_
  intro hnil
  rw [hnil] at hlen
  exact hne (List.length_eq_zero_iff.mp hlen)

theorem CallsAgree.operand (h : t.CallsAgree a a') (hu : u ∈ t.operands) : u.CallsAgree a a' :=
  fun c hc => h c (mem_postOrder_of_operand hu hc)

/-- **Evaluating calls operators on the values of their operands**, on no others. -/
theorem CallsAgree.value_eq (h : t.CallsAgree a a') : t.value a b = t.value a' b := by
  induction t with
  | step t ih =>
    have hops : t.operands.mapM (value a b) = t.operands.mapM (value a' b) := by
      refine Pointwise.mapM_congr (List.forall₂_same.mpr ?_)
      intro u hu
      exact ih u (mem_children_of_mem_operands hu) (h.operand hu)
    rw [Term.value_eq, Term.value_eq, ← hops]
    cases hargs : t.operands.mapM (value a b) with
    | error e => rfl
    | ok args =>
      have hlen := (Pointwise.mapM_eq_ok_iff.mp hargs).length_eq
      show t.payload.value a b args = t.payload.value a' b args
      cases hp : t.payload with
      | var name | const v => rfl
      | op f =>
        show (if args.isEmpty then _ else a f args) = (if args.isEmpty then _ else a' f args)
        by_cases hnil : args = []
        · rw [hnil]
          rfl
        · rw [h t t.self_mem_postOrder f args hp hnil hlen.symm]

/-- A value fails for a name that is not bound, for operands that are not there, or as an operator does. -/
theorem raised_of_value {e : Fault} (h : t.value a b = .error e) :
    (∃ name, e = .unbound name) ∨ (∃ name, e = .noOperands name) ∨ ∃ f args, a f args = .error e := by
  obtain ⟨u, -, hfail⟩ := List.exists_of_findSome?_eq_some ((value_eq_error_iff a b).mp h)
  rcases failure?_cases hfail with ⟨name, -, he⟩ | ⟨f, -, -, he⟩ | ⟨f, args, -, -, he⟩
  · exact .inl ⟨name, he⟩
  · exact .inr (.inl ⟨f.name, he⟩)
  · exact .inr (.inr ⟨f, args, he⟩)

end Term

/-! ## Built-in operators -/

namespace Operator

/-- A built-in operator finds the operands it looks at in a list it admits. -/
theorem reach_le_of_builtin {f : Operator} (hf : f ∈ builtins) {n : Nat} (hn : f.Admits n) :
    f.function.reach ≤ n := by
  have hreach : ∀ f ∈ builtins, f.function.reach ≤ f.arity.getD 1 := by decide
  have hle := hreach f hf
  cases harity : f.arity with
  | none =>
    rw [harity] at hle
    exact Nat.le_trans hle hn.1
  | some m =>
    rw [harity] at hle
    rw [hn.2 m harity]
    exact hle

/-- An interpretation that never complains of a missing operand. -/
def excusing (a : Interpretation) : Interpretation := fun f args =>
  match a f args with
  | .error .missingOperand => .error .kindMismatch
  | r => r

theorem excusing_ne_missingOperand (a : Interpretation) (f : Operator) (args : List Value) :
    excusing a f args ≠ .error .missingOperand := by
  unfold excusing
  split
  · intro h
    cases h
  · next hne => exact hne

theorem excusing_eq {a : Interpretation} {f : Operator} {args : List Value}
    (h : a f args ≠ .error .missingOperand) : excusing a f args = a f args := by
  unfold excusing
  split
  · next heq => exact absurd heq h
  · rfl

end Operator

/-! ## In a session -/

namespace Session

variable {s : Session} {loose : VertexId → Nat} {a a' : Operator.Interpretation}

theorem value_of_none {h : Handle} (hh : s.store.target? h = none) (k : Strategy) (b : Bindings) :
    s.value a h k.name b = .error .staleHandle := by
  rw [value, evaluateWith, Store.root, Store.behind_of_none hh]
  rfl

/-- **In a store that keeps to the arity operators are called only on lists they admit.** -/
theorem calls_admitted (hb : s.store.Balanced loose) (hs : s.store.Disciplined)
    (hagree : ∀ f args, f.Admits args.length → a f args = a' f args) (h : Handle) :
    (∀ (k : Strategy) (b : Bindings), s.value a h k.name b = s.value a' h k.name b)
      ∧ ∀ summary, s.foldWith a h summary = s.foldWith a' h summary := by
  have hfold : s.store.foldWith a h = s.store.foldWith a' h →
      ∀ summary, s.foldWith a h summary = s.foldWith a' h summary := by
    intro heq summary
    rw [foldWith, foldWith, heq]
  cases hh : s.store.target? h with
  | none =>
    refine ⟨fun k b => ?_, hfold ?_⟩
    · rw [value_of_none hh, value_of_none hh]
    · rw [Store.foldWith_of_none hh, Store.foldWith_of_none hh]
  | some v =>
    obtain ⟨t, ht, -⟩ := hb.termAt? hh
    have hcalls := (hs.term ht).callsAgree hagree
    refine ⟨fun k b => ?_, hfold (Store.foldWith_congr hb.closed hb.acyclic hh ht hcalls)⟩
    rw [value_eq a hh ht, value_eq a' hh ht, hcalls.value_eq]

/-- Where no operator complains of a missing operand, nothing does. -/
theorem ne_missingOperand (hb : s.store.Balanced loose)
    (ha : ∀ f args, a f args ≠ .error .missingOperand) (h : Handle) :
    (∀ (k : Strategy) (b : Bindings), s.value a h k.name b ≠ .error .missingOperand)
      ∧ ∀ summary, (s.foldWith a h summary).1 ≠ .error .missingOperand := by
  cases hh : s.store.target? h with
  | none =>
    constructor
    · intro k b he
      rw [value_of_none hh] at he
      cases he
    · intro summary he
      rw [fst_foldWith, Store.foldWith_of_none hh] at he
      cases he
  | some v =>
    obtain ⟨t, ht, -⟩ := hb.termAt? hh
    constructor
    · intro k b he
      rw [value_eq a hh ht] at he
      rcases Term.raised_of_value he with ⟨name, he⟩ | ⟨name, he⟩ | ⟨f, args, he⟩
      · cases he
      · cases he
      · exact ha f args he
    · intro summary he
      rw [fst_foldWith] at he
      cases (Store.foldWith_traced a hb.closed hb.acyclic hh ht).1 _ he with
      | raised f args hr => exact ha f args hr

end Session

/-! ## After every tour -/

namespace Tour

/-- **The arity discipline holds for ever**: after every tour of public events, each operator was never
    linked or has as many children as it admits.  So no tree has a wrong number of operands among its
    problems; evaluating, by either strategy, and folding come to the same under interpretations that agree
    on lists which operators admit; and when nothing but a built-in operator complains of a missing operand,
    and no matter what a built-in operator does without any, neither evaluating nor folding does. -/
theorem arity_kept (apply : Operator.Interpretation) {es : List Event}
    (hes : ∀ e ∈ es, e.isPublic = true) :
    (∀ v x f, (empty.go apply es).store.vertex? v = some x → x.payload = .op f →
        x.links = none ∨ ∃ vs, x.links = some vs ∧ f.Admits vs.length)
      ∧ (∀ v x, (empty.go apply es).store.vertex? v = some x → ∀ name expected got,
        .wrongCount name expected got ∉ (empty.go apply es).store.problems v)
      ∧ (∀ a a' : Operator.Interpretation,
        (∀ f args, f.Admits args.length → a f args = a' f args) → ∀ h : Handle,
          (∀ (k : Strategy) (b : Bindings), (empty.go apply es).session.value a h k.name b
            = (empty.go apply es).session.value a' h k.name b)
          ∧ ∀ summary, (empty.go apply es).session.foldWith a h summary
            = (empty.go apply es).session.foldWith a' h summary)
      ∧ ∀ a : Operator.Interpretation,
        (∀ f ∈ Operator.builtins, ∀ args, args ≠ [] → a f args = f.apply args) →
        (∀ f, f ∉ Operator.builtins → ∀ args, a f args ≠ .error .missingOperand) → ∀ h : Handle,
          (∀ (k : Strategy) (b : Bindings),
            (empty.go apply es).session.value a h k.name b ≠ .error .missingOperand)
          ∧ ∀ summary, ((empty.go apply es).session.foldWith a h summary).1 ≠ .error .missingOperand := by
  have hb := (sane_go apply es).balanced
  have hs : (empty.go apply es).store.Disciplined := by
    refine (Store.kept_disciplined apply).go hes ?_
    intro v x hx
    cases hx
  generalize empty.go apply es = t at hb hs ⊢
  refine ⟨?_, ?_, ?_, ?_⟩
  · intro v x f hx hf
    cases hl : x.links with
    | none => exact .inl rfl
    | some vs => exact .inr ⟨vs, rfl, hs v x hx f vs hf hl⟩
  · intro v x hx name expected got
    obtain ⟨u, hu⟩ := hb.unfolds v x hx
    rw [hu.problems_eq]
    exact (hs.term hu).wrongCount_not_mem name expected got
  · intro a a' hagree h
    exact Session.calls_admitted hb hs hagree h
  · intro a hbuiltin hother h
    -- on lists that operators admit nothing complains of a missing operand
    have hagree : ∀ f args, f.Admits args.length → a f args = Operator.excusing a f args := by
      intro f args hadmits
      refine (Operator.excusing_eq ?_).symm
      by_cases hf : f ∈ Operator.builtins
      · rw [hbuiltin f hf args (List.ne_nil_of_length_pos hadmits.1)]
        exact Operator.apply_ne_missingOperand (Operator.reach_le_of_builtin hf hadmits)
      · exact hother f hf args
    obtain ⟨hvalue, hfold⟩ := Session.calls_admitted hb hs hagree h
    obtain ⟨hvalue', hfold'⟩ := Session.ne_missingOperand hb (Operator.excusing_ne_missingOperand a) h
    constructor
    · intro k b
      rw [hvalue k b]
      exact hvalue' k b
    · intro summary
      rw [hfold summary]
      exact hfold' summary

/-- The difference of a variable and itself, under handle 1. -/
def difference : List Operation :=
  [.variableLeaf (some "x") none, .operator (.named "subtract") [.tree 0, .tree 0]]

/-- The difference has the two operands it admits. -/
theorem arity_kept_difference :
    (∀ e ∈ difference.map Event.perform, e.isPublic = true)
      ∧ ∃ v x f, (empty.go Operator.apply (difference.map .perform)).store.target? 1 = some v
        ∧ (empty.go Operator.apply (difference.map .perform)).store.vertex? v = some x
        ∧ x.payload = .op f ∧ f.arity = some 2 ∧ ∃ vs, x.links = some vs ∧ f.Admits vs.length := by
  have hpub : ∀ e ∈ difference.map Event.perform, e.isPublic = true := by decide
  have hterm : (Session.run Operator.apply difference).ledger.values.term? 1
      = some (.linked (.op ⟨.subtract, "subtract", some 2, some "-", some .subtract⟩)
        [.bare (.var "x"), .bare (.var "x")]) := by
    have hledger := Session.ledger_run_append Operator.apply (difference.take 1) (difference[1])
    have hops : difference.take 1 ++ [difference[1]] = difference := rfl
    rw [hops] at hledger
    rw [hledger]
    rfl
  have hgo : (empty.go Operator.apply (difference.map .perform)).store
      = (Session.run Operator.apply difference).store := by
    rw [go_perform]
    rfl
  obtain ⟨v, hv, ht⟩ := Store.termAt?_eq_some_iff.mp hterm
  obtain ⟨x, hx⟩ := ht.exists_vertex
  obtain ⟨hp, hrel, -⟩ := ht.children hx
  rw [← hgo] at hv hx
  refine ⟨hpub, v, x, _, hv, hx, hp, rfl, ?_⟩
  rcases (arity_kept Operator.apply hpub).1 v x _ hx hp with hnone | hlinks
  · rw [hnone] at hrel
    cases hrel
  · exact hlinks

end Tour

end ExprGraph

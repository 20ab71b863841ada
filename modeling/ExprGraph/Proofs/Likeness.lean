import ExprGraph.Proofs.ValueSemantics
import ExprGraph.Proofs.Walking
import ExprGraph.Tree.Likeness
/-!
  Trees are alike when their terms are.

  Main statement: the comparison of trees on different vertices answers `true` exactly when the terms are
  alike by recursion, and it fails only where two of their constants cannot be compared
  (`Store.alike_eq_true_iff`).

    * spec       equal operators over operands alike in pairs, equal names, equal values (`Term.Like`);
    * walks      two walks side by side compare the occurrences of two terms (`Store.alikeFrom_eq`);
    * decoding   occurrences in post-order that agree pair by pair, with the number of operands of each,
                 belong to terms that are alike (`Term.like_of_agrees`).

  Vertices are gone from the answer, and with them what is shared; so are the children of leaves.
-/

namespace ExprGraph

/-- **Payloads that cannot be compared** are constants whose values cannot. -/
theorem Payload.same_error {p q : Payload} {e : Fault} (h : p.same q = .error e) :
    ∃ a b, p = .const a ∧ q = .const b ∧ a.same b = .error e := by
  unfold same at h
  split at h
  · cases h
  · cases h
  · exact ⟨_, _, rfl, rfl, h⟩
  · cases h

namespace Pointwise

variable {α β : Type} {R : α → β → Prop} {as : List α} {bs : List β} {a : α} {b : β}

/-- Lists are related when their last members are, and the rest. -/
theorem concat_iff : List.Forall₂ R (as ++ [a]) (bs ++ [b]) ↔ List.Forall₂ R as bs ∧ R a b := by
  rw [← List.forall₂_reverse_iff, List.reverse_concat, List.reverse_concat, List.forall₂_cons,
    List.forall₂_reverse_iff]
  exact And.comm

end Pointwise

namespace Term

variable {t u : Term} {ts us : List Term} {e : Fault}

/-! ## Terms alike by recursion -/

/-- **Two terms are alike.** -/
inductive Like : Term → Term → Prop where
  /-- operators that count as one, over operands that are alike in pairs -/
  | op {t u : Term} {f g : Operator} (ht : t.payload = .op f) (hu : u.payload = .op g)
      (hfg : f.compared = g.compared) (hops : List.Forall₂ Like t.operands u.operands) : Like t u
  /-- one variable, whatever is linked to it -/
  | var {t u : Term} {name : String} (ht : t.payload = .var name) (hu : u.payload = .var name) :
      Like t u
  /-- constants with equal values, whatever is linked to them -/
  | const {t u : Term} {a b : Value} (ht : t.payload = .const a) (hu : u.payload = .const b)
      (hab : a.same b = .ok true) : Like t u

/-- Likeness in one rule: the payloads are equal, and the operands alike in pairs. -/
theorem like_iff :
    Like t u ↔ t.payload.same u.payload = .ok true ∧ List.Forall₂ Like t.operands u.operands := by
  constructor
  · intro h
    cases h with
    | op ht hu hfg hops =>
      rw [ht, hu, Payload.same]
      exact ⟨by rw [decide_eq_true hfg], hops⟩
    | var ht hu =>
      have hto : t.operands = [] := operands_of_not_isOperator (by rw [ht]; rfl)
      have huo : u.operands = [] := operands_of_not_isOperator (by rw [hu]; rfl)
      rw [ht, hu, hto, huo, Payload.same]
      exact ⟨by rw [decide_eq_true rfl], .nil⟩
    | const ht hu hab =>
      have hto : t.operands = [] := operands_of_not_isOperator (by rw [ht]; rfl)
      have huo : u.operands = [] := operands_of_not_isOperator (by rw [hu]; rfl)
      rw [ht, hu, hto, huo]
      exact ⟨hab, .nil⟩
  · rintro ⟨hsame, hops⟩
    cases hp : t.payload with
    | op f =>
      cases hq : u.payload with
      | op g =>
        rw [hp, hq] at hsame
        have hfg : f.compared = g.compared := of_decide_eq_true (Except.ok.inj hsame)
        exact .op hp hq hfg hops
      | var | const => rw [hp, hq] at hsame; cases hsame
    | var name =>
      cases hq : u.payload with
      | var name' =>
        rw [hp, hq] at hsame
        obtain rfl : name = name' := of_decide_eq_true (Except.ok.inj hsame)
        exact .var hp hq
      | op | const => rw [hp, hq] at hsame; cases hsame
    | const a =>
      cases hq : u.payload with
      | const b =>
        rw [hp, hq] at hsame
        exact .const hp hq hsame
      | op | var => rw [hp, hq] at hsame; cases hsame

/-! ## Occurrences compared pair by pair -/

/-- Two occurrences compared by themselves: equally many operands, and equal payloads. -/
def alike (t u : Term) : Except Fault Bool :=
  if t.operands.length = u.operands.length then t.payload.same u.payload else .ok false

/-- Occurrences compared in pairs, up to the first pair that differs or cannot be compared. -/
def alikeAll : List Term → List Term → Except Fault Bool
  | [], [] => .ok true
  | t :: ts, u :: us => do if ← t.alike u then alikeAll ts us else return false
  | _, _ => .ok false

/-- Two occurrences agree. -/
def Agrees (t u : Term) : Prop := t.alike u = .ok true

theorem agrees_iff :
    Agrees t u ↔ t.operands.length = u.operands.length ∧ t.payload.same u.payload = .ok true := by
  unfold Agrees alike
  split
  · next hlen => exact ⟨fun h => ⟨hlen, h⟩, fun h => h.2⟩
  · next hlen =>
    constructor
    · intro h
      cases h
    · intro h
      exact absurd h.1 hlen

theorem alikeAll_eq_true_iff : alikeAll ts us = .ok true ↔ List.Forall₂ Agrees ts us := by
  induction ts generalizing us with
  | nil =>
    cases us with
    | nil => exact ⟨fun _ => .nil, fun _ => rfl⟩
    | cons u us => exact ⟨nofun, nofun⟩
  | cons t ts ih =>
    cases us with
    | nil => exact ⟨nofun, nofun⟩
    | cons u us =>
      rw [List.forall₂_cons, ← ih, Agrees, alikeAll]
      cases t.alike u with
      | error e => exact ⟨nofun, nofun⟩
      | ok same =>
        cases same with
        | false => exact ⟨nofun, nofun⟩
        | true => exact ⟨fun h => ⟨rfl, h⟩, fun h => h.2⟩

/-- The comparison fails only at two occurrences that cannot be compared. -/
theorem alikeAll_error (h : alikeAll ts us = .error e) : ∃ t ∈ ts, ∃ u ∈ us, t.alike u = .error e := by
  induction ts generalizing us with
  | nil => cases us <;> cases h
  | cons t ts ih =>
    cases us with
    | nil => cases h
    | cons u us =>
      rw [alikeAll] at h
      cases htu : t.alike u with
      | error e' =>
        rw [htu] at h
        cases h
        exact ⟨t, List.mem_cons_self, u, List.mem_cons_self, htu⟩
      | ok same =>
        rw [htu] at h
        cases same with
        | false => cases h
        | true =>
          obtain ⟨c, hc, d, hd, hcd⟩ := ih h
          exact ⟨c, List.mem_cons_of_mem t hc, d, List.mem_cons_of_mem u hd, hcd⟩

/-! ## A post-order sequence with the numbers of operands determines the term -/

/-- **Decoding**: where the occurrences below two terms agree at the ends of two sequences, the terms are
    alike, and what stands before agrees as well. -/
theorem like_of_agrees
    (h : List.Forall₂ Agrees (ts ++ t.postOrder) (us ++ u.postOrder)) :
    Like t u ∧ List.Forall₂ Agrees ts us := by
  induction t generalizing u ts us with
  | step t ih =>
    rw [postOrder_eq t, postOrder_eq u, ← List.append_assoc, ← List.append_assoc] at h
    obtain ⟨hbelow, htu⟩ := Pointwise.concat_iff.mp h
    obtain ⟨hlen, hsame⟩ := agrees_iff.mp htu
    -- the roots have equally many operands, and those split off from the last to the first
    have hoperands : ∀ {as bs ts us : List Term}, as.length = bs.length → (∀ a ∈ as, a ∈ t.operands) →
        List.Forall₂ Agrees (ts ++ as.flatMap postOrder) (us ++ bs.flatMap postOrder) →
        List.Forall₂ Like as bs ∧ List.Forall₂ Agrees ts us := by
      intro as
      induction as with
      | nil =>
        intro bs ts us hlen _ hall
        obtain rfl := List.length_eq_zero_iff.mp hlen.symm
        rw [List.flatMap_nil, List.append_nil, List.append_nil] at hall
        exact ⟨.nil, hall⟩
      | cons a as ihs =>
        intro bs ts us hlen hmem hall
        obtain ⟨b, bs, rfl⟩ := List.exists_cons_of_length_eq_add_one hlen.symm
        rw [List.flatMap_cons, List.flatMap_cons, ← List.append_assoc, ← List.append_assoc] at hall
        have hothers : ∀ c ∈ as, c ∈ t.operands := fun c hc => hmem c (List.mem_cons_of_mem a hc)
        obtain ⟨hrest, hfirst⟩ := ihs (Nat.succ.inj hlen) hothers hall
        have ha := mem_children_of_mem_operands (hmem a List.mem_cons_self)
        obtain ⟨hab, hbefore⟩ := ih a ha hfirst
        exact ⟨.cons hab hrest, hbefore⟩
    obtain ⟨hops, hbefore⟩ := hoperands hlen (fun a ha => ha) hbelow
    exact ⟨like_iff.mpr ⟨hsame, hops⟩, hbefore⟩

/-- Terms that are alike agree in all their occurrences. -/
theorem Like.agrees (h : Like t u) : List.Forall₂ Agrees t.postOrder u.postOrder := by
  induction t generalizing u with
  | step t ih =>
    obtain ⟨hsame, hops⟩ := like_iff.mp h
    rw [postOrder_eq t, postOrder_eq u]
    refine Pointwise.concat_iff.mpr ⟨Pointwise.flatMap ?_, agrees_iff.mpr ⟨hops.length_eq, hsame⟩⟩
    refine Pointwise.imp_mem hops fun a ha b _ hab => ?_
    exact ih a (mem_children_of_mem_operands ha) hab

/-- **Terms are alike exactly when their occurrences agree**, as many and in post-order. -/
theorem like_iff_agrees : Like t u ↔ List.Forall₂ Agrees t.postOrder u.postOrder := by
  constructor
  · exact Like.agrees
  · intro h
    have hdecoded := @like_of_agrees t u [] [] h
    exact hdecoded.1

end Term

/-! ## Two walks side by side -/

namespace Store

variable {s : Store} {a b v w : VertexId} {x y : Vertex} {t u : Term} {ts us : List Term} {g h : Handle}

/-- Two vertices are compared as their terms are. -/
theorem Unfolds.alike_eq (ht : s.Unfolds v t) (hu : s.Unfolds w u) (hx : s.vertex? v = some x)
    (hy : s.vertex? w = some y) : x.alike y = t.alike u := by
  have hpt := (ht.children hx).1
  have hpu := (hu.children hy).1
  rw [Vertex.alike, Term.alike, (ht.operands hx).length_eq, (hu.operands hy).length_eq, hpt, hpu]

/-- **Walks side by side** compare what they still have to yield, when the bound allows. -/
theorem alikeFrom_eq {bound : Nat} {a b : Cursor} (hga : Cursor.Grounded s a.path)
    (hgb : Cursor.Grounded s b.path) (hts : List.Forall₂ s.Unfolds (Cursor.pending s a.path) ts)
    (hus : List.Forall₂ s.Unfolds (Cursor.pending s b.path) us) (hb : ts.length < bound) :
    s.alikeFrom bound a b = Term.alikeAll ts us := by
  induction bound generalizing a b ts us with
  | zero => exact absurd hb (Nat.not_lt_zero _)
  | succ bound ih =>
    rw [alikeFrom]
    rcases Cursor.next_spec hga with ⟨hnone, hpend⟩ | ⟨v, a', hsome, hyield, hground⟩
    · -- the first walk is exhausted
      rw [hpend] at hts
      rw [Cursor.next_of_fst_none hnone]
      cases hts
      rcases Cursor.next_spec hgb with ⟨hnone', hpend'⟩ | ⟨w, b', hsome', hyield', -⟩
      · rw [hpend'] at hus
        rw [Cursor.next_of_fst_none hnone']
        cases hus
        rfl
      · rw [← hyield'] at hus
        rw [hsome']
        cases hus
        rfl
    · rw [← hyield] at hts
      rw [hsome]
      rcases Cursor.next_spec hgb with ⟨hnone', hpend'⟩ | ⟨w, b', hsome', hyield', hground'⟩
      · rw [hpend'] at hus
        rw [Cursor.next_of_fst_none hnone']
        cases hts
        cases hus
        rfl
      · -- both walks yield a vertex, and go on if the two agree
        rw [← hyield'] at hus
        rw [hsome']
        cases hts with
        | cons hvt hts =>
          cases hus with
          | cons hwu hus =>
            obtain ⟨x, hx⟩ := hvt.exists_vertex
            obtain ⟨y, hy⟩ := hwu.exists_vertex
            have hrest := ih hground hground' hts hus (Nat.lt_of_succ_lt_succ hb)
            simp only [hx, hy, hvt.alike_eq hwu hx hy, hrest, Term.alikeAll]

/-- **Trees compared vertex by vertex** are compared occurrence by occurrence. -/
theorem Unfolds.alikeAlong_eq (ht : s.Unfolds v t) (hu : s.Unfolds w u) :
    s.alikeAlong v w = Term.alikeAll t.postOrder u.postOrder := by
  have hts := ht.walk_postOrder
  have hbound : t.postOrder.length < s.walkBound + 1 := by
    rw [← hts.length_eq]
    exact Nat.lt_succ_of_le ht.length_walk_le_walkBound
  rw [← Cursor.pending_start ht] at hts
  have hus := hu.walk_postOrder
  rw [← Cursor.pending_start hu] at hus
  exact alikeFrom_eq (Cursor.grounded_start ht) (Cursor.grounded_start hu) hts hus hbound

/-- **Trees are alike when their terms are**, in a closed store without circles.  Trees on different vertices
    are found alike exactly when the recursion on their terms finds them alike, whatever they share and
    whatever lies below leaves.  The comparison comes to an answer, unless it meets a constant of the one tree
    and a constant of the other that cannot be compared. -/
theorem alike_eq_true_iff (hc : s.Closed) (ha : s.Acyclic) (hg : s.target? g = some v)
    (hh : s.target? h = some w) (hne : v ≠ w) :
    ∃ t u, s.termAt? g = some t ∧ s.termAt? h = some u
      ∧ (s.alike v w = .ok true ↔ t.Like u)
      ∧ ∀ e, s.alike v w = .error e → ∃ c ∈ t.postOrder, ∃ d ∈ u.postOrder, ∃ a b,
          c.payload = .const a ∧ d.payload = .const b ∧ a.same b = .error e := by
  obtain ⟨x, hx⟩ := hc.handle g v hg
  obtain ⟨y, hy⟩ := hc.handle h w hh
  obtain ⟨t, ht⟩ := hc.exists_unfolds ha hx
  obtain ⟨u, hu⟩ := hc.exists_unfolds ha hy
  have halike : s.alike v w = Term.alikeAll t.postOrder u.postOrder := by
    rw [alike, if_neg hne, ht.alikeAlong_eq hu]
  refine ⟨t, u, termAt?_eq_some_iff.mpr ⟨v, hg, ht⟩, termAt?_eq_some_iff.mpr ⟨w, hh, hu⟩, ?_, ?_⟩
  · rw [halike, Term.alikeAll_eq_true_iff, Term.like_iff_agrees]
  · intro e he
    rw [halike] at he
    obtain ⟨c, hc, d, hd, hcd⟩ := Term.alikeAll_error he
    rw [Term.alike] at hcd
    split at hcd
    · obtain ⟨a, b, hp, hq, hab⟩ := Payload.same_error hcd
      exact ⟨c, hc, d, hd, a, b, hp, hq, hab⟩
    · cases hcd

end Store

namespace Session

/-- Two sums `1 * x + 1 * x`.  That under handle 3 has one product twice, and its one carries a child; that
    under handle 7 has two products, and the one of the first is a truth. -/
def sumsOfProducts : List Operation :=
  [.variableLeaf (some "x") none, .linked (.const (.integer 1)) (some [0]),
   .linked (.op ⟨.multiply, "multiply", none, some "*", some .multiply⟩) (some [1, 0]),
   .linked (.op ⟨.add, "add", none, some "+", some .add⟩) (some [2, 2]), .constantLeaf (.truth true),
   .linked (.op ⟨.multiply, "multiply", none, some "*", some .multiply⟩) (some [4, 0]),
   .linked (.op ⟨.multiply, "multiply", none, some "*", some .multiply⟩) (some [1, 0]),
   .linked (.op ⟨.add, "add", none, some "+", some .add⟩) (some [5, 6])]

/-- Neither what is shared nor the child of the constant makes a difference. -/
theorem alike_sumsOfProducts :
    (run Operator.apply sumsOfProducts).store.Closed ∧ (run Operator.apply sumsOfProducts).store.Acyclic
      ∧ (run Operator.apply sumsOfProducts).store.target? 3 = some 3
      ∧ (run Operator.apply sumsOfProducts).store.target? 7 = some 7 ∧ (3 : VertexId) ≠ 7
      ∧ (run Operator.apply sumsOfProducts).store.alike 3 7 = .ok true := by
  have hb := balanced_run Operator.apply sumsOfProducts
  have hleft : (run Operator.apply sumsOfProducts).store.target? 3 = some 3 := rfl
  have hright : (run Operator.apply sumsOfProducts).store.target? 7 = some 7 := rfl
  have hne : (3 : VertexId) ≠ 7 := by decide
  obtain ⟨t, u, ht, hu, halike, -⟩ := Store.alike_eq_true_iff hb.closed hb.acyclic hleft hright hne
  refine ⟨hb.closed, hb.acyclic, hleft, hright, hne, halike.mpr ?_⟩
  obtain rfl := Option.some.inj (ht.symm.trans rfl)
  obtain rfl := Option.some.inj (hu.symm.trans rfl)
  have hx : Term.Like (.bare (.var "x")) (.bare (.var "x")) := .var rfl rfl
  have hone : Term.Like (.linked (.const (.integer 1)) [.bare (.var "x")]) (.bare (.const (.truth true))) :=
    .const rfl rfl rfl
  have hsame : Term.Like (.linked (.const (.integer 1)) [.bare (.var "x")])
      (.linked (.const (.integer 1)) [.bare (.var "x")]) := .const rfl rfl rfl
  have hproduct : ∀ {a b : Term}, a.Like b →
      Term.Like (.linked (.op ⟨.multiply, "multiply", none, some "*", some .multiply⟩) [a, .bare (.var "x")])
        (.linked (.op ⟨.multiply, "multiply", none, some "*", some .multiply⟩) [b, .bare (.var "x")]) := by
    intro a b hab
    exact .op rfl rfl rfl (.cons hab (.cons hx .nil))
  exact .op rfl rfl rfl (.cons (hproduct hone) (.cons (hproduct hsame) .nil))

end Session

end ExprGraph

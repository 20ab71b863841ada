import ExprGraph.Proofs.CopyOnWrite
import ExprGraph.Proofs.Evaluating
import ExprGraph.Proofs.TermFolding
/-!
  Folding a tree in place.

  The stack of places folds the tree of a place as `Term.fold` folds its term, failures included, and it is
  an edit through that place alone (`Balanced.fold`).

    * state      the store, and the places still to be folded;
    * step       one place is taken, folded or left (`Store.foldStep`);
    * invariant  the vertex whose operands are being folded is reached through its place alone, the operands
                 folded so far unfold into folded terms, the others into the terms they had;
    * measure    two steps for an operator, one for a leaf (`Term.foldSteps`).
-/

namespace ExprGraph

namespace Term

/-- The number of steps that folding a term takes when nothing fails. -/
def foldSteps (t : Term) : Nat := (t.postOrder.map fun u => if u.payload.isOperator then 2 else 1).sum

theorem foldSteps_eq (t : Term) :
    t.foldSteps = (t.operands.map foldSteps).sum + if t.payload.isOperator then 2 else 1 := by
  have hflat : ∀ us : List Term,
      ((us.flatMap postOrder).map fun u => if u.payload.isOperator then 2 else 1).sum
        = (us.map foldSteps).sum := by
    intro us
    induction us with
    | nil => rfl
    | cons u us ih =>
      rw [List.flatMap_cons, List.map_append, List.sum_append, ih, List.map_cons, List.sum_cons]
      rfl
  rw [foldSteps, postOrder_eq, List.map_append, List.sum_append, hflat]
  rfl

theorem foldSteps_le (t : Term) : t.foldSteps ≤ 2 * t.postOrder.length := by
  unfold foldSteps
  induction t.postOrder with
  | nil => exact Nat.zero_le _
  | cons u us ih =>
    rw [List.map_cons, List.sum_cons, List.length_cons]
    split <;> omega

end Term

namespace Store

variable {apply : Operator.Interpretation} {s s' s'' : Store} {loose : VertexId → Nat} {p : Place}
  {v w : VertexId} {x : Vertex} {t u : Term} {pend pend' : List Pending} {r : Except Fault Nat}
  {n c c' : Nat} {e : Fault}

/-! ## Runs -/

/-- The rest of folding after a part with the given result: it goes on, or ends with the failure. -/
def foldOn (apply : Operator.Interpretation) (bound : Nat) (work : List Pending) (s : Store)
    (notes : List Note) (folded : Nat) : Except Fault Nat → Folded
  | .ok n => foldFrom apply bound work s notes (folded + n)
  | .error e => ⟨s, notes.reverse, .error e⟩

theorem foldOn_map (r : Except Fault Nat) (bound : Nat) (work : List Pending) (notes : List Note)
    (folded n : Nat) :
    foldOn apply bound work s notes folded (r.map (n + ·))
      = foldOn apply bound work s notes (folded + n) r := by
  cases r with
  | ok m => exact congrArg _ (Nat.add_assoc folded n m).symm
  | error e => rfl

theorem map_zero_add (r : Except Fault Nat) : r.map (0 + ·) = r := by
  cases r with
  | ok n => exact congrArg Except.ok (Nat.zero_add n)
  | error e => rfl

/-- **Folding the places on top of the stack** leads to a store and a result within a number of steps, whatever
    lies below them on the stack. -/
def Runs (apply : Operator.Interpretation) (pend : List Pending) (s s' : Store) (r : Except Fault Nat)
    (steps : Nat) : Prop :=
  ∃ more, ∀ bound work notes folded, foldFrom apply (steps + bound) (pend ++ work) s notes folded
    = foldOn apply bound work s' (more ++ notes) folded r

theorem Runs.nil (s : Store) : Runs apply [] s s (.ok 0) 0 :=
  ⟨[], fun bound work notes folded => by rw [Nat.zero_add]; rfl⟩

/-- One run after another. -/
theorem Runs.append (h : Runs apply pend s s' (.ok n) c) (h' : Runs apply pend' s' s'' r c') :
    Runs apply (pend ++ pend') s s'' (r.map (n + ·)) (c + c') := by
  obtain ⟨more, h⟩ := h
  obtain ⟨more', h'⟩ := h'
  refine ⟨more' ++ more, fun bound work notes folded => ?_⟩
  rw [List.append_assoc, Nat.add_assoc, h]
  show foldFrom apply (c' + bound) (pend' ++ work) s' (more ++ notes) (folded + n) = _
  rw [h', foldOn_map, List.append_assoc]

/-- A failure leaves the rest of the stack undone. -/
theorem Runs.append_error (h : Runs apply pend s s' (.error e) c) (pend' : List Pending) (c' : Nat) :
    Runs apply (pend ++ pend') s s' (.error e) (c + c') := by
  obtain ⟨more, h⟩ := h
  refine ⟨more, fun bound work notes folded => ?_⟩
  rw [List.append_assoc, Nat.add_assoc, h]
  rfl

/-- A step, then what it puts on the stack. -/
theorem Runs.step {q : Pending} {notes : List Note} {next : List Pending}
    (hs : foldStep apply s q = ⟨s', notes, n, .ok next⟩) (h : Runs apply next s' s'' r c) :
    Runs apply [q] s s'' (r.map (n + ·)) (c + 1) := by
  obtain ⟨more, h⟩ := h
  refine ⟨more ++ notes.reverse, fun bound work done folded => ?_⟩
  rw [Nat.add_right_comm, List.singleton_append, foldFrom, hs]
  show foldFrom apply (c + bound) (next ++ work) s' (notes.reverse ++ done) (folded + n) = _
  rw [h, foldOn_map, List.append_assoc]

/-- A step that fails. -/
theorem Runs.step_error {q : Pending} {notes : List Note}
    (hs : foldStep apply s q = ⟨s', notes, n, .error e⟩) (c : Nat) :
    Runs apply [q] s s' (.error e) (c + 1) := by
  refine ⟨notes.reverse, fun bound work done folded => ?_⟩
  rw [Nat.add_right_comm, List.singleton_append, foldFrom, hs]
  rfl

/-! ## Single steps -/

/-- A leaf is left as it is. -/
theorem foldStep_leaf {ready : Bool} (hp : s.at? p = some v) (hx : s.vertex? v = some x)
    (hl : x.payload.isOperator = false) : foldStep apply s ⟨p, ready⟩ = ⟨s, [], 0, .ok []⟩ := by
  simp only [foldStep, hp, Option.bind_some, hx]
  cases hpay : x.payload with
  | op f => rw [hpay] at hl; exact absurd hl (by simp [Payload.isOperator])
  | var name | const a => rfl

variable {f : Operator} (apply)

/-- An operator without operands fails on the way down. -/
theorem foldStep_empty (hp : s.at? p = some v) (hx : s.vertex? v = some x) (hf : x.payload = .op f)
    (he : x.operands = []) :
    foldStep apply s ⟨p, false⟩ = ⟨s, [], 0, .error (.noOperands f.name)⟩ := by
  simp only [foldStep, hp, Option.bind_some, hx, hf, he]
  rfl

/-- An operator with operands is taken for its place, with its operands on top. -/
theorem foldStep_expand (hp : s.at? p = some v) (hx : s.vertex? v = some x) (hf : x.payload = .op f)
    (he : x.operands ≠ []) :
    foldStep apply s ⟨p, false⟩ = s.expand p x.operands.length := by
  have hempty : x.operands.isEmpty = false := by simpa using he
  simp only [foldStep, hp, Option.bind_some, hx, hf, hempty]
  rfl

/-- An operator whose operands are done is collapsed if they are constants. -/
theorem foldStep_ready (hp : s.at? p = some v) (hx : s.vertex? v = some x) (hf : x.payload = .op f) :
    foldStep apply s ⟨p, true⟩ = match s.constants x.operands with
      | some args => collapse apply s p f args
      | none => ⟨s, [], 0, .ok []⟩ := by
  simp only [foldStep, hp, Option.bind_some, hx, hf]
  rfl

variable {apply}

/-- Vertices are constants where their terms are. -/
theorem constants_eq {vs : List VertexId} {ts : List Term} (h : List.Forall₂ s.Unfolds vs ts) :
    s.constants vs = Term.constants ts := by
  unfold constants Term.constants
  induction h with
  | nil => rfl
  | @cons v t vs ts hv _ ih =>
    obtain ⟨x, hx⟩ := hv.exists_vertex
    rw [List.mapM_cons, List.mapM_cons, ih, hx, Option.bind_some, (hv.children hx).1]

/-! ## Steps by the term -/

variable (apply)

/-- An operator with operands is taken for its place, with its operands on top. -/
theorem Unfolds.foldStep_expand (ht : s.Unfolds v t) (hp : s.at? p = some v) (hf : t.payload = .op f)
    (he : t.operands ≠ []) : foldStep apply s ⟨p, false⟩ = s.expand p t.operands.length := by
  obtain ⟨x, hx⟩ := ht.exists_vertex
  have hex : x.operands ≠ [] := fun h => he ((ht.operands_eq_nil_iff hx).mp h)
  rw [Store.foldStep_expand apply hp hx ((ht.children hx).1.trans hf) hex, (ht.operands hx).length_eq]

/-- An operator whose operands are done is collapsed if their terms are constants. -/
theorem Unfolds.foldStep_ready (ht : s.Unfolds v t) (hp : s.at? p = some v) (hf : t.payload = .op f) :
    foldStep apply s ⟨p, true⟩ = match Term.constants t.operands with
      | some args => collapse apply s p f args
      | none => ⟨s, [], 0, .ok []⟩ := by
  obtain ⟨x, hx⟩ := ht.exists_vertex
  rw [Store.foldStep_ready apply hp hx ((ht.children hx).1.trans hf), constants_eq (ht.operands hx)]

/-- **An operator with operands is taken for its place**: the place is left with a vertex that is reached
    through it alone, and the operands of this vertex are on the stack before the place comes up again. -/
theorem Balanced.take (hb : s.Balanced loose) (hp : s.at? p = some v) (ht : s.Unfolds v t)
    (hf : t.payload = .op f) (he : t.operands ≠ []) :
    ∃ w s' notes, s.makeSole p = (some w, ⟨s', notes⟩)
      ∧ foldStep apply s ⟨p, false⟩ = ⟨s', notes, 0,
          .ok ((List.range' 0 t.operands.length).map (fun i => ⟨.link w i, false⟩) ++ [⟨p, true⟩])⟩
      ∧ Edited s s' loose p w t ∧ ¬ s'.Held loose {p} w
      ∧ s'.Unfolds w (.linked (.op f) ([] ++ t.operands)) := by
  obtain ⟨w, s', notes, hsole, hedit, hw⟩ := hb.makeSole hp ht
  have hstep := ht.foldStep_expand apply hp hf he
  rw [expand, hsole, List.range_eq_range'] at hstep
  exact ⟨w, s', notes, hsole, hstep, hedit, hw, Term.eq_linked hf he ▸ hedit.unfolds⟩

variable {apply}

/-! ## Below a vertex reached through one place -/

/-- What is bound to a place stays when a link of the vertex behind it is edited. -/
theorem Edited.at?_parent {i : Nat} (h : Edited s s' loose (.link v i) w u) (ha : s.Anchored loose p)
    (hp : s.at? p = some v) (hv : ¬ s.Held loose {p} v) : s'.at? p = some v := by
  cases p with
  | handle g => exact (h.changes.handle g (by simp)).trans hp
  | link a j =>
    have hne : a ≠ v := by
      rintro rfl
      exact hv ha
    exact (h.changes.link a j (Held.past_links ha hv) (by simp [hne])).trans hp

/-- The link to a child of the term leads to a vertex that unfolds into it. -/
theorem Unfolds.exists_at?_link {payload : Payload} {ds ts : List Term}
    (ht : s.Unfolds v (.linked payload (ds ++ t :: ts))) :
    ∃ w, s.at? (.link v ds.length) = some w ∧ s.Unfolds w t := by
  obtain ⟨x, hx⟩ := ht.exists_vertex
  obtain ⟨hlen, hget⟩ := Pointwise.iff_getElem?.mp (ht.children hx).2.2
  have hterm : (ds ++ t :: ts)[ds.length]? = some t := by
    rw [List.getElem?_append_right (Nat.le_refl _), Nat.sub_self]
    rfl
  have hlt : ds.length < x.children.length := by
    rw [hlen]
    exact (List.getElem?_eq_some_iff.mp hterm).1
  refine ⟨x.children[ds.length], ?_, hget _ _ _ (List.getElem?_eq_getElem hlt) hterm⟩
  rw [at?_link, children_of_vertex? hx, List.getElem?_eq_getElem hlt]

/-- **An edit of one link changes one child of the term.** -/
theorem Edited.unfolds_parent {i : Nat} {payload : Payload} {ds ts : List Term}
    (h : Edited s s' loose (.link v i) w u) (ha : s.Anchored loose (.link v i))
    (ht : s.Unfolds v (.linked payload (ds ++ t :: ts))) (hi : i = ds.length) :
    s'.Unfolds v (.linked payload (ds ++ u :: ts)) := by
  obtain ⟨x, hx⟩ := ht.exists_vertex
  obtain ⟨hpay, hrel, hterms⟩ := ht.children hx
  obtain ⟨y, hy, hpay', hlen'⟩ := h.changes.vertex v x ha hx
  obtain ⟨hlen, hget⟩ := Pointwise.iff_getElem?.mp hterms
  refine unfolds_iff.mpr ⟨y, hy, hpay'.trans hpay, Pointwise.rel_of_getD ?_ ?_⟩
  · have hsome : x.links.isSome = true := by
      cases hl : x.links with
      | none => rw [hl] at hrel; cases hrel
      | some vs => rfl
    have hsame := congrArg Option.isSome hlen'
    rw [Option.isSome_map, Option.isSome_map, hsome] at hsame
    exact hsame
  · have hchildren : y.children.length = x.children.length := by
      unfold Vertex.children
      cases hl : x.links <;> cases hl' : y.links <;> simp_all
    refine Pointwise.iff_getElem?.mpr ⟨?_, fun j a b haj hbj => ?_⟩
    · show y.children.length = (ds ++ u :: ts).length
      rw [hchildren, hlen]
      show (ds ++ t :: ts).length = _
      simp
    · have haj' : s'.at? (.link v j) = some a := by
        rw [at?_link, children_of_vertex? hy]
        exact haj
      by_cases hji : j = i
      · -- the edited link
        subst hji
        obtain rfl := Option.some.inj (haj'.symm.trans h.at?)
        have hb : (ds ++ u :: ts)[j]? = some b := hbj
        rw [hi, List.getElem?_append_right (Nat.le_refl _), Nat.sub_self] at hb
        obtain rfl := Option.some.inj hb
        exact h.unfolds
      · -- the other links lead where they led, past the edited one
        have hne : Place.link v j ∉ ({.link v i} : Set Place) := by simp [hji]
        have hold : s.at? (.link v j) = some a := (h.changes.link v j ha hne).symm.trans haj'
        have hxa : x.children[j]? = some a := by
          rwa [at?_link, children_of_vertex? hx] at hold
        have hb : (ds ++ t :: ts)[j]? = some b :=
          (Pointwise.getElem?_append_cons_of_ne t u (hi ▸ hji)).trans hbj
        have hab : s.Unfolds a b := hget j a b hxa hb
        refine h.changes.unfolds (.link ha hne hold) hab fun c k hm => ?_
        obtain ⟨rfl, -⟩ := Place.link.inj (Set.mem_singleton_iff.mp hm)
        exact ht.not_reaches_of_child (mem_children_of_at? hold)

/-! ## The run of a term -/

/-- What folding the tree of a place comes to. -/
def FoldsAs (apply : Operator.Interpretation) (t : Term) : Prop :=
  ∀ ⦃s : Store⦄ ⦃loose : VertexId → Nat⦄ ⦃p : Place⦄ ⦃v : VertexId⦄, s.Balanced loose →
    s.Anchored loose p → s.at? p = some v → s.Unfolds v t →
    ∃ s' w, Edited s s' loose p w (t.fold apply).1
      ∧ Runs apply [⟨p, false⟩] s s' (t.fold apply).2 t.foldSteps

/-- **One operand folded** is an edit of its link, and one of the parent to the term with the operand folded. -/
theorem FoldsAs.operand {payload : Payload} {ds ts : List Term} (hf : FoldsAs apply t)
    (hb : s.Balanced loose) (ha : s.Anchored loose p) (hp : s.at? p = some v) (hv : ¬ s.Held loose {p} v)
    (ht : s.Unfolds v (.linked payload (ds ++ t :: ts))) :
    ∃ s' w, Edited s s' loose (.link v ds.length) w (t.fold apply).1
      ∧ Edited s s' loose p v (.linked payload (ds ++ (t.fold apply).1 :: ts))
      ∧ Runs apply [⟨.link v ds.length, false⟩] s s' (t.fold apply).2 t.foldSteps := by
  have hlink := ha.link hp hv ds.length
  obtain ⟨w, hchild, hwt⟩ := ht.exists_at?_link
  obtain ⟨s', w', hedit, hrun⟩ := hf hb hlink hchild hwt
  have hparent : Edited s s' loose p v (.linked payload (ds ++ (t.fold apply).1 :: ts)) :=
    ⟨hedit.balanced, hedit.changes.of_link hv, hedit.at?_parent ha hp hv, hedit.unfolds_parent hlink ht rfl⟩
  exact ⟨s', w', hedit, hparent, hrun⟩

/-- **The operands of a vertex from left to right**: those before the `i`-th are done. -/
theorem foldAll_run {payload : Payload} {ts : List Term} (ih : ∀ u ∈ ts, FoldsAs apply u) :
    ∀ {ds : List Term} {s : Store}, s.Balanced loose → s.Anchored loose p → s.at? p = some v →
      ¬ s.Held loose {p} v → s.Unfolds v (.linked payload (ds ++ ts)) →
      ∃ s', Edited s s' loose p v (.linked payload (ds ++ (Term.foldAll apply ts).1))
        ∧ Runs apply ((List.range' ds.length ts.length).map fun i => ⟨.link v i, false⟩) s s'
            (Term.foldAll apply ts).2 (ts.map Term.foldSteps).sum := by
  induction ts with
  | nil =>
    intro ds s hb _ hp _ ht
    exact ⟨s, ⟨hb, .refl s loose _, hp, ht⟩, .nil s⟩
  | cons t ts ihs =>
    intro ds s hb ha hp hv ht
    obtain ⟨s₁, w₁, -, hedit₁, hrun⟩ := (ih t List.mem_cons_self).operand hb ha hp hv ht
    rw [List.length_cons, List.range'_succ, List.map_cons, List.map_cons, List.sum_cons]
    cases hfold : t.fold apply with
    | mk u r =>
      rw [hfold] at hrun hedit₁
      cases r with
      | error e =>
        rw [Term.foldAll_cons_error hfold]
        exact ⟨s₁, hedit₁, hrun.append_error _ _⟩
      | ok n =>
        have ht₂ : s₁.Unfolds v (.linked payload ((ds ++ [u]) ++ ts)) := by
          rw [List.append_assoc]
          exact hedit₁.unfolds
        obtain ⟨s₂, hedit₂, hrun₂⟩ := ihs (fun c hc => ih c (List.mem_cons_of_mem t hc)) hedit₁.balanced
          (hedit₁.changes.anchored ha) hedit₁.at? (fun hm => hv (hedit₁.changes.of_held hm)) ht₂
        rw [List.append_assoc] at hedit₂
        rw [List.length_append, List.length_singleton] at hrun₂
        rw [Term.foldAll_cons_ok hfold]
        exact ⟨s₂, hedit₁.trans hedit₂, hrun.append hrun₂⟩

/-- A leaf. -/
theorem foldsAs_leaf (hl : t.payload.isOperator = false) : FoldsAs apply t := by
  intro s loose p v hb _ hp ht
  obtain ⟨x, hx⟩ := ht.exists_vertex
  have hlx : x.payload.isOperator = false := by rw [(ht.children hx).1, hl]
  rw [Term.fold_of_leaf hl, Term.foldSteps_eq, Term.operands_of_not_isOperator hl, hl]
  exact ⟨s, v, ⟨hb, .refl s loose _, hp, ht⟩, .step (foldStep_leaf hp hx hlx) (.nil s)⟩

/-- An operator without operands. -/
theorem foldsAs_empty (hf : t.payload = .op f) (he : t.operands = []) : FoldsAs apply t := by
  intro s loose p v hb _ hp ht
  obtain ⟨x, hx⟩ := ht.exists_vertex
  have hfx : x.payload = .op f := (ht.children hx).1.trans hf
  have hex : x.operands = [] := (ht.operands_eq_nil_iff hx).mpr he
  rw [Term.fold_of_no_operands hf he, Term.foldSteps_eq, he, hf]
  exact ⟨s, v, ⟨hb, .refl s loose _, hp, ht⟩, .step_error (foldStep_empty apply hp hx hfx hex) 1⟩

/-- The collapse of an operator whose operands are done. -/
theorem collapse_run {us : List Term} (hb : s.Balanced loose) (ha : s.Anchored loose p)
    (hp : s.at? p = some v) (ht : s.Unfolds v (.linked (.op f) us)) (n : Nat) :
    ∃ s' w r, Edited s s' loose p w (Term.collapse apply f us n).1
      ∧ Runs apply [⟨p, true⟩] s s' r 1 ∧ r.map (n + ·) = (Term.collapse apply f us n).2 := by
  have hargs : (Term.linked (.op f) us).operands = us := rfl
  have hstep := ht.foldStep_ready apply hp rfl
  rw [hargs] at hstep
  cases hc : Term.constants us with
  | none =>
    rw [hc] at hstep
    rw [Term.collapse_of_none hc]
    exact ⟨s, v, .ok 0, ⟨hb, .refl s loose _, hp, ht⟩, .step hstep (.nil s), rfl⟩
  | some args =>
    rw [hc] at hstep
    simp only [collapse] at hstep
    cases hr : apply f args with
    | error e =>
      rw [hr] at hstep
      rw [Term.collapse_of_error hc hr]
      exact ⟨s, v, .error e, ⟨hb, .refl s loose _, hp, ht⟩, .step_error hstep 0, rfl⟩
    | ok a =>
      rw [hr] at hstep
      obtain ⟨w, hedit⟩ := hb.replace (.const a) ha hp
      rw [Term.collapse_of_ok hc hr]
      exact ⟨_, w, .ok 1, hedit, .step hstep (.nil _), rfl⟩

/-- **Folding the tree of a place is an edit to the folded term.** -/
theorem foldsAs (t : Term) : FoldsAs apply t := by
  induction t with
  | step t ih =>
    cases hf : t.payload with
    | var name | const a => exact foldsAs_leaf (by rw [hf]; rfl)
    | op f =>
      by_cases he : t.operands = []
      · exact foldsAs_empty hf he
      intro s loose p v hb ha hp ht
      -- the vertex is taken for the place, then its operands are folded one by one
      obtain ⟨w, s₁, notes, -, hstep, hedit, hw, ht₁⟩ := hb.take apply hp ht hf he
      obtain ⟨s₂, hedit₂, hrun⟩ := foldAll_run
        (fun u hu => ih u (Term.mem_children_of_mem_operands hu)) hedit.balanced
        (hedit.changes.anchored ha) hedit.at? hw ht₁
      rw [Term.foldSteps_eq, hf]
      cases hall : Term.foldAll apply t.operands with
      | mk us r =>
        rw [hall] at hedit₂ hrun
        cases r with
        | error e =>
          rw [Term.fold_of_error hf he hall]
          refine ⟨s₂, w, hedit.trans hedit₂, ?_⟩
          exact .step hstep (hrun.append_error [⟨p, true⟩] 1)
        | ok n =>
          rw [Term.fold_of_ok hf he hall]
          have ha₂ := hedit₂.changes.anchored (hedit.changes.anchored ha)
          obtain ⟨s₃, w₃, r, hedit₃, hrun₃, hr⟩ :=
            collapse_run hedit₂.balanced ha₂ hedit₂.at? hedit₂.unfolds n
          refine ⟨s₃, w₃, (hedit.trans hedit₂).trans hedit₃, ?_⟩
          have hruns := Runs.step hstep (hrun.append hrun₃)
          rw [hr, map_zero_add] at hruns
          exact hruns

/-! ## Folding the tree of a handle -/

theorem walkBound_pos (s : Store) : 0 < s.walkBound := Nat.pow_pos (Nat.succ_pos _)

/-- There is nothing to fold at a handle that is not live. -/
theorem foldWith_of_none {h : Handle} (hh : s.target? h = none) :
    s.foldWith apply h = ⟨s, [], .error .staleHandle⟩ := by
  obtain ⟨k, hk⟩ := Nat.exists_eq_succ_of_ne_zero (Nat.ne_of_gt s.walkBound_pos)
  have hstep : foldStep apply s ⟨.handle h, false⟩ = ⟨s, [], 0, .error .staleHandle⟩ := by
    simp only [foldStep, at?_handle, hh, Option.bind_none]
  have hbound : 2 * s.walkBound = (k + k + 1) + 1 := by omega
  rw [foldWith, hbound, foldFrom, hstep]
  rfl

/-- The bound of a walk is enough for folding the term. -/
theorem Unfolds.foldSteps_le (ht : s.Unfolds v t) : t.foldSteps ≤ 2 * s.walkBound := by
  have hle := t.foldSteps_le
  have hlen := ht.walk_postOrder.length_eq
  have hwalk := ht.length_walk_le_walkBound
  omega

/-- A run that the bound allows is what folding comes to. -/
theorem Runs.foldWith_eq {h : Handle} (hrun : Runs apply [⟨.handle h, false⟩] s s' r c)
    (hc : c ≤ 2 * s.walkBound) : (s.foldWith apply h).store = s' ∧ (s.foldWith apply h).outcome = r := by
  obtain ⟨more, hrun⟩ := hrun
  obtain ⟨k, hk⟩ := Nat.exists_eq_add_of_le hc
  have hfold : s.foldWith apply h = foldOn apply k [] s' (more ++ []) 0 r := by
    rw [Store.foldWith, hk]
    exact hrun k [] [] 0
  have hend : foldOn apply k [] s' (more ++ []) 0 r = ⟨s', (more ++ []).reverse, r⟩ := by
    cases r with
    | error e => rfl
    | ok n =>
      rw [foldOn, Nat.zero_add]
      cases k <;> rfl
  rw [hfold, hend]
  exact ⟨rfl, rfl⟩

/-- **Folding the tree of a handle** is an edit through the handle to the folded term, and fails as folding
    the term does. -/
theorem Balanced.foldWith (apply : Operator.Interpretation) {h : Handle} (hb : s.Balanced loose)
    (hh : s.target? h = some v) (ht : s.Unfolds v t) :
    ∃ w, Edited s (s.foldWith apply h).store loose (.handle h) w (t.fold apply).1
      ∧ (s.foldWith apply h).outcome = (t.fold apply).2 := by
  obtain ⟨s', w, hedit, hrun⟩ := foldsAs t hb (s.anchored_handle loose h) hh ht
  obtain ⟨hstore, hout⟩ := hrun.foldWith_eq ht.foldSteps_le
  rw [hstore]
  exact ⟨w, hedit, hout⟩

end Store

end ExprGraph

import ExprGraph.Proofs.Idempotence
import ExprGraph.Proofs.Interrupted
/-!
  Folding that fails, and fails again.

  Main statement: where folding the tree of a handle fails, the tree is left folded up to the first occurrence
  that fails and unchanged from there on, the counts are exact as before, and folding it again fails in the
  same way without changing anything (`Session.fold_fails_again`).

    * term       how far folding came (`Term.StopsAt`, `Term.foldFirst`);
    * store      operands before the failure are folded and unshared, operators above it have one owner;
    * run        so folding again does nothing up to the failure, and fails there (`Store.Halts`).
-/

namespace ExprGraph

namespace Store

variable {apply : Operator.Interpretation} {s s' : Store} {loose : VertexId → Nat} {p : Place}
  {v w : VertexId} {t : Term} {pend pend' : List Pending} {e : Fault} {c c' : Nat}

/-! ## Failing without an effect -/

/-- **Folding the places on top of the stack fails and does nothing else**, not even a remark. -/
def Halts (apply : Operator.Interpretation) (pend : List Pending) (s : Store) (e : Fault) (steps : Nat) :
    Prop :=
  ∀ bound work notes folded, foldFrom apply (steps + bound) (pend ++ work) s notes folded
    = ⟨s, notes.reverse, .error e⟩

/-- What lies below a failure on the stack is not looked at. -/
theorem Halts.append (h : Halts apply pend s e c) (pend' : List Pending) (c' : Nat) :
    Halts apply (pend ++ pend') s e (c + c') := by
  intro bound work notes folded
  rw [List.append_assoc, Nat.add_assoc, h]

/-- Nothing is done up to the failure. -/
theorem Idle.halts (h : Idle apply pend s c) (h' : Halts apply pend' s e c') :
    Halts apply (pend ++ pend') s e (c + c') := by
  intro bound work notes folded
  rw [List.append_assoc, Nat.add_assoc, h, h']

/-- A step without an effect, then what it puts on the stack. -/
theorem Halts.step {q : Pending} {next : List Pending} (hs : foldStep apply s q = ⟨s, [], 0, .ok next⟩)
    (h : Halts apply next s e c) : Halts apply [q] s e (c + 1) := by
  intro bound work notes folded
  rw [Nat.add_right_comm, List.singleton_append, foldFrom, hs]
  exact h bound work notes folded

/-- A step that fails without an effect. -/
theorem halts_of_step {q : Pending} (hs : foldStep apply s q = ⟨s, [], 0, .error e⟩) (c : Nat) :
    Halts apply [q] s e (c + 1) := by
  intro bound work notes folded
  rw [Nat.add_right_comm, List.singleton_append, foldFrom, hs]
  rfl

/-! ## The runs of a term -/

/-- Where folding the tree of a place fails, folding it again fails without an effect. -/
def FailsAgain (apply : Operator.Interpretation) (t : Term) : Prop :=
  ∀ ⦃s s' : Store⦄ ⦃loose : VertexId → Nat⦄ ⦃p : Place⦄ ⦃v : VertexId⦄ ⦃e : Fault⦄ ⦃c : Nat⦄,
    s.Balanced loose → s.Anchored loose p → s.at? p = some v → s.Unfolds v t →
    Runs apply [⟨p, false⟩] s s' (.error e) c → Halts apply [⟨p, false⟩] s' e (t.fold apply).1.foldSteps

/-- Settled operands without sharing, with others behind them. -/
theorem idle_before {payload : Payload} {ds rest : List Term} (hset : ∀ d ∈ ds, d.Settled)
    (hun : ∀ i a, i < ds.length → s.at? (.link v i) = some a → s.Unshared a)
    (ht : s.Unfolds v (.linked payload (ds ++ rest))) :
    Idle apply ((List.range' 0 ds.length).map fun i => ⟨.link v i, false⟩) s (ds.map Term.foldSteps).sum := by
  have hone : ∀ u ∈ ds, ∀ i a, i < ds.length → s.at? (.link v i) = some a → s.Unfolds a u →
      Idle apply [⟨.link v i, false⟩] s u.foldSteps := by
    intro u hu i a hi hat hau
    exact idle_of_settled hat hau (hset u hu) (hun i a hi hat)
  have hlen : ([] : List Term).length + ds.length ≤ ds.length := Nat.le_of_eq (Nat.zero_add _)
  exact idle_operands hone hlen ht

/-- The first numbers: those before one of them, that one, and those behind it. -/
theorem range'_split (m n : Nat) :
    List.range' 0 (m + (n + 1)) = List.range' 0 m ++ [m] ++ List.range' (m + 1) n := by
  rw [← List.range'_append_1, Nat.zero_add, List.range'_succ, List.append_assoc]
  rfl

/-- **The operands of a vertex from left to right**: those before the `i`-th are settled and unshared. -/
theorem halts_operands {payload : Payload} {ts us : List Term} (ih : ∀ u ∈ ts, FailsAgain apply u) :
    ∀ {ds : List Term} {s : Store} {c : Nat}, s.Balanced loose → s.Anchored loose p → s.at? p = some v →
      ¬ s.Held loose {p} v → s.Unfolds v (.linked payload (ds ++ ts)) → (∀ d ∈ ds, d.Settled) →
      (∀ i a, i < ds.length → s.at? (.link v i) = some a → s.Unshared a) →
      Term.foldAll apply ts = (us, .error e) →
      Runs apply ((List.range' ds.length ts.length).map fun i => ⟨.link v i, false⟩) s s' (.error e) c →
      Halts apply ((List.range' 0 (ds.length + ts.length)).map fun i => ⟨.link v i, false⟩) s' e
        ((ds ++ us).map Term.foldSteps).sum := by
  induction ts generalizing us with
  | nil =>
    intro ds s c _ _ _ _ _ _ _ hall
    cases hall
  | cons t ts ihs =>
    intro ds s c hb ha hp hv ht hset hun hall hrun
    obtain ⟨s₁, w₁, hedit, hparent, hhead⟩ := FoldsAs.operand (foldsAs t) hb ha hp hv ht
    rw [List.length_cons, List.range'_succ, List.map_cons] at hrun
    cases hfold : t.fold apply with
    | mk d r =>
      rw [hfold] at hedit hparent hhead
      cases r with
      | error e' =>
        -- this operand fails: those before it are idle, and it fails again
        rw [Term.foldAll_cons_error hfold] at hall
        cases hall
        obtain ⟨rfl, -⟩ := (hhead.append_error _ 0).unique hrun
        obtain ⟨b, hbt, htb⟩ := ht.exists_at?_link
        have hun₁ := unshared_before hb ha hp hv ht hun hedit hhead
        have hidle : Idle apply _ s₁ _ := idle_before hset hun₁ hparent.unfolds
        have hfail := ih t List.mem_cons_self hb (ha.link hp hv _) hbt htb hhead
        rw [hfold] at hfail
        have hhalts := (hidle.halts hfail).append
          ((List.range' (ds.length + 1) ts.length).map fun i => ⟨.link v i, false⟩)
          (ts.map Term.foldSteps).sum
        have hsteps : ((ds ++ d :: ts).map Term.foldSteps).sum
            = (ds.map Term.foldSteps).sum + d.foldSteps + (ts.map Term.foldSteps).sum := by
          rw [List.map_append, List.sum_append, List.map_cons, List.sum_cons, Nat.add_assoc]
        rw [hsteps, List.length_cons, range'_split, List.map_append, List.map_append]
        exact hhalts
      | ok m =>
        -- this operand is folded: it is settled and unshared from now on
        rw [Term.foldAll_cons_ok hfold] at hall
        cases hrest : Term.foldAll apply ts with
        | mk us' r' =>
          rw [hrest] at hall
          cases r' with
          | ok m' => cases hall
          | error e' =>
            cases hall
            have ht₁ : s₁.Unfolds v (.linked payload ((ds ++ [d]) ++ ts)) := by
              rw [List.append_assoc]
              exact hparent.unfolds
            have ha₁ := hparent.changes.anchored ha
            have hv₁ : ¬ s₁.Held loose {p} v := fun hm => hv (hparent.changes.of_held hm)
            have hun₁ := (unshares t).next hb ha hp hv ht hun hedit hhead
            have hset₁ : ∀ a ∈ ds ++ [d], a.Settled := by
              intro a hmem
              rcases List.mem_append.mp hmem with hmem | hmem
              · exact hset a hmem
              · obtain rfl := List.mem_singleton.mp hmem
                exact (Term.foldsTo_of_fold hfold).1.settled
            obtain ⟨s₂, -, htail⟩ :=
              foldAll_run (fun u _ => foldsAs u) hparent.balanced ha₁ hparent.at? hv₁ ht₁
            have hsplit := hhead.append htail
            rw [hrest] at htail
            have hlen : (ds ++ [d]).length = ds.length + 1 := List.length_append
            rw [hlen] at hsplit
            obtain ⟨rfl, -⟩ := hsplit.unique hrun
            have hhalts := ihs (fun u hu => ih u (List.mem_cons_of_mem t hu)) hparent.balanced ha₁
              hparent.at? hv₁ ht₁ hset₁ hun₁ hrest htail
            rw [hlen, List.append_assoc, Nat.add_assoc, Nat.add_comm 1] at hhalts
            exact hhalts

/-- An operator with one owner that is left with its operands is taken as it is, and halts where they do. -/
theorem Halts.operator {f : Operator} {us : List Term} {x : Vertex} (hp : s.at? p = some v)
    (ht : s.Unfolds v (.linked (.op f) us)) (hne : us ≠ []) (hx : s.vertex? v = some x) (hone : x.owners ≤ 1)
    (h : Halts apply (((List.range' 0 us.length).map fun i => ⟨.link v i, false⟩) ++ [⟨p, true⟩]) s e
      ((us.map Term.foldSteps).sum + 1)) :
    Halts apply [⟨p, false⟩] s e (Term.linked (.op f) us).foldSteps := by
  have hexpand := ht.foldStep_expand apply hp rfl hne
  rw [expand, makeSole_of_le hp hx hone, List.range_eq_range'] at hexpand
  rw [Term.foldSteps_eq]
  exact .step hexpand h

/-- **Where folding the tree of a place fails, folding it again fails without an effect.** -/
theorem failsAgain (t : Term) : FailsAgain apply t := by
  induction t with
  | step t ih =>
    intro s s' loose p v e c hb ha hp ht hrun
    obtain ⟨s₀, w₀, hedit, hrun₀⟩ := foldsAs t hb ha hp ht
    obtain ⟨-, hfail⟩ := hrun₀.unique hrun
    cases hf : t.payload with
    | var name | const a =>
      rw [Term.fold_of_leaf (by rw [hf]; rfl)] at hfail
      cases hfail
    | op f =>
      obtain ⟨x, hx⟩ := ht.exists_vertex
      by_cases he : t.operands = []
      · -- an operator without operands fails on the way down
        have hops : x.operands = [] := (ht.operands_eq_nil_iff hx).mpr he
        have hstep := foldStep_empty apply hp hx ((ht.children hx).1.trans hf) hops
        obtain ⟨rfl, herror⟩ := (Runs.step_error hstep 0).unique hrun
        obtain rfl := Except.error.inj herror
        rw [Term.fold_of_no_operands hf he, Term.foldSteps_eq, he, hf]
        exact halts_of_step hstep 1
      have ih' : ∀ u ∈ t.operands, FailsAgain apply u :=
        fun u hu => ih u (Term.mem_children_of_mem_operands hu)
      -- the vertex was taken for its place, and has one owner ever since
      obtain ⟨w, s₁, notes, hsole, hexpand, hedit₁, hw, ht₁⟩ := hb.take apply hp ht hf he
      have ha₁ := hedit₁.changes.anchored ha
      obtain ⟨s₂, hedit₂, hrun₂⟩ := foldAll_run (fun u _ => foldsAs u) hedit₁.balanced ha₁ hedit₁.at? hw ht₁
      obtain ⟨x₁, hx₁⟩ := ht₁.exists_vertex
      obtain ⟨x₂, hx₂⟩ := hedit₂.unfolds.exists_vertex
      have hone := owners_operands_run ht₁ hx₁ (owners_makeSole hsole hx₁) hx₂ hrun₂
      have hnone : ∀ i a, i < ([] : List Term).length → s₁.at? (.link w i) = some a → s₁.Unshared a :=
        fun i a hi => absurd hi (Nat.not_lt_zero i)
      have hlen := Term.length_foldAll apply t.operands
      cases hall : Term.foldAll apply t.operands with
      | mk us r =>
        rw [hall] at hedit₂ hrun₂ hlen
        have hne : us ≠ [] := fun hnil => he (List.length_eq_zero_iff.mp (hlen.symm.trans (hnil ▸ rfl)))
        cases r with
        | error e' =>
          -- an operand failed, and does so again
          rw [Term.fold_of_error hf he hall] at hfail ⊢
          obtain rfl := Except.error.inj hfail
          obtain ⟨rfl, -⟩ := (Runs.step hexpand (hrun₂.append_error [⟨p, true⟩] 1)).unique hrun
          have hhalts := halts_operands ih' hedit₁.balanced ha₁ hedit₁.at? hw ht₁
            (fun d hd => absurd hd List.not_mem_nil) hnone hall hrun₂
          rw [List.length_nil, Nat.zero_add, ← hlen] at hhalts
          exact .operator hedit₂.at? hedit₂.unfolds hne hx₂ hone (hhalts.append [⟨p, true⟩] 1)
        | ok m =>
          -- the operands were folded, and the function fails on them
          rw [Term.fold_of_ok hf he hall] at hfail ⊢
          obtain ⟨args, hargs, hr⟩ := Term.constants_of_collapse_error hfail
          rw [Term.collapse_of_error hargs hr]
          have hready := hedit₂.unfolds.foldStep_ready apply hedit₂.at? rfl
          have hus : (Term.linked (.op f) ([] ++ us)).operands = us := rfl
          rw [hus, hargs] at hready
          simp only [collapse, hr] at hready
          obtain ⟨rfl, -⟩ := (Runs.step hexpand (hrun₂.append (.step_error hready 0))).unique hrun
          have hset : ∀ d ∈ us, d.Settled := by
            intro d hd
            obtain ⟨a, -, n, hfold⟩ := Pointwise.exists_left (Term.forall_of_foldAll_ok hall) hd
            exact (Term.foldsTo_of_fold hfold).1.settled
          have hun := unshared_operands (fun u _ => unshares u) hedit₁.balanced ha₁ hedit₁.at? hw ht₁ hnone
            hall hrun₂
          have hterm : s₂.Unfolds w (.linked (.op f) (us ++ [])) := by
            rw [List.append_nil]
            exact hedit₂.unfolds
          have hidle : Idle apply _ s₂ _ := idle_before hset (fun i a _ => hun i a) hterm
          exact .operator hedit₂.at? hedit₂.unfolds hne hx₂ hone (hidle.halts (halts_of_step hready 0))

/-- **Folding fails again**: the store stays, nothing is remarked, and the failure is the same. -/
theorem foldWith_of_halts {h : Handle} (ht : s.Unfolds v t)
    (hhalts : Halts apply [⟨.handle h, false⟩] s e t.foldSteps) : s.foldWith apply h = ⟨s, [], .error e⟩ := by
  obtain ⟨k, hk⟩ := Nat.exists_eq_add_of_le ht.foldSteps_le
  have hfold := hhalts k [] [] 0
  rw [← hk, List.append_nil] at hfold
  rw [Store.foldWith, hfold]
  rfl

end Store

/-! ## In a session -/

/-- Exact counts leave no owner loose. -/
theorem Store.Exact.balanced {s : Store} (he : s.Exact) (hc : s.Closed) (ha : s.Acyclic) :
    s.Balanced fun _ => 0 where
  handle_live := hc.handle
  loose_live _ hv := absurd hv (Nat.lt_irrefl 0)
  unfolds _ _ hx := hc.exists_unfolds ha hx
  owners := he

namespace Session

variable {s : Session} {h : Handle} {v : VertexId} {e : Fault}

/-- **Folding that fails leaves a consistent tree, and fails again**, in a store without circles whose counts
    are exact.  It fails at the first occurrence in post-order that fails by itself.  The operators before it
    that have no variable below them are folded to their values; that occurrence and all behind it, those
    above it among them, keep their payloads.  The store is closed, without circles and exactly counted as
    before.  Folding again fails in the same way, and leaves everything as it is. -/
theorem fold_fails_again {apply : Operator.Interpretation} (hc : s.store.Closed) (ha : s.store.Acyclic)
    (he : s.store.Exact) (hh : s.store.target? h = some v) {summary : Bool}
    (hn : (s.foldWith apply h summary).1 = .error e) :
    ∃ t before c after s', s.store.termAt? h = some t ∧ (s.foldWith apply h summary).2 = s'
      ∧ Term.StopsAt apply t.postOrder before c after e
      ∧ s'.store.termAt? h = some (t.foldFirst apply before.length)
      ∧ (∃ folded, (t.foldFirst apply before.length).postOrder.map Term.payload
        = folded ++ (c :: after).map Term.payload)
      ∧ s'.store.Closed ∧ s'.store.Acyclic ∧ s'.store.Exact
      ∧ s'.store.foldWith apply h = ⟨s'.store, [], .error e⟩
      ∧ ∀ again : Bool, s'.foldWith apply h again = (.error e, s') := by
  have hb := he.balanced hc ha
  obtain ⟨t, ht, hterm⟩ := hb.termAt? hh
  obtain ⟨s₁, w, hedit, hrun⟩ := Store.foldsAs t hb (s.store.anchored_handle _ h) hh ht
  obtain ⟨hstore, hout⟩ := hrun.foldWith_eq ht.foldSteps_le
  rw [fst_foldWith, hout] at hn
  rw [hn] at hrun
  obtain ⟨before, c, after, hstop, hfirst⟩ := Term.stops_of_fold_error (Prod.ext rfl hn)
  -- the same run again
  have hhalts := Store.failsAgain t hb (s.store.anchored_handle _ h) hh ht hrun
  have hagain := Store.foldWith_of_halts hedit.unfolds hhalts
  have hafter : s₁.termAt? h = some (t.foldFirst apply before.length) := by
    rw [← hfirst]
    exact Store.termAt?_eq_some_iff.mpr ⟨w, hedit.at?, hedit.unfolds⟩
  obtain ⟨folded, hkept⟩ := @Term.payloads_foldFirst apply t before.length
  rw [hstop.occurrences, List.drop_left] at hkept
  have hsame := store_foldWith apply s h summary
  rw [hstore] at hsame
  generalize (s.foldWith apply h summary).2 = s' at hsame
  subst hsame
  refine ⟨t, before, c, after, s', hterm, rfl, hstop, hafter, ⟨folded, hkept⟩, hedit.balanced.closed,
    hedit.balanced.acyclic, hedit.balanced.owners, hagain, ?_⟩
  intro again
  simp only [foldWith, hagain]
  rfl

/-- The sum `(2 + 2) * x + fail(2 + 2) + (2 + 2)`, under handle 5.  The inner sum is one vertex. -/
def failsInside : List Operation :=
  [.constantLeaf (.integer 2), .linked (.op ⟨.add, "add", none, some "+", some .add⟩) (some [0, 0]),
   .variableLeaf (some "x") none, .linked (.op ⟨.multiply, "multiply", none, some "*", some .multiply⟩) (some [1, 2]),
   .linked (.op ⟨.fail, "fail", none, none, none⟩) (some [1]),
   .linked (.op ⟨.add, "add", none, some "+", some .add⟩) (some [3, 4, 1])]

/-- The inner sum. -/
def twoAndTwo : Term :=
  .linked (.op ⟨.add, "add", none, some "+", some .add⟩) [.bare (.const (.integer 2)), .bare (.const (.integer 2))]

/-- What it folds to. -/
def four : Term := .bare (.const (.integer 4))

/-- The sum `a * x + fail(b) + c`. -/
def failsBetween (a b c : Term) : Term :=
  .linked (.op ⟨.add, "add", none, some "+", some .add⟩)
    [.linked (.op ⟨.multiply, "multiply", none, some "*", some .multiply⟩) [a, .bare (.var "x")],
     .linked (.op ⟨.fail, "fail", none, none, none⟩) [b], c]

/-- The inner sum is folded where it stands before the failure, and stays behind it. -/
theorem fold_fails_again_failsInside :
    (run Operator.apply failsInside).store.Closed ∧ (run Operator.apply failsInside).store.Acyclic
      ∧ (run Operator.apply failsInside).store.Exact
      ∧ (run Operator.apply failsInside).store.target? 5 = some 5
      ∧ ((run Operator.apply failsInside).foldWith Operator.apply 5 true).1 = .error (.raised "boom")
      ∧ (run Operator.apply failsInside).store.termAt? 5 = some (failsBetween twoAndTwo twoAndTwo twoAndTwo)
      ∧ ∃ s' : Session, ((run Operator.apply failsInside).foldWith Operator.apply 5 true).2 = s'
        ∧ s'.store.termAt? 5 = some (failsBetween four four twoAndTwo)
        ∧ s'.foldWith Operator.apply 5 false = (.error (.raised "boom"), s') := by
  have hb := balanced_run Operator.apply failsInside
  have he : (run Operator.apply failsInside).store.Exact := hb.owners
  have hh : (run Operator.apply failsInside).store.target? 5 = some 5 := rfl
  have hterm : (run Operator.apply failsInside).store.termAt? 5
      = some (failsBetween twoAndTwo twoAndTwo twoAndTwo) := rfl
  have ht := Store.unfolds_of_termAt? hh hterm
  obtain ⟨hout, w, hw, hleft⟩ := foldWith_spec Operator.apply hb hh ht true
  have hn : ((run Operator.apply failsInside).foldWith Operator.apply 5 true).1 = .error (.raised "boom") :=
    hout.trans rfl
  obtain ⟨t, before, c, after, s', -, hs', -, -, -, -, -, -, -, hagain⟩ :=
    fold_fails_again hb.closed hb.acyclic he hh hn
  rw [hs'] at hw hleft
  exact ⟨hb.closed, hb.acyclic, he, hh, hn, hterm, s', hs', Store.termAt?_eq_some_iff.mpr ⟨w, hw, hleft⟩,
    hagain false⟩

end Session

end ExprGraph

import ExprGraph.Proofs.BottomUp
/-!
  How far folding comes.

  Main statement: folding a term fails at the first occurrence in post-order that fails by itself, and what is
  left is the term with its occurrences before that one folded and with nothing else changed
  (`Term.stops_of_fold_error`).

  An occurrence fails by itself when it is an operator without operands, or one whose operands have values
  without any bindings and whose function fails on them (`Term.Fails`).  Folding the first so many occurrences
  turns each operator among them that has no variable below it into its value (`Term.foldFirst`).

    * operands   from left to right, each with its share of the occurrences (`Term.foldFirstAll`);
    * root       the last occurrence of its term, so folded only when all below it are;
    * the rest   payloads stay from there on, in post-order (`Term.payloads_foldFirst`).
-/

namespace ExprGraph

namespace Term

variable {apply : Operator.Interpretation} {t u c d : Term} {ts us : List Term} {f : Operator}
  {e e' : Fault} {n k : Nat}

/-! ## Occurrences that fail by themselves -/

/-- **Folding fails at the occurrence itself.** -/
inductive Fails (apply : Operator.Interpretation) : Term → Fault → Prop where
  /-- an operator without operands -/
  | noOperands {t : Term} {f : Operator} (hp : t.payload = .op f) (hops : t.operands = []) :
      Fails apply t (.noOperands f.name)
  /-- an operator whose operands have values without any bindings, and whose function fails on them -/
  | raised {t : Term} {f : Operator} {args : List Value} {e : Fault} (hp : t.payload = .op f)
      (hne : t.operands ≠ []) (hargs : t.operands.mapM (value apply []) = .ok args)
      (hr : apply f args = .error e) : Fails apply t e

/-! ## Folding from left to right -/

variable (apply) in
/-- Folding keeps the number of terms. -/
theorem length_foldAll (ts : List Term) : (foldAll apply ts).1.length = ts.length := by
  have hkept : ∀ t ∈ ts, (t.fold apply).1.value apply [] = t.value apply [] := fun t _ => value_fold t
  exact (mapM_value_foldAll hkept).1

/-- Terms that fold to their end do so one by one. -/
theorem forall_of_foldAll_ok (h : foldAll apply ts = (us, .ok n)) :
    List.Forall₂ (fun t u => ∃ m, t.fold apply = (u, .ok m)) ts us := by
  have hone : ∀ t ∈ ts, ∀ u n, t.fold apply = (u, .ok n) →
      (∃ m, t.fold apply = (u, .ok m)) ∧ n = (t.fold apply).2.toOption.getD 0 := by
    intro t _ u n hfold
    rw [hfold]
    exact ⟨⟨n, rfl⟩, rfl⟩
  exact (foldAll_of_ok hone h).1

/-- Operands that fold to their end have the values of what they fold to. -/
theorem mapM_value_of_foldAll_ok {b : Bindings} (h : foldAll apply ts = (us, .ok n)) :
    ts.mapM (value apply b) = us.mapM (value apply b) := by
  refine Pointwise.mapM_congr ((forall_of_foldAll_ok h).imp ?_)
  rintro t u ⟨m, hfold⟩
  have hvalue : (t.fold apply).1.value apply b = t.value apply b := value_fold t
  rw [hfold] at hvalue
  exact hvalue.symm

/-- **What folds to its end does not fail by itself.** -/
theorem not_fails_of_fold_ok (h : (t.fold apply).2 = .ok n) : ¬ Fails apply t e := by
  intro hfails
  cases hfails with
  | noOperands hp hops =>
    rw [fold_of_no_operands hp hops] at h
    cases h
  | @raised _ f args hp hne hargs hr =>
    cases hall : foldAll apply t.operands with
    | mk us r =>
      cases r with
      | error e' =>
        rw [fold_of_error hp hne hall] at h
        cases h
      | ok m =>
        rw [fold_of_ok hp hne hall] at h
        rw [mapM_value_of_foldAll_ok hall] at hargs
        -- operands with values have no variables, so they were folded to constants
        have hconst : ∀ u ∈ us, u.payload.value?.isSome = u.varNames.isEmpty := by
          intro u hu
          obtain ⟨a, -, m, hfold⟩ := Pointwise.exists_left (forall_of_foldAll_ok hall) hu
          exact (foldsTo_of_fold hfold).1.isSome_value?
        have hnames : us.flatMap varNames = [] := by
          refine List.eq_nil_iff_forall_not_mem.mpr fun name hname => ?_
          obtain ⟨u, hu, hmem⟩ := List.mem_flatMap.mp hname
          obtain ⟨a, -, ha⟩ := Pointwise.exists_right (Pointwise.mapM_eq_ok_iff.mp hargs) hu
          cases lookup_isSome_of_value ha hmem
        have hsome := isSome_constants hconst
        rw [hnames] at hsome
        obtain ⟨args', hargs'⟩ := Option.isSome_iff_exists.mp hsome
        obtain rfl := Except.ok.inj ((mapM_value_of_constants hargs').symm.trans hargs)
        rw [collapse_of_error hargs' hr] at h
        cases h

/-- What occurs in a term that folds to its end folds to its end. -/
theorem fold_ok_of_mem (h : (t.fold apply).2 = .ok n) (hd : d ∈ t.postOrder) :
    ∃ m, (d.fold apply).2 = .ok m := by
  induction t generalizing n with
  | step t ih =>
    rw [postOrder_eq] at hd
    rcases List.mem_append.mp hd with hd | hd
    · obtain ⟨a, ha, hda⟩ := List.mem_flatMap.mp hd
      obtain ⟨f, hf⟩ : ∃ f, t.payload = .op f := by
        refine Payload.isOperator_iff.mp ?_
        cases hop : t.payload.isOperator with
        | true => rfl
        | false =>
          rw [operands_of_not_isOperator hop] at ha
          cases ha
      have hne : t.operands ≠ [] := List.ne_nil_of_mem ha
      cases hall : foldAll apply t.operands with
      | mk us r =>
        cases r with
        | error e =>
          rw [fold_of_error hf hne hall] at h
          cases h
        | ok m =>
          obtain ⟨u, -, m', hfold⟩ := Pointwise.exists_right (forall_of_foldAll_ok hall) ha
          exact ih a (mem_children_of_mem_operands ha) (by rw [hfold]) hda
    · obtain rfl := List.mem_singleton.mp hd
      exact ⟨n, h⟩

/-- A term without variables that folds to its end has a value without any bindings. -/
theorem value_of_fold_ok (h : (t.fold apply).2 = .ok n) (hv : t.varNames = []) :
    ∃ a, t.value apply [] = .ok a := by
  have hground : t.Ground := by
    intro u hu name hp
    have hname : name ∈ t.varNames := mem_varNames_iff.mpr ⟨u, hu, hp⟩
    rw [hv] at hname
    cases hname
  have hcomp : Computed (t.fold apply) (t.value apply []) := fold_of_ground hground
  cases hvalue : t.value apply [] with
  | ok a => exact ⟨a, rfl⟩
  | error e =>
    rw [hvalue] at hcomp
    have hfail : (t.fold apply).2 = .error e := hcomp
    rw [h] at hfail
    cases hfail

/-! ## The first occurrences folded -/

variable (apply) in
/-- What an occurrence is folded to: its value, if it is an operator without variables below it. -/
def folded? (t : Term) : Option Value :=
  if t.payload.isOperator && t.varNames.isEmpty then (t.value apply []).toOption else none

variable (apply) in
mutual

/-- **The first `k` occurrences folded**: each operator among them that has no variable below it is replaced
    by its value, and everything else stays. -/
def foldFirst : Nat → Term → Term
  | _, bare p => bare p
  | k, linked p ts =>
    if p.isOperator then
      match if (linked p ts).postOrder.length ≤ k then (linked p ts).folded? apply else none with
      | some a => bare (.const a)
      | none => linked p (foldFirstAll k ts)
    else linked p ts

/-- The first `k` occurrences below several terms folded. -/
def foldFirstAll : Nat → List Term → List Term
  | _, [] => []
  | k, t :: ts => foldFirst k t :: foldFirstAll (k - t.postOrder.length) ts

end

theorem foldFirst_of_leaf (h : t.payload.isOperator = false) (k : Nat) : t.foldFirst apply k = t := by
  cases t with
  | bare p => rw [foldFirst]
  | linked p ts =>
    rw [foldFirst]
    exact if_neg (Bool.eq_false_iff.mp h)

/-- The number of occurrences below an operator over terms: all those below the terms, and one more. -/
theorem length_postOrder_linked (f : Operator) (ts : List Term) :
    (linked (.op f) ts).postOrder.length = (ts.flatMap postOrder).length + 1 := by
  rw [postOrder_eq, List.length_append, List.length_singleton]
  rfl

/-- Before all occurrences of a term are folded, its root stays, -/
theorem foldFirst_of_lt (h : k ≤ (ts.flatMap postOrder).length) :
    (linked (.op f) ts).foldFirst apply k = linked (.op f) (foldFirstAll apply k ts) := by
  have hlt : ¬ (linked (.op f) ts).postOrder.length ≤ k := by
    rw [length_postOrder_linked]
    omega
  rw [foldFirst, if_neg hlt]
  rfl

theorem foldFirst_of_le (hf : t.payload = .op f) (hne : t.operands ≠ [])
    (h : k ≤ (t.operands.flatMap postOrder).length) :
    t.foldFirst apply k = linked (.op f) (foldFirstAll apply k t.operands) := by
  have ht := eq_linked hf hne
  generalize t.operands = ts at ht h
  subst ht
  exact foldFirst_of_lt h

/-- and so it does when it is not folded at all, -/
theorem foldFirst_of_none (h : (linked (.op f) ts).folded? apply = none) (k : Nat) :
    (linked (.op f) ts).foldFirst apply k = linked (.op f) (foldFirstAll apply k ts) := by
  rw [foldFirst, h, ite_self]
  rfl

/-- otherwise it is replaced. -/
theorem foldFirst_of_some {a : Value} (h : (linked (.op f) ts).folded? apply = some a)
    (hk : (ts.flatMap postOrder).length < k) :
    (linked (.op f) ts).foldFirst apply k = bare (.const a) := by
  have hle : (linked (.op f) ts).postOrder.length ≤ k := by
    rw [length_postOrder_linked]
    exact hk
  rw [foldFirst, if_pos hle, h]
  rfl

theorem foldFirstAll_zero_of (h : ∀ t ∈ ts, t.foldFirst apply 0 = t) : foldFirstAll apply 0 ts = ts := by
  induction ts with
  | nil => rw [foldFirstAll]
  | cons t ts ih =>
    have hhead := h t List.mem_cons_self
    rw [foldFirstAll, hhead, Nat.zero_sub, ih fun u hu => h u (List.mem_cons_of_mem t hu)]

/-- With no occurrence folded the term is what it was. -/
theorem foldFirst_zero (t : Term) : t.foldFirst apply 0 = t := by
  induction t with
  | step t ih =>
    cases hf : t.payload with
    | var name | const a => exact foldFirst_of_leaf (by rw [hf]; rfl) 0
    | op f =>
      cases t with
      | bare p => rw [foldFirst]
      | linked p ts =>
        obtain rfl : p = .op f := hf
        have hall : foldFirstAll apply 0 ts = ts := foldFirstAll_zero_of ih
        rw [foldFirst_of_lt (Nat.zero_le _), hall]

theorem foldFirstAll_zero (ts : List Term) : foldFirstAll apply 0 ts = ts :=
  foldFirstAll_zero_of fun t _ => foldFirst_zero t

/-- What stays below several terms. -/
theorem payloads_foldFirstAll (ih : ∀ t ∈ ts, ∀ k, ∃ folded,
      (t.foldFirst apply k).postOrder.map payload = folded ++ (t.postOrder.drop k).map payload) (k : Nat) :
    ∃ folded, ((foldFirstAll apply k ts).flatMap postOrder).map payload
      = folded ++ ((ts.flatMap postOrder).drop k).map payload := by
  induction ts generalizing k with
  | nil => exact ⟨[], by rw [foldFirstAll, List.flatMap_nil, List.drop_nil, List.nil_append]⟩
  | cons t ts ihs =>
    rw [foldFirstAll, List.flatMap_cons, List.flatMap_cons, List.map_append]
    rcases Nat.le_total k t.postOrder.length with hle | hge
    · -- the first occurrence that stays is in the first term, and the others stay altogether
      obtain ⟨folded, hhead⟩ := ih t List.mem_cons_self k
      refine ⟨folded, ?_⟩
      rw [hhead, Nat.sub_eq_zero_of_le hle, foldFirstAll_zero, List.drop_append_of_le_length hle,
        List.map_append, List.append_assoc]
    · obtain ⟨folded, htail⟩ := ihs (fun c hc => ih c (List.mem_cons_of_mem t hc)) (k - t.postOrder.length)
      refine ⟨(t.foldFirst apply k).postOrder.map payload ++ folded, ?_⟩
      rw [htail, List.drop_append, List.drop_eq_nil_of_le hge, List.nil_append, List.append_assoc]

/-- **The payloads stay** from the first occurrence on that is not folded, in post-order. -/
theorem payloads_foldFirst (t : Term) (k : Nat) : ∃ folded,
    (t.foldFirst apply k).postOrder.map payload = folded ++ (t.postOrder.drop k).map payload := by
  induction t generalizing k with
  | step t ih =>
    have hsame : ∀ u : Term, u = t → ∃ folded,
        u.postOrder.map payload = folded ++ (t.postOrder.drop k).map payload := by
      rintro u rfl
      refine ⟨(u.postOrder.take k).map payload, ?_⟩
      rw [← List.map_append, List.take_append_drop]
    cases hf : t.payload with
    | var name | const a => exact hsame _ (foldFirst_of_leaf (by rw [hf]; rfl) k)
    | op f =>
      cases t with
      | bare p => exact hsame _ (by rw [foldFirst])
      | linked p ts =>
        obtain rfl : p = .op f := hf
        rcases Nat.lt_or_ge (ts.flatMap postOrder).length k with hlt | hge
        · have hnone : (linked (.op f) ts).postOrder.drop k = [] := by
            refine List.drop_eq_nil_of_le ?_
            rw [length_postOrder_linked]
            exact hlt
          rw [hnone]
          exact ⟨_, (List.append_nil _).symm⟩
        · obtain ⟨folded, hbelow⟩ := @payloads_foldFirstAll apply ts ih k
          have hroot : ∀ us, (linked (.op f) us).postOrder = us.flatMap postOrder ++ [linked (.op f) us] :=
            fun us => postOrder_eq _
          refine ⟨folded, ?_⟩
          rw [foldFirst_of_lt hge, hroot, hroot, List.map_append, hbelow, List.drop_append_of_le_length hge,
            List.map_append, List.append_assoc]
          rfl

/-- What an operator is folded to is the constant that is left of it, if one is. -/
theorem folded?_of_fold_ok (hop : t.payload.isOperator = true) (h : t.fold apply = (u, .ok n)) :
    t.folded? apply = u.payload.value? := by
  have hto := (foldsTo_of_fold h).1
  have hconst := hto.isSome_value?
  rw [hto.varNames_eq] at hconst
  rw [folded?, hop, Bool.true_and, ← hconst]
  cases hv : u.payload.value? with
  | none => rfl
  | some a =>
    have hvalue : (t.fold apply).1.value apply [] = t.value apply [] := value_fold t
    rw [h, value_of_value? hv] at hvalue
    rw [← hvalue]
    rfl

/-- All occurrences below several terms folded. -/
theorem foldFirstAll_of_ok
    (ih : ∀ t ∈ ts, ∀ u n k, t.fold apply = (u, .ok n) → t.postOrder.length ≤ k → t.foldFirst apply k = u)
    (hall : List.Forall₂ (fun t u => ∃ m, t.fold apply = (u, .ok m)) ts us)
    (hk : (ts.flatMap postOrder).length ≤ k) : foldFirstAll apply k ts = us := by
  induction hall generalizing k with
  | nil => rw [foldFirstAll]
  | @cons t u ts us htu _ ihs =>
    obtain ⟨m, hfold⟩ := htu
    rw [List.flatMap_cons, List.length_append] at hk
    have hhead := ih t List.mem_cons_self u m k hfold (by omega)
    rw [foldFirstAll, hhead, ihs (fun c hc => ih c (List.mem_cons_of_mem t hc)) (by omega)]

/-- **All occurrences folded** is what folding to the end comes to. -/
theorem foldFirst_of_fold_ok (h : t.fold apply = (u, .ok n)) (hk : t.postOrder.length ≤ k) :
    t.foldFirst apply k = u := by
  induction t generalizing u n k with
  | step t ih =>
    cases hf : t.payload with
    | var name | const a =>
      have hleaf : t.payload.isOperator = false := by rw [hf]; rfl
      rw [fold_of_leaf hleaf] at h
      cases h
      exact foldFirst_of_leaf hleaf k
    | op f =>
      by_cases hne : t.operands = []
      · rw [fold_of_no_operands hf hne] at h
        cases h
      have hfolded := folded?_of_fold_ok (by rw [hf]; rfl) h
      cases hall : foldAll apply t.operands with
      | mk us r =>
        cases r with
        | error e =>
          rw [fold_of_error hf hne hall] at h
          cases h
        | ok m =>
          rw [fold_of_ok hf hne hall] at h
          have ht := eq_linked hf hne
          generalize t.operands = ts at ht hne hall
          subst ht
          rw [length_postOrder_linked] at hk
          cases hc : constants us with
          | none =>
            rw [collapse_of_none hc] at h
            cases h
            have hus : foldFirstAll apply k ts = us :=
              foldFirstAll_of_ok (fun c hc _ _ _ => ih c hc) (forall_of_foldAll_ok hall)
                (Nat.le_of_succ_le hk)
            rw [foldFirst_of_none hfolded, hus]
          | some args =>
            cases hr : apply f args with
            | error e =>
              rw [collapse_of_error hc hr] at h
              cases h
            | ok a =>
              rw [collapse_of_ok hc hr] at h
              cases h
              exact foldFirst_of_some hfolded hk

/-! ## Folding that stops -/

/-- **Where folding stops**: an occurrence fails, none of those before it in post-order does, and those
    among them without variables have values. -/
structure StopsAt (apply : Operator.Interpretation) (ts before : List Term) (c : Term) (after : List Term)
    (e : Fault) : Prop where
  occurrences : ts = before ++ c :: after
  fails : Fails apply c e
  sound : ∀ d ∈ before, ∀ e', ¬ Fails apply d e'
  value : ∀ d ∈ before, d.varNames = [] → ∃ a, d.value apply [] = .ok a

/-- Occurrences that were folded to their end may stand before. -/
theorem StopsAt.past {before after : List Term} (h : StopsAt apply us before c after e)
    (hts : ∀ d ∈ ts, ∃ n, (d.fold apply).2 = .ok n) :
    StopsAt apply (ts ++ us) (ts ++ before) c after e where
  occurrences := by rw [h.occurrences, List.append_assoc]
  fails := h.fails
  sound := by
    intro d hd
    rcases List.mem_append.mp hd with hd | hd
    · obtain ⟨n, hn⟩ := hts d hd
      exact fun e' => not_fails_of_fold_ok hn
    · exact h.sound d hd
  value := by
    intro d hd hv
    rcases List.mem_append.mp hd with hd | hd
    · obtain ⟨n, hn⟩ := hts d hd
      exact value_of_fold_ok hn hv
    · exact h.value d hd hv

/-- Other occurrences may stand behind. -/
theorem StopsAt.append {before after : List Term} (h : StopsAt apply ts before c after e) (us : List Term) :
    StopsAt apply (ts ++ us) before c (after ++ us) e where
  occurrences := by rw [h.occurrences, List.append_assoc, List.cons_append]
  fails := h.fails
  sound := h.sound
  value := h.value

/-- Folding operands from left to right stops where folding one of them does. -/
theorem stops_of_foldAll_error
    (ih : ∀ t ∈ ts, ∀ u, t.fold apply = (u, .error e) → ∃ before c after,
      StopsAt apply t.postOrder before c after e ∧ u = t.foldFirst apply before.length)
    (h : foldAll apply ts = (us, .error e)) : ∃ before c after,
      StopsAt apply (ts.flatMap postOrder) before c after e ∧ us = foldFirstAll apply before.length ts := by
  induction ts generalizing us with
  | nil => cases h
  | cons t ts ihs =>
    rw [List.flatMap_cons]
    cases hfold : t.fold apply with
    | mk u r =>
      cases r with
      | error e' =>
        rw [foldAll_cons_error hfold] at h
        cases h
        obtain ⟨before, c, after, hstop, hu⟩ := ih t List.mem_cons_self u hfold
        have hlen : before.length ≤ t.postOrder.length := by
          rw [hstop.occurrences, List.length_append]
          omega
        refine ⟨before, c, after ++ ts.flatMap postOrder, hstop.append _, ?_⟩
        rw [foldFirstAll, ← hu, Nat.sub_eq_zero_of_le hlen, foldFirstAll_zero]
      | ok n =>
        rw [foldAll_cons_ok hfold] at h
        cases hall : foldAll apply ts with
        | mk us' r =>
          rw [hall] at h
          cases r with
          | ok m => cases h
          | error e' =>
            cases h
            obtain ⟨before, c, after, hstop, hus⟩ := ihs (fun a ha => ih a (List.mem_cons_of_mem t ha)) hall
            have hn : (t.fold apply).2 = .ok n := by rw [hfold]
            refine ⟨t.postOrder ++ before, c, after, hstop.past fun d hd => fold_ok_of_mem hn hd, ?_⟩
            rw [foldFirstAll, List.length_append, Nat.add_sub_cancel_left, ← hus,
              foldFirst_of_fold_ok hfold (Nat.le_add_right _ _)]

/-- **Folding stops at the first occurrence that fails**, with those before it folded and nothing else
    changed. -/
theorem stops_of_fold_error (h : t.fold apply = (u, .error e)) : ∃ before c after,
    StopsAt apply t.postOrder before c after e ∧ u = t.foldFirst apply before.length := by
  induction t generalizing u with
  | step t ih =>
    cases hf : t.payload with
    | var name | const a =>
      rw [fold_of_leaf (by rw [hf]; rfl)] at h
      cases h
    | op f =>
      by_cases hne : t.operands = []
      · -- an operator without operands is its only occurrence
        rw [fold_of_no_operands hf hne] at h
        cases h
        have hpost : t.postOrder = [] ++ t :: [] := by
          rw [postOrder_eq, hne]
          rfl
        have hnone : ∀ d ∈ ([] : List Term), False := fun d hd => List.not_mem_nil hd
        refine ⟨[], t, [], ⟨hpost, .noOperands hf hne, fun d hd => (hnone d hd).elim,
          fun d hd => (hnone d hd).elim⟩, (foldFirst_zero t).symm⟩
      cases hall : foldAll apply t.operands with
      | mk us r =>
        cases r with
        | error e' =>
          rw [fold_of_error hf hne hall] at h
          cases h
          obtain ⟨before, c, after, hstop, hus⟩ :=
            stops_of_foldAll_error (fun a ha _ => ih a (mem_children_of_mem_operands ha)) hall
          have hlen : before.length ≤ (t.operands.flatMap postOrder).length := by
            rw [hstop.occurrences, List.length_append]
            omega
          refine ⟨before, c, after ++ [t], ?_, ?_⟩
          · rw [postOrder_eq]
            exact hstop.append [t]
          · rw [foldFirst_of_le hf hne hlen, hus]
        | ok m =>
          -- the operands are folded, and the function fails on them
          rw [fold_of_ok hf hne hall] at h
          obtain ⟨args, hargs, hr⟩ := constants_of_collapse_error (congrArg Prod.snd h)
          rw [collapse_of_error hargs hr] at h
          cases h
          have hvalues : t.operands.mapM (value apply []) = .ok args :=
            (mapM_value_of_foldAll_ok hall).trans (mapM_value_of_constants hargs)
          have hdone : ∀ d ∈ t.operands.flatMap postOrder, ∃ n, (d.fold apply).2 = .ok n := by
            intro d hd
            obtain ⟨a, ha, hda⟩ := List.mem_flatMap.mp hd
            obtain ⟨b, -, n, hfold⟩ := Pointwise.exists_right (forall_of_foldAll_ok hall) ha
            exact fold_ok_of_mem (by rw [hfold]) hda
          have hroot : StopsAt apply [t] [] t [] e :=
            ⟨rfl, .raised hf hne hvalues hr, fun d hd => absurd hd List.not_mem_nil,
              fun d hd => absurd hd List.not_mem_nil⟩
          have hstop := hroot.past hdone
          rw [← postOrder_eq, List.append_nil] at hstop
          refine ⟨_, t, [], hstop, ?_⟩
          have hus := foldFirstAll_of_ok (fun a ha _ _ _ => foldFirst_of_fold_ok) (forall_of_foldAll_ok hall)
            (Nat.le_refl _)
          rw [foldFirst_of_le hf hne (Nat.le_refl _), hus]

end Term

end ExprGraph

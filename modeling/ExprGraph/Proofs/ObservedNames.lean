import ExprGraph.Proofs.Activities
import ExprGraph.Proofs.Variables
import ExprGraph.Proofs.VertexRules
/-!
  Observed names suffice.

  A builder puts the name of each variable into its set when the variable is made, long before the variable gets
  into the trees that are published.  When all variables are recorded in one set, and nobody takes a name
  out of it, then the set has the names of all trees that there are; so what a builder gives out evaluates
  under every binding of the names given out with it, without a name that is not bound
  (`Tour.observed_names_suffice`).

    * state      the tour, and one of its name sets;
    * step       an activity that records in the set (`Activity.RecordsIn`);
    * invariant  the name of every variable in the store is in the set (`Tour.Named`).
-/

namespace ExprGraph

/-! ## Names of vertices -/

/-- **The name in a payload is among some names**, if it is one of a variable. -/
def Payload.Named (names : List String) (p : Payload) : Prop := ∀ name, p = .var name → name ∈ names

/-- The name of a vertex is among some names. -/
def Vertex.Named (names : List String) (x : Vertex) : Prop := x.payload.Named names

theorem Payload.Named.deepCopy {names : List String} {p : Payload} (h : p.Named names) (fresh : Nat) :
    (p.deepCopy fresh).Named names := by
  intro name hname
  cases p with
  | op f => cases hname
  | var x => exact h name hname
  | const a => cases hname

/-- **Copying, linking and folding make no new name.** -/
theorem vertexRule_named (names : List String) : VertexRule (Vertex.Named names) where
  shape h hp _ name hname := h name (hp.symm.trans hname)
  copied fresh h := Payload.Named.deepCopy h fresh
  constant _ _ hname := by cases hname
  linked h _ := h

/-- **New vertices may have the names there are**: that all names are among some names is a rule about
    stores. -/
theorem Store.rule_named (apply : Operator.Interpretation) (names : List String) :
    Rule apply (Payload.Named names) (Payload.Named names) (Vertexwise (Vertex.Named names)) :=
  (vertexRule_named names).rule apply (fun _ hp => hp) fun _ hp _ => hp

namespace Store

variable {s : Store} {v : VertexId} {t : Term} {names : List String}

/-- A tree has the names of its vertices only. -/
theorem Unfolds.variableNames_subset (ht : s.Unfolds v t) (hs : s.Vertexwise (Vertex.Named names)) :
    s.variableNames v ⊆ names := by
  intro name hname
  obtain ⟨u, hu, hp⟩ := Term.mem_varNames_iff.mp (ht.mem_variableNames_iff.mp hname)
  obtain ⟨w, -, hw⟩ := Pointwise.exists_left ht.walk_postOrder hu
  obtain ⟨x, hx⟩ := hw.exists_vertex
  exact hs w x hx name ((hw.children hx).1.trans hp)

end Store

/-! ## Evaluating -/

/-- A strategy is found under its own name only, and under no other is there one. -/
theorem Strategy.ofName_cases (strategy : String) :
    (∃ k : Strategy, strategy = k.name) ∨ Strategy.ofName strategy = .error (.unknownStrategy strategy) := by
  unfold ofName
  cases hfind : all.find? fun k => k.name == strategy with
  | none => exact .inr rfl
  | some k =>
    have hname := List.find?_some hfind
    exact .inl ⟨k, (beq_iff_eq.mp hname).symm⟩

/-- **Bindings of all names of a tree leave no name unbound**, whatever strategy is asked for. -/
theorem Session.value_ne_unbound {s : Session} {loose : VertexId → Nat} {h : Handle} {v : VertexId}
    {a : Operator.Interpretation} (ha : ∀ f args name, a f args ≠ .error (.unbound name))
    (hb : s.store.Balanced loose) (hh : s.store.target? h = some v) {b : Bindings}
    (hbound : ∀ x ∈ s.store.variableNames v, (b.lookup x).isSome = true) (strategy x : String) :
    s.value a h strategy b ≠ .error (.unbound x) := by
  obtain ⟨t, ht, -⟩ := hb.termAt? hh
  obtain ⟨y, hy⟩ := ht.exists_vertex
  rcases Strategy.ofName_cases strategy with ⟨k, rfl⟩ | hunknown
  · rw [value_eq a hh ht]
    intro hvalue
    -- the first failure is the first name that is not bound
    have hfirst := Term.firstUnbound?_of_firstFailure? ha ((Term.value_eq_error_iff a b).mp hvalue)
    have hnone := List.find?_some hfirst
    have hsome := hbound x (ht.mem_variableNames_iff.mpr (List.mem_of_find?_eq_some hfirst))
    rw [Option.isNone_iff_eq_none.mp hnone] at hsome
    cases hsome
  · rw [value, evaluateWith, Store.root_of_target? hh hy, hunknown]
    intro hvalue
    cases hvalue

/-! ## Recording -/

/-- **An activity records in a set**: what it makes a variable of is recorded there, by a builder or by the
    caller, and it takes no name out of the set. -/
def Activity.RecordsIn (k : SetId) (t : Tour) : Activity → Prop
  | .event (.perform (.variableLeaf (some _) observed)) => observed = some k ∧ k < t.session.sets.size
  | .event (.perform (.builderVariable i (some _))) =>
    (t.session.builder i).names = k ∧ k < t.session.sets.size
  | .event (.perform (.vertex p)) => ∀ name, p ≠ .var name
  | .event (.perform (.linked p _)) => ∀ name, p ≠ .var name
  | .amend j names => j = k → t.session.names k ⊆ names
  | _ => True

namespace Tour

variable {apply : Operator.Interpretation} {t : Tour} {k : SetId} {e : Event} {a : Activity}

theorem names_subset_perform (apply : Operator.Interpretation) (s : Session) (op : Operation) (k : SetId) :
    s.names k ⊆ (s.perform apply op).2.names k := by
  intro x hx
  rcases Nat.lt_or_ge k s.sets.size with hk | hk
  · exact (Session.mem_names_perform hk op).mpr (.inl hx)
  · rw [Session.names_eq, Array.getElem?_eq_none hk] at hx
    exact absurd hx List.not_mem_nil

theorem names_subset_step (apply : Operator.Interpretation) (t : Tour) (e : Event) (k : SetId) :
    t.session.names k ⊆ (t.step apply e).session.names k := by
  by_cases he : ∃ op, e = .perform op
  · obtain ⟨op, rfl⟩ := he
    exact names_subset_perform apply t.session op k
  · obtain ⟨store, hstore⟩ := exists_session_step apply (fun op heq => he ⟨op, heq⟩) t
    rw [hstore]
    exact fun _ hx => hx

/-- A set loses no name. -/
theorem names_subset_act (apply : Operator.Interpretation) (ha : a.RecordsIn k t) :
    t.session.names k ⊆ (t.act apply a).session.names k := by
  cases a with
  | event e => exact names_subset_step apply t e k
  | build i name =>
    obtain ⟨log, hlog⟩ := act_build_eq apply t i name
    rw [hlog]
    exact names_subset_perform apply t.session (.resolve i name) k
  | amend j names =>
    by_cases hjk : j = k
    · subst hjk
      rcases Nat.lt_or_ge j t.session.sets.size with hj | hj
      · show t.session.names j ⊆ (t.session.amend j names).names j
        rw [Session.names_amend_self hj]
        exact ha rfl
      · rw [Session.names_eq, Array.getElem?_eq_none hj]
        exact List.nil_subset _
    · show t.session.names k ⊆ (t.session.amend j names).names k
      rw [Session.names_amend_of_ne fun heq => hjk heq.symm]
      exact fun _ hx => hx

/-- **The name of every variable in the store is in a set.** -/
def Named (k : SetId) (t : Tour) : Prop := t.store.Vertexwise (Vertex.Named (t.session.names k))

/-- An event that records in a set puts no other names into vertices than those of the set afterwards. -/
theorem puts_of_recordsIn (apply : Operator.Interpretation) (he : (Activity.event e).RecordsIn k t) :
    e.Puts (Payload.Named ((t.step apply e).session.names k))
      (Payload.Named ((t.step apply e).session.names k)) := by
  have hrecorded : ∀ op name, k < t.session.sets.size → op.records t.session = some (k, name) →
      (Payload.var name).Named ((t.session.perform apply op).2.names k) := by
    rintro op name hk hrec x hx
    obtain rfl := Payload.var.inj hx
    exact (Session.mem_names_perform hk op).mpr (.inr hrec)
  cases e with
  | perform op =>
    cases op with
    | constantLeaf v => exact fun name h => by cases h
    | variableLeaf name observed =>
      cases name with
      | none => trivial
      | some name =>
        obtain ⟨rfl, hk⟩ := he
        exact hrecorded _ name hk rfl
    | builderVariable i name =>
      cases name with
      | none => trivial
      | some name =>
        obtain ⟨rfl, hk⟩ := he
        exact hrecorded _ name hk rfl
    | operator f cs => exact fun g name h => by cases h
    | builderOperator i f cs => exact fun g name h => by cases h
    | vertex p => exact fun name h => absurd h (he name)
    | linked p children => exact fun name h => absurd h (he name)
    | _ => trivial
  | _ => trivial

/-- **An activity that records in a set** leaves all variables with names of the set. -/
theorem Named.act (ht : t.Named k) (apply : Operator.Interpretation) (ha : a.RecordsIn k t) :
    (t.act apply a).Named k := by
  have hgrown : t.store.Vertexwise (Vertex.Named ((t.act apply a).session.names k)) :=
    fun v x hx name hname => names_subset_act apply ha (ht v x hx name hname)
  have hrule := Store.rule_named apply ((t.act apply a).session.names k)
  cases a with
  | event e => exact hrule.step (puts_of_recordsIn apply ha) hgrown
  | build i name =>
    obtain ⟨log, hlog⟩ := act_build_eq apply t i name
    rw [hlog] at hgrown hrule ⊢
    exact hrule.step (e := .perform (.resolve i name)) trivial hgrown
  | amend j names => exact hgrown

/-- **All variables have names of the set** after activities that record in it. -/
theorem named_acts {as : List Activity} (has : Along apply (fun t a => a.RecordsIn k t) empty as) :
    (empty.acts apply as).Sane ∧ (empty.acts apply as).Named k := by
  refine acts_induction (motive := fun t => t.Sane ∧ t.Named k) ?_ has ⟨sane_go apply [], ?_⟩
  · rintro t a ha ⟨hs, ht⟩
    exact ⟨hs.act apply a, ht.act apply ha⟩
  · intro v x hx
    cases hx

/-- **A tree that is given out** has names of the set only that are given out with it. -/
theorem Named.given {i : BuilderId} {name : String} {h : Handle} {j : SetId} {s s₁ : Session}
    (hnamed : t.Named (t.session.builder i).names) (hs : t.Sane)
    (hr : Session.Builder.resolve t.session i name = .ok (h, j, s₁)) (hstore : s.store = s₁.store)
    (hsets : s.sets = s₁.sets) :
    s.store.Balanced (fun _ => 0)
      ∧ ∃ v, s.store.target? h = some v ∧ s.store.variableNames v ⊆ s.names j := by
  obtain ⟨kept, v, -, hv, heq⟩ := Session.resolve_eq_ok hr
  cases heq
  obtain ⟨-, x, hx⟩ := Store.vertex?_of_root hv
  have hbal : s.store.Balanced fun _ => 0 := by
    rw [hstore]
    exact hs.balanced.bind hx
  have htarget : s.store.target? t.store.handles.size = some v := by
    rw [hstore]
    show (t.store.bind v).2.target? _ = _
    rw [Store.target?_bind, if_pos rfl]
  have hnames : s.names t.session.sets.size = t.session.names (t.session.builder i).names := by
    rw [Session.names_eq, hsets]
    show ((t.session.sets.push _)[t.session.sets.size]?).getD [] = _
    rw [Array.getElem?_push_size]
    rfl
  refine ⟨hbal, v, htarget, ?_⟩
  rw [hnames]
  obtain ⟨u, hu, -⟩ := hbal.termAt? htarget
  refine hu.variableNames_subset ?_
  rw [hstore]
  -- the rule does not speak of operators, so any interpretation will do
  exact (Store.rule_named Operator.apply _).bind v hnamed

/-- **The names a builder observes suffice.**  After all activities that make no variable without recording
    it in the set of the builder, and take no name out of this set, each live handle has a tree with names
    of the set only.  So when the builder gives out a tree, by resolving it or at the end of a construction,
    the names given out with it are enough: under bindings of them all, evaluating the tree, by any strategy,
    never complains of a name that is not bound, unless an operator does. -/
theorem observed_names_suffice (apply : Operator.Interpretation) {as : List Activity} {i : BuilderId}
    {b : Builder} (has : Along apply (fun t a => a.RecordsIn b.names t) empty as)
    (hb : (empty.acts apply as).session.builders[i]? = some (some b)) :
    (∀ h v, (empty.acts apply as).store.target? h = some v →
        (empty.acts apply as).store.variableNames v ⊆ (empty.acts apply as).session.names b.names)
      ∧ ∀ (name : String) (h : Handle) (j : SetId) (s : Session),
        (Session.Builder.resolve (empty.acts apply as).session i name = .ok (h, j, s)
          ∨ Session.Builder.complete (empty.acts apply as).session i name = .ok (h, j, s)) →
        ∃ v, s.store.target? h = some v ∧ s.store.variableNames v ⊆ s.names j
          ∧ ∀ a : Operator.Interpretation, (∀ f args x, a f args ≠ .error (.unbound x)) →
            ∀ (strategy : String) (bindings : Bindings),
              (∀ x ∈ s.names j, (bindings.lookup x).isSome = true) →
                ∀ x, s.value a h strategy bindings ≠ .error (.unbound x) := by
  obtain ⟨hs, hnamed⟩ := named_acts has
  generalize empty.acts apply as = t at hb hs hnamed ⊢
  have hbuilder : t.session.builder i = b := by
    rw [Session.builder, hb]
    rfl
  refine ⟨?_, ?_⟩
  · intro h v hv
    obtain ⟨u, hu, -⟩ := hs.balanced.termAt? hv
    exact hu.variableNames_subset hnamed
  · intro name h j s hgiven
    -- a finished construction gives out what resolving does
    have hresolved : ∃ s₁, Session.Builder.resolve t.session i name = .ok (h, j, s₁)
        ∧ s.store = s₁.store ∧ s.sets = s₁.sets := by
      rcases hgiven with hr | hr
      · exact ⟨s, hr, rfl, rfl⟩
      · exact Session.complete_eq_ok hr
    obtain ⟨s₁, hr, hstore, hsets⟩ := hresolved
    rw [← hbuilder] at hnamed
    obtain ⟨hbal, v, hv, hsub⟩ := hnamed.given hs hr hstore hsets
    refine ⟨v, hv, hsub, ?_⟩
    intro a ha strategy bindings hbound x
    exact Session.value_ne_unbound ha hbal hv (fun x hx => hbound x (hsub hx)) strategy x

/-- A set that the caller makes, a builder that adopts it, and the sum of two variables, one recorded by the
    caller and one by the builder, published as `sum`. -/
def observedSum : List Operation :=
  [.nameSet [], .builder (some 0) [], .variableLeaf (some "x") (some 0), .builderVariable 0 (some "y"),
    .builderOperator 0 (.named "add") [.tree 0, .tree 1], .define 0 "sum" (.tree 2)]

/-- Nothing is copied, so the sets, the builders and the terms come out on values alone. -/
theorem ledger_observedSum : (empty.acts Operator.apply (observedSum.map .perform)).session.ledger
    = observedSum.foldl (fun l op => (l.perform Operator.apply 0 op).2) Session.empty.ledger := by
  rw [session_acts_perform, Session.ledger_run_eq Operator.apply fun h hmem => by simp [observedSum] at hmem]

/-- Resolving gives the sum out at a new handle, with a copy of the set. -/
theorem resolve_observedSum {loose : VertexId → Nat}
    (hb : (empty.acts Operator.apply (observedSum.map .perform)).store.Balanced loose) :
    ∃ s, Session.Builder.resolve (empty.acts Operator.apply (observedSum.map .perform)).session 0 "sum"
        = .ok (4, 1, s)
      ∧ s.sets = #[["x", "y"], ["x", "y"]] := by
  have hq : ((observedSum.foldl (fun l op => (l.perform Operator.apply 0 op).2) Session.empty.ledger).resolve 0
      "sum").map (fun q => (q.1, q.2.sets)) = .ok (.resolved 4 1, #[["x", "y"], ["x", "y"]]) := rfl
  obtain ⟨⟨reply, l⟩, hl, heq⟩ := exists_of_map_eq_ok hq
  obtain ⟨rfl, hsets⟩ := Prod.mk.inj heq
  rw [← ledger_observedSum] at hl
  obtain ⟨r, hshown, hs⟩ := (Session.resolve_shows hb 0 "sum").exists_of_ok_right hl
  obtain ⟨⟨h, k, s⟩, hr, rfl⟩ := exists_of_map_eq_ok hshown
  obtain ⟨rfl, rfl⟩ := Reply.resolved.inj hs.fst
  exact ⟨s, hr, (congrArg Ledger.sets hs.ledger).trans hsets⟩

/-- The builder gives the sum out with both names, and it evaluates when they are bound. -/
theorem observed_names_suffice_sum :
    Along Operator.apply (fun t a => a.RecordsIn 0 t) empty (observedSum.map .perform)
      ∧ (empty.acts Operator.apply (observedSum.map .perform)).session.builders[0]?
        = some (some ⟨0, Session.builtinRegistry, [("sum", 3)]⟩)
      ∧ ∃ s, Session.Builder.resolve (empty.acts Operator.apply (observedSum.map .perform)).session 0 "sum"
          = .ok (4, 1, s)
        ∧ s.names 1 = ["x", "y"]
        ∧ ∀ strategy x, s.value Operator.apply 4 strategy [("x", .integer 1), ("y", .integer 2)]
          ≠ .error (.unbound x) := by
  have halong : Along Operator.apply (fun t a => a.RecordsIn 0 t) empty (observedSum.map .perform) := by
    refine ⟨trivial, trivial, ⟨rfl, ?_⟩, ⟨rfl, ?_⟩, trivial, trivial, trivial⟩ <;> exact Nat.zero_lt_one
  have hb : (empty.acts Operator.apply (observedSum.map .perform)).session.builders[0]?
      = some (some ⟨0, Session.builtinRegistry, [("sum", 3)]⟩) := by
    show (empty.acts Operator.apply (observedSum.map .perform)).session.ledger.builders[0]? = _
    rw [ledger_observedSum]
    rfl
  obtain ⟨s, hr, hsets⟩ := resolve_observedSum (named_acts halong).1.balanced
  have hnames : s.names 1 = ["x", "y"] := by
    rw [Session.names, hsets]
    rfl
  refine ⟨halong, hb, s, hr, hnames, ?_⟩
  obtain ⟨v, -, -, hvalue⟩ := (observed_names_suffice Operator.apply halong hb).2 "sum" 4 _ s (.inl hr)
  rw [hnames] at hvalue
  intro strategy
  exact hvalue Operator.apply Operator.apply_ne_unbound strategy _ (by decide)

end Tour

end ExprGraph

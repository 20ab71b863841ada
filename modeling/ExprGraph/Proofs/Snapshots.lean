import ExprGraph.Proofs.Publishing
/-!
  A published tree is a snapshot.

  Main statement: after all activities of callers who leave the handles of the builders alone, a builder gives
  out what was last published under a name, as it was then, at a new handle, or complains that nothing was; and
  the names that were given out with a tree stay as they are (`Tour.published_is_snapshot`).

    * state      the tour, and the tree last published under a name (`Tour.lastPublished`);
    * step       an activity that leaves the builders their own (`Activity.Fair`);
    * invariant  what is published is what was last published (`Session.Publishes`); no handle is kept twice,
                 and builders record in sets that are there (`Tour.Orderly`).
-/

namespace ExprGraph

/-! ## What was last published -/

/-- The tree last published under a name, after an activity. -/
def Activity.lastPublished (t : Tour) (i : BuilderId) (name : String) (last : Option Term) :
    Activity → Option Term
  | .event (.perform op) => op.lastPublished t.session i name last
  | _ => last

/-- **The tree that a builder has last published under a name**, as it was then. -/
def Tour.lastPublished (apply : Operator.Interpretation) (i : BuilderId) (name : String) :
    Tour → Option Term → List Activity → Option Term
  | _, last, [] => last
  | t, last, a :: as => lastPublished apply i name (t.act apply a) (a.lastPublished t i name last) as

/-! ## Fair activities -/

/-- An activity leaves the builders their own. -/
def Activity.Fair (t : Tour) : Activity → Prop
  | .event (.perform op) => op.Fair t.session
  | _ => True

/-! ## Tours -/

namespace Tour

variable {apply : Operator.Interpretation} {t t' : Tour} {a : Activity} {i : BuilderId} {name : String}
  {last : Option Term}

/-- **A tour is in order**: it is sane, no handle is kept twice, and builders record in sets that are there. -/
structure Orderly (t : Tour) : Prop where
  sane : t.Sane
  apart : t.session.Apart
  recorders : t.session.Recorders (· < t.session.sets.size)

theorem orderly_empty (apply : Operator.Interpretation) : empty.Orderly where
  sane := sane_go apply []
  apart := Session.apart_empty
  recorders := by
    intro i b hb
    cases hb

/-- Order is kept where the builders are the same and nothing is lost. -/
theorem Orderly.of_builders (ht : t.Orderly) (hs : t'.Sane)
    (hbuilders : t'.session.builders = t.session.builders)
    (hhandles : t.store.handles.size ≤ t'.store.handles.size)
    (hsets : t.session.sets.size ≤ t'.session.sets.size) : t'.Orderly where
  sane := hs
  apart := by
    have hpub := Session.published_congr hbuilders
    refine ⟨?_, ?_, ?_⟩
    · intro i
      rw [hpub]
      exact ht.apart.nodup i
    · intro i j h hi hj
      rw [hpub] at hi hj
      exact ht.apart.builder_eq i j h hi hj
    · intro i h hh
      rw [hpub] at hh
      exact Nat.lt_of_lt_of_le (ht.apart.lt_size i h hh) hhandles
  recorders := by
    intro i b hb
    rw [hbuilders] at hb
    exact Nat.lt_of_lt_of_le (ht.recorders i b hb) hsets

theorem Orderly.perform (ht : t.Orderly) (apply : Operator.Interpretation) {op : Operation}
    (hf : op.Fair t.session) : (t.step apply (.perform op)).Orderly where
  sane := ht.sane.step apply _
  apart := ht.apart.perform ht.sane.balanced op
  recorders := by
    have hsize := Session.size_sets_perform apply t.session op
    have hold : t.session.Recorders (· < (t.session.perform apply op).2.sets.size) :=
      fun i b hb => Nat.lt_of_lt_of_le (ht.recorders i b hb) hsize
    refine hold.perform apply ?_
    rintro adopted operators rfl
    cases adopted with
    | none =>
      show t.session.sets.size < (t.session.sets.push [].eraseDups).size
      rw [Array.size_push]
      exact Nat.lt_succ_self _
    | some k => exact Nat.lt_of_lt_of_le hf hsize

/-- **Every fair activity keeps a tour in order.** -/
theorem Orderly.act (ht : t.Orderly) (apply : Operator.Interpretation) (hf : a.Fair t) :
    (t.act apply a).Orderly := by
  have hs := ht.sane.act apply a
  cases a with
  | event e =>
    by_cases he : ∃ op, e = .perform op
    · obtain ⟨op, rfl⟩ := he
      exact ht.perform apply hf
    · have he' : ∀ op, e ≠ .perform op := fun op heq => he ⟨op, heq⟩
      obtain ⟨store, hstore⟩ := exists_session_step apply he' t
      have hsame : (t.step apply e).session.builders = t.session.builders
          ∧ (t.step apply e).session.sets = t.session.sets := by
        rw [hstore]
        exact ⟨rfl, rfl⟩
      refine ht.of_builders hs hsame.1 (ht.sane.walking apply he').1 (Nat.le_of_eq ?_)
      exact congrArg Array.size hsame.2.symm
  | build i name =>
    obtain ⟨log, hlog⟩ := act_build_eq apply t i name
    have hresolved : (t.step apply (.perform (.resolve i name))).Orderly := ht.perform apply trivial
    rw [hlog] at hs ⊢
    exact hresolved.of_builders hs rfl (Nat.le_refl _) (Nat.le_refl _)
  | amend k names =>
    refine ht.of_builders hs rfl (Nat.le_refl _) (Nat.le_of_eq ?_)
    exact Array.size_setIfInBounds.symm

/-- **What is published after a fair activity.** -/
theorem Orderly.publishes_act (ht : t.Orderly) (hp : t.session.Publishes i name last)
    (apply : Operator.Interpretation) (hf : a.Fair t) :
    (t.act apply a).session.Publishes i name (a.lastPublished t i name last) := by
  cases a with
  | event e =>
    by_cases he : ∃ op, e = .perform op
    · obtain ⟨op, rfl⟩ := he
      exact hp.perform ht.sane.balanced ht.apart apply hf
    · have he' : ∀ op, e ≠ .perform op := fun op heq => he ⟨op, heq⟩
      have hlast : (Activity.event e).lastPublished t i name last = last := by
        cases e with
        | perform op => exact absurd rfl (he' op)
        | _ => rfl
      obtain ⟨store, hstore⟩ := exists_session_step apply he' t
      have hbuilders : (t.step apply e).session.builders = t.session.builders := by rw [hstore]
      rw [hlast]
      refine hp.congr (congrArg (Table.find? · name) (Session.scope_congr hbuilders i)) ?_
      intro g hg
      have hlt : g < t.store.handles.size := ht.apart.lt_size i g (Session.mem_published_of_find? hg)
      exact (ht.sane.walking apply he').2 g hlt
  | build j other =>
    obtain ⟨log, hlog⟩ := act_build_eq apply t j other
    have hresolved : (t.session.perform apply (.resolve j other)).2.Publishes i name last :=
      hp.perform ht.sane.balanced ht.apart apply trivial
    rw [hlog]
    exact hresolved
  | amend k names =>
    have hbuilders : (t.session.amend k names).builders = t.session.builders := rfl
    exact hp.congr (congrArg (Table.find? · name) (Session.scope_congr hbuilders i)) fun _ _ => rfl

/-- **What is published after a run of fair activities**, which leaves a tour in order. -/
theorem Orderly.publishes_acts {as : List Activity} (has : Along apply (fun t a => a.Fair t) t as)
    (ht : t.Orderly) (hp : t.session.Publishes i name last) :
    (t.acts apply as).Orderly
      ∧ (t.acts apply as).session.Publishes i name (lastPublished apply i name t last as) := by
  induction as generalizing t last with
  | nil => exact ⟨ht, hp⟩
  | cons a as ih => exact ih has.2 (ht.act apply has.1) (ht.publishes_act hp apply has.1)

end Tour

/-! ## Sets of a caller's own -/

/-- The activity has to do with a set: the caller has a name recorded in it, gives it to a builder or gives it
    other names. -/
def Activity.Uses (k : SetId) : Activity → Prop
  | .event (.perform (.variableLeaf _ observed)) => observed = some k
  | .event (.perform (.builder adopted _)) => adopted = some k
  | .amend j _ => j = k
  | _ => False

namespace Tour

variable {apply : Operator.Interpretation} {t t' : Tour} {a : Activity} {i : BuilderId} {name : String}
  {k : SetId} {names : List String}

/-- **A set has certain names, and no builder records in it.** -/
structure Aloof (k : SetId) (names : List String) (t : Tour) : Prop where
  lt_size : k < t.session.sets.size
  recorders : t.session.Recorders (· ≠ k)
  mem_names : ∀ x, x ∈ t.session.names k ↔ x ∈ names

theorem Aloof.congr (ht : t.Aloof k names) (hsets : t'.session.sets = t.session.sets)
    (hbuilders : t'.session.builders = t.session.builders) : t'.Aloof k names where
  lt_size := by
    rw [hsets]
    exact ht.lt_size
  recorders := by
    intro i b hb
    rw [hbuilders] at hb
    exact ht.recorders i b hb
  mem_names := by
    have hnames : t'.session.names k = t.session.names k := by
      rw [Session.names_eq, hsets, Session.names_eq]
    rw [hnames]
    exact ht.mem_names

theorem Aloof.perform (ht : t.Aloof k names) (apply : Operator.Interpretation) {op : Operation}
    (hu : ¬ (Activity.event (.perform op)).Uses k) : (t.step apply (.perform op)).Aloof k names where
  lt_size := Nat.lt_of_lt_of_le ht.lt_size (Session.size_sets_perform apply t.session op)
  recorders := by
    refine ht.recorders.perform apply ?_
    rintro adopted operators rfl
    cases adopted with
    | none => exact Nat.ne_of_gt ht.lt_size
    | some j => exact fun heq => hu (congrArg some heq)
  mem_names := by
    intro x
    have hnot : op.records t.session ≠ some (k, x) := by
      intro hrec
      cases op with
      | variableLeaf name observed =>
        cases name with
        | none => cases hrec
        | some name =>
          cases observed with
          | none => cases hrec
          | some j =>
            obtain ⟨rfl, -⟩ := Prod.mk.inj (Option.some.inj hrec)
            exact hu rfl
      | builderVariable i name =>
        cases name with
        | none => cases hrec
        | some name =>
          obtain ⟨hk, -⟩ := Prod.mk.inj (Option.some.inj hrec)
          -- a builder that is not there would record in a set that is not there
          unfold Session.builder at hk
          cases hb : t.session.builders[i]?.join with
          | none =>
            rw [hb] at hk
            exact Nat.ne_of_gt ht.lt_size hk
          | some b =>
            rw [hb] at hk
            exact ht.recorders i b hb hk
      | _ => cases hrec
    show x ∈ (t.session.perform apply op).2.names k ↔ _
    rw [Session.mem_names_perform ht.lt_size, ← ht.mem_names x]
    exact or_iff_left hnot

/-- **A set stays as it is** while its caller does nothing with it, whatever the builders record. -/
theorem Aloof.act (ht : t.Aloof k names) (apply : Operator.Interpretation) (hu : ¬ a.Uses k) :
    (t.act apply a).Aloof k names := by
  cases a with
  | event e =>
    by_cases he : ∃ op, e = .perform op
    · obtain ⟨op, rfl⟩ := he
      exact ht.perform apply hu
    · obtain ⟨store, hstore⟩ := exists_session_step apply (fun op heq => he ⟨op, heq⟩) t
      have hsets : (t.step apply e).session.sets = t.session.sets := by rw [hstore]
      have hbuilders : (t.step apply e).session.builders = t.session.builders := by rw [hstore]
      exact ht.congr hsets hbuilders
  | build i name =>
    obtain ⟨log, hlog⟩ := act_build_eq apply t i name
    have hresolved : (t.step apply (.perform (.resolve i name))).Aloof k names := ht.perform apply id
    rw [hlog]
    exact hresolved.congr rfl rfl
  | amend j names =>
    refine ⟨?_, ht.recorders, ?_⟩
    · show k < (t.session.sets.setIfInBounds j names).size
      rw [Array.size_setIfInBounds]
      exact ht.lt_size
    · show ∀ x, x ∈ (t.session.amend j names).names k ↔ _
      rw [Session.names_amend_of_ne fun heq => hu heq.symm]
      exact ht.mem_names

theorem Aloof.acts {as : List Activity} (ht : t.Aloof k names) (apply : Operator.Interpretation)
    (has : ∀ a ∈ as, ¬ a.Uses k) : (t.acts apply as).Aloof k names := by
  induction as generalizing t with
  | nil => exact ht
  | cons a as ih =>
    exact ih (ht.act apply (has a List.mem_cons_self)) fun b hb => has b (List.mem_cons_of_mem a hb)

/-- A set that is new is its caller's own. -/
theorem Orderly.aloof_push (ht : t.Orderly) {s : Session} (hsets : s.sets = t.session.sets.push names)
    (hbuilders : s.builders = t.session.builders) (walks : List Cursor) :
    Aloof t.session.sets.size names ⟨s, walks⟩ where
  lt_size := by
    rw [hsets, Array.size_push]
    exact Nat.lt_succ_self _
  recorders := by
    intro i b hb
    rw [hbuilders] at hb
    exact Nat.ne_of_lt (ht.recorders i b hb)
  mem_names := by
    intro x
    rw [Session.names_eq, hsets, Array.getElem?_push_size]
    rfl

/-- **A published tree is a snapshot.**  After all activities that leave the builders their own, a builder that
    has published something under a name gives it out, as it was when it was last published there, at a new
    handle; no other handle and no builder notices.  The names given out with it are a new set, with the names
    that the builder has observed; it keeps them, whatever goes on that has not to do with this very set, and
    what its owner does with it is not seen in any other.  Where nothing was published the builder complains, and
    nothing changes. -/
theorem published_is_snapshot (apply : Operator.Interpretation) {as : List Activity} {t : Tour}
    (has : Along apply (fun t a => a.Fair t) empty as) (ht : empty.acts apply as = t) (i : BuilderId)
    (name : String) :
    (∀ u, lastPublished apply i name empty none as = some u → ∃ s,
        Session.Builder.resolve t.session i name = .ok (t.store.handles.size, t.session.sets.size, s)
          ∧ s.store.termAt? t.store.handles.size = some u
          ∧ (∀ g, g ≠ t.store.handles.size → s.store.termAt? g = t.store.termAt? g)
          ∧ s.sets = t.session.sets.push (t.session.names (t.session.builder i).names)
          ∧ s.builders = t.session.builders
          ∧ (∀ more : List Activity, (∀ a ∈ more, ¬ a.Uses t.session.sets.size) → ∀ x,
            x ∈ (acts apply ⟨s, t.walks⟩ more).session.names t.session.sets.size
              ↔ x ∈ t.session.names (t.session.builder i).names)
          ∧ ∀ k, k ≠ t.session.sets.size → ∀ names,
            (s.amend t.session.sets.size names).names k = t.session.names k)
      ∧ (lastPublished apply i name empty none as = none →
        Session.Builder.resolve t.session i name = .error (.undefinedTree name)
          ∧ t.session.perform apply (.resolve i name) = (.error (.undefinedTree name), t.session)) := by
  have hnone : empty.session.Publishes i name none := rfl
  obtain ⟨ho, hp⟩ := Orderly.publishes_acts has (orderly_empty apply) hnone
  rw [ht] at ho hp
  refine ⟨?_, ?_⟩
  · intro u hu
    rw [hu] at hp
    obtain ⟨store, hresolve, hnew, hold⟩ := hp.resolve ho.sane.balanced
    refine ⟨_, hresolve, hnew, hold, rfl, rfl, ?_, ?_⟩
    · intro more hmore
      have haloof := ho.aloof_push (s := ({ t.session with store }.copySet (t.session.builder i).names).2)
        rfl rfl t.walks
      exact (haloof.acts apply hmore).mem_names
    · intro k hk names
      rw [Session.names_amend_of_ne hk, Session.names_eq]
      show ((t.session.sets.push _)[k]?).getD [] = _
      rw [Array.getElem?_push, if_neg hk, Session.names_eq]
  · intro hlast
    rw [hlast] at hp
    have hfail := hp.resolve_none
    refine ⟨hfail, ?_⟩
    show settle t.session ((Session.Builder.resolve t.session i name).map _) = _
    rw [hfail]
    rfl

/-- **A name under which a builder never published a tree** has nothing last published. -/
theorem lastPublished_of_not_mem {as : List Activity}
    (hnot : ∀ h, .event (.perform (.define i name (.tree h))) ∉ as) :
    lastPublished apply i name t none as = none := by
  induction as generalizing t with
  | nil => rfl
  | cons a as ih =>
    have hone : a.lastPublished t i name none = none := by
      cases a with
      | event e =>
        cases e with
        | perform op =>
          by_cases hdis : op = .dismiss i
          · subst hdis
            exact if_pos rfl
          · refine Session.lastPublished_eq ?_ hdis
            rintro h rfl
            exact hnot h List.mem_cons_self
        | _ => rfl
      | _ => rfl
    rw [lastPublished, hone]
    exact ih fun h hmem => hnot h (List.mem_cons_of_mem a hmem)

/-- A sum published as `sum` by its builder, and linked to a single operand afterwards. -/
def relinkedSum : List Operation :=
  [.builder none [], .builderVariable 0 (some "x"), .builderOperator 0 (.named "add") [.tree 0, .tree 0],
    .define 0 "sum" (.tree 1), .link 1 [.tree 0]]

/-- The sum as it was published. -/
def sumTerm : Term := .linked (.op ⟨.add, "add", none, some "+", some .add⟩) [.bare (.var "x"), .bare (.var "x")]

/-- Nothing is copied, so the builders and the terms come out on values alone. -/
theorem ledger_relinkedSum (n : Nat) : (Session.run Operator.apply (relinkedSum.take n)).ledger
    = (relinkedSum.take n).foldl (fun l op => (l.perform Operator.apply 0 op).2) Session.empty.ledger := by
  refine Session.ledger_run_eq Operator.apply fun h hmem => ?_
  simpa [relinkedSum] using List.mem_of_mem_take hmem

theorem lastPublished_relinkedSum :
    lastPublished Operator.apply 0 "sum" empty none (relinkedSum.map .perform) = some sumTerm := by
  have hledger := ledger_relinkedSum 3
  have hlive : (Session.run Operator.apply (relinkedSum.take 3)).builders[0]?.join.isSome = true := rfl
  have hterm : (Session.run Operator.apply (relinkedSum.take 3)).store.termAt? 1 = some sumTerm := by
    show (Session.run Operator.apply (relinkedSum.take 3)).ledger.values.term? 1 = _
    rw [hledger]
    rfl
  -- linking does not count, so the term is the one of handle 1 when it was published
  show (Operation.define 0 "sum" (.tree 1)).lastPublished
    (Session.run Operator.apply (relinkedSum.take 3)) 0 "sum" none = some sumTerm
  rw [Session.lastPublished_define, hlive, if_pos rfl, hterm]
  rfl

/-- The builder gives out the sum as it was published, and nothing under another name. -/
theorem published_is_snapshot_relinkedSum :
    Along Operator.apply (fun t a => a.Fair t) empty (relinkedSum.map .perform)
      ∧ (∃ k s, Session.Builder.resolve
            (empty.acts Operator.apply (relinkedSum.map .perform)).session 0 "sum"
          = .ok ((empty.acts Operator.apply (relinkedSum.map .perform)).store.handles.size, k, s)
        ∧ s.store.termAt? (empty.acts Operator.apply (relinkedSum.map .perform)).store.handles.size
          = some sumTerm)
      ∧ Session.Builder.resolve (empty.acts Operator.apply (relinkedSum.map .perform)).session 0 "difference"
        = .error (.undefinedTree "difference") := by
  have hfair : Along Operator.apply (fun t a => a.Fair t) empty (relinkedSum.map .perform) := by
    have hbuilder : (Session.run Operator.apply (relinkedSum.take 4)).builders
        = #[some ⟨0, Session.builtinRegistry, [("sum", 2)]⟩] := by
      show (Session.run Operator.apply (relinkedSum.take 4)).ledger.builders = _
      rw [ledger_relinkedSum 4]
      rfl
    refine ⟨trivial, trivial, trivial, trivial, ?_, trivial⟩
    show 1 ∉ (Session.run Operator.apply (relinkedSum.take 4)).kept
    simp [Session.kept, Session.published_eq, hbuilder]
  have hnot : lastPublished Operator.apply 0 "difference" empty none (relinkedSum.map .perform) = none := by
    refine lastPublished_of_not_mem ?_
    intro h hmem
    simp [relinkedSum, Activity.perform] at hmem
  obtain ⟨s, hr, hterm, -⟩ :=
    (published_is_snapshot Operator.apply hfair rfl 0 "sum").1 sumTerm lastPublished_relinkedSum
  have hnone := (published_is_snapshot Operator.apply hfair rfl 0 "difference").2 hnot
  exact ⟨hfair, ⟨_, s, hr, hterm⟩, hnone.1⟩

end Tour

end ExprGraph

import ExprGraph.Proofs.Framing
/-!
  All that goes on in a session.

  Beside the events of a tour, constructions come to their end, and the callers do what they like with the name
  sets they share with builders.  Each of these is an activity (`Activity`), and what is true of a run of
  activities may depend on a condition that each of them meets when its turn comes (`Tour.Along`).

  What operations do to name sets and to builders is said here once: a set gets the names that are recorded in
  it and no others (`Session.mem_names_perform`), and a builder publishes, has an operator registered, is begun
  or is given up (`Session.turns_perform`).

    * state      the tour;
    * step       an activity (`Tour.act`);
    * invariant  the tour stays sane (`Tour.Sane.act`).
-/

namespace ExprGraph

namespace Session

/-! ## Beside the operations -/

/-- A set gets other names: a caller who shares it may do with it what he likes. -/
def amend (s : Session) (k : SetId) (names : List String) : Session :=
  { s with sets := s.sets.setIfInBounds k names }

/-- **The end of a construction**: the tree it has published under a name is given out. -/
def build (s : Session) (i : BuilderId) (name : String) : Except Fault Reply × Session :=
  settle s ((Builder.complete s i name).map fun (h, k, s) => (.resolved h k, s))

/-- The end of a construction resolves what was published, and beyond that only writes to the log. -/
theorem build_eq (apply : Operator.Interpretation) (s : Session) (i : BuilderId) (name : String) :
    ∃ log, s.build i name = ((s.perform apply (.resolve i name)).1,
      { (s.perform apply (.resolve i name)).2 with log }) := by
  have hresolve : s.perform apply (.resolve i name)
      = settle s ((Builder.resolve s i name).map fun (h, k, s) => (.resolved h k, s)) := rfl
  rw [hresolve, build, Builder.complete]
  cases Builder.resolve s i name with
  | error e => exact ⟨s.log, rfl⟩
  | ok r => exact ⟨_, rfl⟩

/-- **What resolving comes to**: a new handle for the vertex of the one that is kept, and a new set with the
    names of the builder. -/
theorem resolve_eq_ok {s : Session} {i : BuilderId} {name : String} {r : Handle × SetId × Session}
    (hr : Builder.resolve s i name = .ok r) : ∃ kept v, (s.builder i).scope.find? name = some kept
      ∧ s.store.root kept = .ok v
      ∧ r = (s.store.handles.size, { s with store := (s.store.bind v).2 }.copySet (s.builder i).names) := by
  unfold Builder.resolve at hr
  cases hk : (s.builder i).scope.find? name with
  | none =>
    simp only [hk] at hr
    cases hr
  | some kept =>
    simp only [hk] at hr
    obtain ⟨q, hq, hr⟩ := exists_of_bind_eq_ok hr
    obtain ⟨v, hv, rfl⟩ := exists_of_map_eq_ok hq
    exact ⟨kept, v, rfl, hv, (Except.ok.inj hr).symm⟩

theorem complete_eq_ok {s s' : Session} {i : BuilderId} {name : String} {h : Handle} {k : SetId}
    (hr : Builder.complete s i name = .ok (h, k, s')) :
    ∃ s₁, Builder.resolve s i name = .ok (h, k, s₁) ∧ s'.store = s₁.store ∧ s'.sets = s₁.sets := by
  obtain ⟨⟨h₁, k₁, s₁⟩, hs₁, hr⟩ := exists_of_bind_eq_ok hr
  cases hr
  exact ⟨s₁, hs₁, rfl, rfl⟩

variable {s : Session} {j k : SetId} {x name : String} {names : List String}

/-! ## Name sets -/

theorem names_eq (s : Session) (k : SetId) : s.names k = (s.sets[k]?).getD [] :=
  Array.getD_eq_getD_getElem?

theorem names_amend_self (hk : k < s.sets.size) : (s.amend k names).names k = names := by
  rw [names_eq]
  show ((s.sets.setIfInBounds k names)[k]?).getD [] = names
  rw [Array.getElem?_setIfInBounds_self_of_lt hk]
  rfl

theorem names_amend_of_ne (hne : k ≠ j) : (s.amend j names).names k = s.names k := by
  rw [names_eq, names_eq]
  show ((s.sets.setIfInBounds j names)[k]?).getD [] = _
  rw [Array.getElem?_setIfInBounds_ne hne.symm]

/-- **A name put into a set** is there afterwards, and nothing else is new. -/
theorem mem_names_observe (hk : k < s.sets.size) :
    x ∈ (s.observe j name).names k ↔ x ∈ s.names k ∨ (j, name) = (k, x) := by
  rw [names_eq, names_eq]
  show x ∈ ((s.sets.modify j _)[k]?).getD [] ↔ _
  rw [Array.getElem?_modify, Array.getElem?_eq_getElem hk]
  by_cases hjk : j = k
  · subst hjk
    rw [if_pos rfl]
    show x ∈ (if name ∈ s.sets[j] then s.sets[j] else s.sets[j] ++ [name]) ↔ x ∈ s.sets[j] ∨ _
    split
    · next hmem =>
      refine ⟨.inl, ?_⟩
      rintro (hx | hx)
      · exact hx
      · obtain ⟨-, rfl⟩ := Prod.mk.inj hx
        exact hmem
    · simp [eq_comm]
  · rw [if_neg hjk]
    simp [hjk]

end Session

/-- **The name that an operation records, and the set it records it in.** -/
def Operation.records (s : Session) : Operation → Option (SetId × String)
  | .variableLeaf (some name) (some k) => some (k, name)
  | .builderVariable i (some name) => some ((s.builder i).names, name)
  | _ => none

/-- **The operators that an operation puts into a registry.** -/
def Operation.Registers : Operation → Operator → Prop
  | .register _ f _, g => f.wrap = .ok g
  | .builder _ operators, g => g ∈ Operator.builtins ∨ g ∈ operators.map Prod.snd
  | _, _ => False

namespace Session

variable {s : Session} {apply : Operator.Interpretation} {j k : SetId} {x : String}

/-- The session with the name recorded that an operation records. -/
def recording (s : Session) (op : Operation) : Session :=
  match op.records s with
  | some (k, name) => s.observe k name
  | none => s

/-- New sets come after the old ones. -/
def SetsFrom (s s' : Session) : Prop := ∃ added, s'.sets = s.sets ++ added

theorem setsFrom_of_sets {s s' : Session} (h : s'.sets = s.sets) : SetsFrom s s' :=
  ⟨#[], by rw [h, Array.append_empty]⟩

theorem sets_makeOperator {f : OperatorLike} {cs : List TreeLike} {r : Handle × Session}
    (hr : s.makeOperator f cs = .ok r) : r.2.sets = s.sets := by
  unfold makeOperator at hr
  obtain ⟨f', -, hr⟩ := exists_of_bind_eq_ok hr
  obtain ⟨c, -, hr⟩ := exists_of_bind_eq_ok hr
  obtain rfl := Except.ok.inj hr
  rfl

theorem sets_builderOperator {i : BuilderId} {f : OperatorLike} {cs : List TreeLike} {r : Handle × Session}
    (hr : Builder.makeOperator s i f cs = .ok r) : r.2.sets = s.sets := by
  unfold Builder.makeOperator at hr
  cases f with
  | named name =>
    cases hf : (s.builder i).registry.find? name with
    | none =>
      simp only [hf] at hr
      cases hr
    | some f =>
      simp only [hf] at hr
      exact sets_makeOperator hr
  | operator f => exact sets_makeOperator hr
  | function f => exact sets_makeOperator hr
  | other kind => exact sets_makeOperator hr

theorem sets_define {i : BuilderId} {name : String} {t : TreeLike} {s' : Session}
    (hr : Builder.define s i name t = .ok s') : s'.sets = s.sets := by
  cases t with
  | other kind => cases hr
  | tree h =>
    obtain ⟨kept, -, hr⟩ := exists_of_bind_eq_ok hr
    obtain rfl := Except.ok.inj hr
    rfl

theorem setsFrom_resolve {i : BuilderId} {name : String} {r : Handle × SetId × Session}
    (hr : Builder.resolve s i name = .ok r) : SetsFrom s r.2.2 := by
  obtain ⟨kept, v, -, -, rfl⟩ := resolve_eq_ok hr
  exact ⟨#[s.names (s.builder i).names], rfl⟩

theorem sets_register {i : BuilderId} {f : OperatorLike} {name : Option String} {r : Operator × Session}
    (hr : Builder.register s i f name = .ok r) : r.2.sets = s.sets := by
  unfold Builder.register at hr
  obtain ⟨f', -, hr⟩ := exists_of_bind_eq_ok hr
  obtain rfl := Except.ok.inj hr
  rfl

theorem sets_foldWith (apply : Operator.Interpretation) (s : Session) (h : Handle) (summary : Bool) :
    (s.foldWith apply h summary).2.sets = s.sets := by
  simp only [foldWith]
  split
  · split <;> rfl
  · rfl

/-- **What an operation does to the name sets**: it records a name, or adds a set. -/
theorem setsFrom_perform (apply : Operator.Interpretation) (s : Session) (op : Operation) :
    SetsFrom (s.recording op) (s.perform apply op).2 := by
  have hsettle : ∀ {α : Type} {r : Except Fault α} {f : α → Reply × Session},
      (∀ a, r = .ok a → (f a).2.sets = s.sets) → SetsFrom s (settle s (r.map f)).2 :=
    fun hf => settle_induction (motive := SetsFrom s) (setsFrom_of_sets rfl)
      fun a ha => setsFrom_of_sets (hf a ha)
  cases op with
  | constantLeaf v => exact setsFrom_of_sets rfl
  | variableLeaf name observed =>
    cases name with
    | none => exact setsFrom_of_sets rfl
    | some name => cases observed <;> exact setsFrom_of_sets rfl
  | operator f cs => exact hsettle fun r hr => sets_makeOperator hr
  | vertex p => exact setsFrom_of_sets rfl
  | linked p children => exact hsettle fun _ _ => rfl
  | share h => exact hsettle fun _ _ => rfl
  | children h => exact hsettle fun _ _ => rfl
  | occurrences h => exact hsettle fun _ _ => rfl
  | clone h => exact hsettle fun _ _ => rfl
  | link h cs =>
    refine hsettle fun s' hs' => ?_
    obtain ⟨c, -, rfl⟩ := exists_of_map_eq_ok hs'
    rfl
  | fold h summary => exact setsFrom_of_sets (sets_foldWith apply s h summary)
  | nameSet names => exact ⟨#[names.eraseDups], rfl⟩
  | builder adopted operators =>
    cases adopted with
    | none => exact ⟨#[[]], rfl⟩
    | some k => exact setsFrom_of_sets rfl
  | builderVariable i name => cases name <;> exact setsFrom_of_sets rfl
  | builderOperator i f cs => exact hsettle fun r hr => sets_builderOperator hr
  | register i f name =>
    exact settle_induction (motive := SetsFrom s) (setsFrom_of_sets rfl)
      fun r hr => setsFrom_of_sets (sets_register hr)
  | define i name t =>
    exact settle_induction (motive := SetsFrom s) (setsFrom_of_sets rfl)
      fun s' hs' => setsFrom_of_sets (sets_define hs')
  | resolve i name =>
    exact settle_induction (motive := SetsFrom s) (setsFrom_of_sets rfl) fun r hr => setsFrom_resolve hr
  | dismiss i => exact setsFrom_of_sets rfl
  | drop h => exact setsFrom_of_sets rfl

theorem size_sets_recording (s : Session) (op : Operation) : (s.recording op).sets.size = s.sets.size := by
  unfold recording
  split
  · exact Array.size_modify
  · rfl

/-- No set goes. -/
theorem size_sets_perform (apply : Operator.Interpretation) (s : Session) (op : Operation) :
    s.sets.size ≤ (s.perform apply op).2.sets.size := by
  obtain ⟨added, hadded⟩ := setsFrom_perform apply s op
  rw [hadded, Array.size_append, size_sets_recording]
  exact Nat.le_add_right _ _

/-- **A set gets the name that is recorded in it**, and no other. -/
theorem mem_names_perform (hk : k < s.sets.size) (op : Operation) :
    x ∈ (s.perform apply op).2.names k ↔ x ∈ s.names k ∨ op.records s = some (k, x) := by
  obtain ⟨added, hadded⟩ := setsFrom_perform apply s op
  have hold : (s.perform apply op).2.names k = (s.recording op).names k := by
    rw [names_eq, names_eq, hadded, Array.getElem?_append_left]
    rw [size_sets_recording]
    exact hk
  rw [hold]
  unfold recording
  cases hrec : op.records s with
  | none => simp
  | some r =>
    obtain ⟨j, name⟩ := r
    rw [Option.some.injEq]
    exact mem_names_observe hk

/-! ## Builders -/

/-- **What an operation makes of a builder**, if it is there and stays.  Its registry gets the operators that the
    operation puts there. -/
inductive Turns (s : Session) (op : Operation) (i : BuilderId) : Option Builder → Option Builder → Prop where
  | same (b : Option Builder) : Turns s op i b b
  /-- an operator is registered -/
  | registered (b : Builder) (registry : Table Operator)
      (hreg : ∀ e ∈ registry, e ∈ b.registry ∨ op.Registers e.2) : Turns s op i (some b) (some { b with registry })
  /-- a tree is published, under a new handle -/
  | published {name : String} {h : Handle} (b : Builder) (hop : op = .define i name (.tree h)) :
      Turns s op i (some b) (some { b with scope := b.scope.put name s.store.handles.size })
  /-- the builder is new, with the set it adopts or one of its own -/
  | begun {adopted : Option SetId} {operators : Table Operator} (registry : Table Operator)
      (hop : op = .builder adopted operators) (hi : i = s.builders.size)
      (hreg : ∀ e ∈ registry, op.Registers e.2) :
      Turns s op i none (some ⟨adopted.getD s.sets.size, registry, []⟩)
  | dismissed (b : Option Builder) (hop : op = .dismiss i) : Turns s op i b none

theorem turns_of_builders {s s' : Session} {op : Operation} (h : s'.builders = s.builders) (i : BuilderId) :
    Turns s op i (s.builders[i]?.join) (s'.builders[i]?.join) := by
  rw [h]
  exact .same _

/-- A builder that is changed is that builder, and it is there. -/
theorem turns_modifyBuilder {s s' : Session} {op : Operation} {i : BuilderId} {f : Builder → Builder}
    (h : s'.builders = s.builders.modify i (Option.map f))
    (hf : ∀ b, Turns s op i (some b) (some (f b))) (j : BuilderId) :
    Turns s op j (s.builders[j]?.join) (s'.builders[j]?.join) := by
  rw [h, Array.getElem?_modify]
  by_cases hij : i = j
  · subst hij
    rw [if_pos rfl]
    cases s.builders[i]? with
    | none => exact .same _
    | some b =>
      cases b with
      | none => exact .same _
      | some b => exact hf b
  · rw [if_neg hij]
    exact .same _

/-- A new registry has built-in and given operators. -/
theorem mem_registry {operators t : Table Operator} {e : String × Operator}
    (he : e ∈ operators.foldl (fun t (name, f) => t.put name f) t) : e ∈ t ∨ e ∈ operators := by
  induction operators generalizing t with
  | nil => exact .inl he
  | cons o operators ih =>
    rcases ih he with hput | hlater
    · rcases t.mem_put hput with rfl | ht
      · exact .inr List.mem_cons_self
      · exact .inl ht
    · exact .inr (List.mem_cons_of_mem _ hlater)

/-- A new builder comes after the old ones. -/
theorem turns_makeBuilder (s : Session) (adopted : Option SetId) (operators : Table Operator) (i : BuilderId) :
    Turns s (.builder adopted operators) i (s.builders[i]?.join)
      ((s.makeBuilder adopted operators).2.builders[i]?.join) := by
  have hpush : (s.makeBuilder adopted operators).2.builders = s.builders.push (some
      ⟨adopted.getD s.sets.size, operators.foldl (fun t (name, f) => t.put name f) builtinRegistry, []⟩) := by
    cases adopted <;> rfl
  rw [hpush, Array.getElem?_push]
  by_cases hi : i = s.builders.size
  · rw [if_pos hi, hi, Array.getElem?_eq_none (Nat.le_refl _)]
    refine .begun _ rfl rfl fun e he => (mem_registry he).imp ?_ fun hmem => List.mem_map_of_mem hmem
    intro hbuiltin
    obtain ⟨f, hf, rfl⟩ := List.mem_map.mp hbuiltin
    exact hf
  · rw [if_neg hi]
    exact .same _

/-- **What every operation makes of every builder.** -/
theorem turns_perform (apply : Operator.Interpretation) (s : Session) (op : Operation) (i : BuilderId) :
    Turns s op i (s.builders[i]?.join) ((s.perform apply op).2.builders[i]?.join) := by
  have hsettle : ∀ {op : Operation} {α : Type} {r : Except Fault α} {f : α → Reply × Session},
      (∀ a, r = .ok a → (f a).2.builders = s.builders) →
        Turns s op i (s.builders[i]?.join) ((settle s (r.map f)).2.builders[i]?.join) :=
    fun {op} _ _ _ hf => settle_induction
      (motive := fun s' => Turns s op i (s.builders[i]?.join) (s'.builders[i]?.join)) (.same _)
      fun a ha => turns_of_builders (hf a ha) i
  cases op with
  | constantLeaf v => exact .same _
  | variableLeaf name observed => exact hsettle fun r hr => builders_makeVariable hr
  | operator f cs => exact hsettle fun r hr => builders_makeOperator hr
  | vertex p => exact .same _
  | linked p children => exact hsettle fun _ _ => rfl
  | share h => exact hsettle fun _ _ => rfl
  | children h => exact hsettle fun _ _ => rfl
  | occurrences h => exact hsettle fun _ _ => rfl
  | clone h => exact hsettle fun _ _ => rfl
  | link h cs =>
    refine hsettle fun s' hs' => ?_
    obtain ⟨c, -, rfl⟩ := exists_of_map_eq_ok hs'
    rfl
  | fold h summary => exact turns_of_builders (builders_foldWith apply s h summary) i
  | nameSet names => exact .same _
  | builder adopted operators => exact turns_makeBuilder s adopted operators i
  | builderVariable j name => exact hsettle fun r hr => builders_makeVariable hr
  | builderOperator j f cs => exact hsettle fun r hr => builders_builderOperator hr
  | register j f name =>
    refine settle_induction
      (motive := fun s' => Turns s _ i (s.builders[i]?.join) (s'.builders[i]?.join)) (.same _) fun r hr => ?_
    unfold Builder.register at hr
    obtain ⟨f', hwrap, hr⟩ := exists_of_bind_eq_ok hr
    obtain rfl := Except.ok.inj hr
    refine turns_modifyBuilder rfl (fun b => .registered b _ fun e he => ?_) i
    rcases b.registry.mem_put he with rfl | hold
    · exact .inr hwrap
    · exact .inl hold
  | define j name t =>
    refine settle_induction
      (motive := fun s' => Turns s _ i (s.builders[i]?.join) (s'.builders[i]?.join)) (.same _) fun s' hs' => ?_
    cases t with
    | other kind => cases hs'
    | tree h =>
      obtain ⟨kept, hk, hs'⟩ := exists_of_bind_eq_ok hs'
      obtain ⟨v, -, rfl⟩ := exists_of_map_eq_ok hk
      obtain rfl := Except.ok.inj hs'
      exact turns_modifyBuilder rfl (fun b => .published b rfl) i
  | resolve j name => exact hsettle fun r hr => builders_resolve hr
  | dismiss j =>
    show Turns s _ i (s.builders[i]?.join) ((s.builders.setIfInBounds j none)[i]?.join)
    rw [Array.getElem?_setIfInBounds]
    by_cases hji : j = i
    · subst hji
      rw [if_pos rfl]
      split <;> exact .dismissed _ rfl
    · rw [if_neg hji]
      exact .same _
  | drop h => exact .same _

/-- **All builders record in sets** of a kind. -/
def Recorders (P : SetId → Prop) (s : Session) : Prop :=
  ∀ (i : BuilderId) (b : Builder), s.builders[i]?.join = some b → P b.names

/-- A new builder records in the set it adopts or in one of its own, and no builder changes its set. -/
theorem Recorders.perform {P : SetId → Prop} (hs : s.Recorders P) (apply : Operator.Interpretation)
    (hnew : ∀ adopted operators, op = .builder adopted operators → P (adopted.getD s.sets.size)) :
    (s.perform apply op).2.Recorders P := by
  intro i b' hb'
  have hturn := turns_perform apply s op i
  rw [hb'] at hturn
  generalize hb : s.builders[i]?.join = before at hturn
  cases hturn with
  | same => exact hs i b' hb
  | registered b registry => exact hs i b hb
  | published b hop => exact hs i b hb
  | begun registry hop hi => exact hnew _ _ hop

end Session

/-! ## Activities -/

/-- **What may go on in a session.** -/
inductive Activity where
  /-- an event of a tour -/
  | event (e : Event)
  /-- a construction has come to its end, and a builder gives out what was published -/
  | build (i : BuilderId) (name : String)
  /-- a caller gives a set other names -/
  | amend (k : SetId) (names : List String)

/-- An operation is an activity. -/
def Activity.perform (op : Operation) : Activity := .event (.perform op)

namespace Tour

variable {apply : Operator.Interpretation} {t t' : Tour} {as : List Activity}
  {P : Tour → Activity → Prop}

/-- **One activity** under an interpretation of the operators. -/
def act (apply : Operator.Interpretation) (t : Tour) : Activity → Tour
  | .event e => t.step apply e
  | .build i name => { t with session := (t.session.build i name).2 }
  | .amend k names => { t with session := t.session.amend k names }

/-- **The tour after some activities.** -/
def acts (apply : Operator.Interpretation) (t : Tour) (as : List Activity) : Tour := as.foldl (act apply) t

/-- **Each activity meets a condition** when its turn comes. -/
def Along (apply : Operator.Interpretation) (P : Tour → Activity → Prop) : Tour → List Activity → Prop
  | _, [] => True
  | t, a :: as => P t a ∧ Along apply P (t.act apply a) as

/-- **What every activity keeps that meets the condition** holds after a run of such activities. -/
theorem acts_induction {motive : Tour → Prop} (step : ∀ t a, P t a → motive t → motive (t.act apply a))
    (has : Along apply P t as) (ht : motive t) : motive (t.acts apply as) := by
  induction as generalizing t with
  | nil => exact ht
  | cons a as ih => exact ih has.2 (step t a has.1 ht)

/-- Activities that are operations make up a run. -/
theorem session_acts_perform (apply : Operator.Interpretation) (ops : List Operation) :
    (empty.acts apply (ops.map .perform)).session = .run apply ops := by
  have hgo : ∀ t : Tour, (t.acts apply (ops.map .perform)).session
      = ops.foldl (fun s op => (s.perform apply op).2) t.session := by
    induction ops with
    | nil => exact fun _ => rfl
    | cons op ops ih => exact fun t => ih (t.step apply (.perform op))
  exact hgo empty

/-- Sets, builders and log have no part in a tour being sane. -/
theorem Sane.congr (hs : t.Sane) (hstore : t'.store = t.store) (hwalks : t'.walks = t.walks) : t'.Sane where
  balanced := hstore ▸ hs.balanced
  pinned := by
    rw [hstore, hwalks]
    exact hs.pinned
  live := by
    rw [hstore, hwalks]
    exact hs.live

/-- The end of a construction leaves a tour as resolving does, but for the log. -/
theorem act_build_eq (apply : Operator.Interpretation) (t : Tour) (i : BuilderId) (name : String) :
    ∃ log, t.act apply (.build i name)
      = ⟨{ (t.step apply (.perform (.resolve i name))).session with log }, t.walks⟩ := by
  obtain ⟨log, hlog⟩ := t.session.build_eq apply i name
  refine ⟨log, ?_⟩
  show (⟨(t.session.build i name).2, t.walks⟩ : Tour) = _
  rw [hlog]
  rfl

/-- **Every activity keeps a tour sane.** -/
theorem Sane.act (hs : t.Sane) (apply : Operator.Interpretation) (a : Activity) : (t.act apply a).Sane := by
  cases a with
  | event e => exact hs.step apply e
  | build i name =>
    obtain ⟨log, hlog⟩ := act_build_eq apply t i name
    rw [hlog]
    exact (hs.step apply (.perform (.resolve i name))).congr rfl rfl
  | amend k names => exact hs.congr rfl rfl

end Tour

end ExprGraph

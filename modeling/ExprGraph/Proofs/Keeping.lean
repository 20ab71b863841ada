import ExprGraph.Proofs.Owned
import ExprGraph.Proofs.ValueSemantics
/-!
  Who holds what.

  The handles of a session are kept in the scopes of its builders (`Session.kept`) or given to its callers
  (`Session.given`).  No handle is kept twice (`Session.Apart`), so the owners of a vertex are the handles of
  the callers, the links of its parents, and the handles in the scopes, each counted once.

  Main statement: after every run the owner counts are exact, every vertex is reached from a handle of a
  caller or a builder, and when all of these are given back no vertex is left (`Session.owners_exact`).

    * state      the session, and the handles kept by each builder;
    * step       an operation keeps no handle that was not kept before, or publishes a tree at a new one
                 (`Session.published_perform`);
    * invariant  no handle is kept twice (`Session.Apart`).
-/

namespace ExprGraph

namespace Table

variable {α : Type} {t : Table α} {name : String} {a b : α}

/-- An entry put into a table is the new one or an old one. -/
theorem mem_of_mem_put (h : b ∈ (t.put name a).map Prod.snd) : b = a ∨ b ∈ t.map Prod.snd := by
  induction t with
  | nil => exact .inl (List.mem_singleton.mp h)
  | cons e rest ih =>
    obtain ⟨key, c⟩ := e
    unfold put at h
    split at h
    · exact (List.mem_cons.mp h).imp id (List.mem_cons_of_mem _)
    · rcases List.mem_cons.mp h with rfl | h
      · exact .inr List.mem_cons_self
      · exact (ih h).imp id (List.mem_cons_of_mem _)

/-- Different entries stay different when a new one is put. -/
theorem nodup_put (hn : (t.map Prod.snd).Nodup) (ha : a ∉ t.map Prod.snd) :
    ((t.put name a).map Prod.snd).Nodup := by
  induction t with
  | nil => exact List.nodup_singleton a
  | cons e rest ih =>
    obtain ⟨key, c⟩ := e
    obtain ⟨hc, hrest⟩ := List.nodup_cons.mp hn
    have ha' : a ∉ rest.map Prod.snd := fun hm => ha (List.mem_cons_of_mem _ hm)
    unfold put
    split
    · exact List.nodup_cons.mpr ⟨ha', hrest⟩
    · refine List.nodup_cons.mpr ⟨fun hm => ?_, ih hrest ha'⟩
      rcases mem_of_mem_put hm with heq | hm
      · exact ha (heq ▸ List.mem_cons_self)
      · exact hc hm

end Table

namespace Store

variable {s s' : Store} {loose : VertexId → Nat} {apply : Operator.Interpretation} {edited : Set Handle}

/-! ## Handles -/

/-- No step takes back the number of a handle. -/
theorem Steps.size_handles_le (hs : Steps apply edited s s') (hb : s.Balanced loose) :
    s.handles.size ≤ s'.handles.size := by
  induction hs with
  | refl => exact Nat.le_refl _
  | tail hrest hstep ih =>
    rcases hstep.grown_or_changesOnly (Steps.balanced hrest hb) with hgrow | ⟨g, hchg, -⟩
    · exact Nat.le_trans ih hgrow.size
    · rw [hchg.size]
      exact ih

/-- A handle given back is bound to nothing; the others are bound as before. -/
theorem target?_drop (s : Store) (h g : Handle) :
    (s.drop h).target? g = if h = g then none else s.target? g := by
  cases ht : s.target? h with
  | none =>
    rw [drop_of_none ht]
    split
    · next heq => exact heq ▸ ht
    · rfl
  | some v => rw [drop_eq ht, target?_congr (handles_release _ _), target?_unbound]

theorem target?_dropAll (hs : List Handle) (g : Handle) :
    ∀ s : Store, (s.dropAll hs).target? g = if g ∈ hs then none else s.target? g := by
  induction hs with
  | nil =>
    intro s
    rw [if_neg List.not_mem_nil]
    rfl
  | cons h hs ih =>
    intro s
    show ((s.drop h).dropAll hs).target? g = _
    rw [ih, target?_drop]
    by_cases hg : g ∈ hs
    · rw [if_pos hg, if_pos (List.mem_cons_of_mem h hg)]
    · by_cases hgh : h = g
      · rw [if_neg hg, if_pos hgh, if_pos (hgh ▸ List.mem_cons_self)]
      · have hnot : g ∉ h :: hs := fun hm => (List.mem_cons.mp hm).elim (fun e => hgh e.symm) hg
        rw [if_neg hg, if_neg hgh, if_neg hnot]

/-- The number of handles of a list that are bound to a vertex. -/
def boundIn (s : Store) (hs : List Handle) (v : VertexId) : Nat :=
  hs.countP fun h => s.target? h = some v

/-- The handles bound to a vertex, counted along the list of all handles. -/
theorem handleCount_eq (s : Store) (v : VertexId) :
    s.handleCount v = s.boundIn (List.range s.handles.size) v := by
  unfold handleCount boundIn
  induction s.handles.size with
  | zero => rfl
  | succ n ih =>
    rw [Finset.sum_range_succ, ih, List.range_succ, List.countP_append, List.countP_singleton]
    simp only [decide_eq_true_eq]

/-- Handles counted in two parts. -/
theorem boundIn_filter (s : Store) (hs kept : List Handle) (v : VertexId) :
    s.boundIn hs v = s.boundIn (hs.filter fun h => h ∉ kept) v + s.boundIn (hs.filter fun h => h ∈ kept) v := by
  unfold boundIn
  rw [List.countP_eq_countP_filter_add hs _ fun h => decide (h ∉ kept)]
  simp

end Store

namespace Session

variable {apply : Operator.Interpretation} {s s' : Session} {loose : VertexId → Nat} {i j : BuilderId}
  {h : Handle}

/-! ## Scopes -/

/-- The handles kept in the scope of a builder. -/
def published (s : Session) (i : BuilderId) : List Handle := (s.builder i).scope.map Prod.snd

/-- **The handles kept by the builders.** -/
def kept (s : Session) : List Handle := (List.range s.builders.size).flatMap s.published

/-- **The handles given to the callers**: all that no builder keeps. -/
def given (s : Session) : List Handle := (List.range s.store.handles.size).filter fun h => h ∉ s.kept

/-- **No handle is kept twice**, and all that are kept were given out. -/
structure Apart (s : Session) : Prop where
  nodup : ∀ i, (s.published i).Nodup
  builder_eq : ∀ i j h, h ∈ s.published i → h ∈ s.published j → i = j
  lt_size : ∀ i, ∀ h ∈ s.published i, h < s.store.handles.size

/-- Scopes are those of the builders there are. -/
theorem published_eq (s : Session) (i : BuilderId) :
    s.published i = ((s.builders[i]?.join).map fun b => b.scope.map Prod.snd).getD [] := by
  unfold published builder
  cases s.builders[i]?.join <;> rfl

theorem published_congr (hb : s'.builders = s.builders) (i : BuilderId) : s'.published i = s.published i := by
  rw [published_eq, hb, published_eq]

theorem lt_size_of_mem_published (hh : h ∈ s.published i) : i < s.builders.size := by
  rw [published_eq] at hh
  rcases Nat.lt_or_ge i s.builders.size with hlt | hge
  · exact hlt
  · rw [Array.getElem?_eq_none hge] at hh
    exact absurd hh List.not_mem_nil

theorem mem_kept : h ∈ s.kept ↔ ∃ i, h ∈ s.published i := by
  unfold kept
  rw [List.mem_flatMap]
  constructor
  · rintro ⟨i, -, hi⟩
    exact ⟨i, hi⟩
  · rintro ⟨i, hi⟩
    exact ⟨i, List.mem_range.mpr (lt_size_of_mem_published hi), hi⟩

/-- A builder that changes leaves the scopes of the others. -/
theorem published_modifyBuilder_of_ne (s : Session) (f : Builder → Builder) (hne : j ≠ i) :
    (s.modifyBuilder i f).published j = s.published j := by
  rw [published_eq, published_eq]
  show (((s.builders.modify i (Option.map f))[j]?.join).map _).getD [] = _
  rw [Array.getElem?_modify, if_neg fun e => hne e.symm]

/-- The scope of a builder that changes, if there is one. -/
theorem published_modifyBuilder_self (s : Session) (i : BuilderId) (f : Builder → Builder) :
    (s.modifyBuilder i f).published i = (f (s.builder i)).scope.map Prod.snd
      ∨ (s.modifyBuilder i f).published i = [] := by
  rw [published_eq]
  show (((s.builders.modify i (Option.map f))[i]?.join).map _).getD [] = _ ∨
    (((s.builders.modify i (Option.map f))[i]?.join).map _).getD [] = _
  rw [Array.getElem?_modify, if_pos rfl]
  unfold builder
  cases hb : s.builders[i]? with
  | none => exact .inr rfl
  | some b =>
    cases b with
    | none => exact .inr rfl
    | some b => exact .inl rfl

/-! ## What operations keep -/

/-- An operation keeps the scopes as they are, or lets go of handles. -/
def ScopesShrink (s s' : Session) : Prop := ∀ i, (s'.published i).Sublist (s.published i)

theorem scopesShrink_of_builders (hb : s'.builders = s.builders) : ScopesShrink s s' := by
  intro i
  rw [published_congr hb]

/-- A tree is published: its handle is new, and kept by one builder. -/
def ScopesGrow (s s' : Session) : Prop :=
  ∃ i name, s.store.handles.size < s'.store.handles.size ∧ (∀ j, j ≠ i → s'.published j = s.published j)
    ∧ s'.published i = ((s.builder i).scope.put name s.store.handles.size).map Prod.snd

theorem builders_makeVariable {name : Option String} {observed : Option SetId} {r : Handle × Session}
    (hr : s.makeVariable name observed = .ok r) : r.2.builders = s.builders := by
  cases name with
  | none => cases hr
  | some name =>
    obtain rfl := Except.ok.inj hr
    cases observed <;> rfl

theorem builders_makeOperator {f : OperatorLike} {cs : List TreeLike} {r : Handle × Session}
    (hr : s.makeOperator f cs = .ok r) : r.2.builders = s.builders := by
  unfold makeOperator at hr
  obtain ⟨f', -, hr⟩ := exists_of_bind_eq_ok hr
  obtain ⟨c, -, hr⟩ := exists_of_bind_eq_ok hr
  obtain rfl := Except.ok.inj hr
  rfl

theorem builders_builderOperator {f : OperatorLike} {cs : List TreeLike} {r : Handle × Session}
    (hr : Builder.makeOperator s i f cs = .ok r) : r.2.builders = s.builders := by
  unfold Builder.makeOperator at hr
  cases f with
  | named name =>
    cases hf : (s.builder i).registry.find? name with
    | none =>
      simp only [hf] at hr
      cases hr
    | some f =>
      simp only [hf] at hr
      exact builders_makeOperator hr
  | operator f => exact builders_makeOperator hr
  | function f => exact builders_makeOperator hr
  | other kind => exact builders_makeOperator hr

theorem builders_resolve {name : String} {r : Handle × SetId × Session}
    (hr : Builder.resolve s i name = .ok r) : r.2.2.builders = s.builders := by
  unfold Builder.resolve at hr
  cases hk : (s.builder i).scope.find? name with
  | none =>
    simp only [hk] at hr
    cases hr
  | some kept =>
    simp only [hk] at hr
    obtain ⟨q, -, hr⟩ := exists_of_bind_eq_ok hr
    obtain rfl := Except.ok.inj hr
    rfl

theorem builders_foldWith (apply : Operator.Interpretation) (s : Session) (h : Handle) (summary : Bool) :
    (s.foldWith apply h summary).2.builders = s.builders := by
  simp only [foldWith]
  split
  · split <;> rfl
  · rfl

/-- A new builder keeps nothing. -/
theorem published_makeBuilder (s : Session) (adopted : Option SetId) (operators : Table Operator)
    (i : BuilderId) : (s.makeBuilder adopted operators).2.published i = s.published i := by
  have hpush : ∀ b : Builder, b.scope = [] →
      (((s.builders.push (some b))[i]?.join).map fun b => b.scope.map Prod.snd).getD []
        = ((s.builders[i]?.join).map fun b => b.scope.map Prod.snd).getD [] := by
    intro b hb
    rw [Array.getElem?_push]
    by_cases hi : i = s.builders.size
    · rw [if_pos hi, hi, Array.getElem?_eq_none (Nat.le_refl _)]
      show b.scope.map Prod.snd = []
      rw [hb]
      rfl
    · rw [if_neg hi]
  rw [published_eq, published_eq]
  cases adopted with
  | none => exact hpush _ rfl
  | some k => exact hpush _ rfl

/-- A builder given up keeps nothing any more. -/
theorem published_dismiss (s : Session) (i j : BuilderId) :
    (s.dismiss i).published j = if j = i then [] else s.published j := by
  rw [published_eq, published_eq]
  show (((s.builders.setIfInBounds i none)[j]?.join).map _).getD [] = _
  rw [Array.getElem?_setIfInBounds]
  by_cases hij : i = j
  · rw [if_pos hij, if_pos hij.symm]
    split <;> rfl
  · rw [if_neg hij, if_neg fun e => hij e.symm]

/-- Registering an operator changes no scope. -/
theorem scopesShrink_register {f : OperatorLike} {name : Option String} {r : Operator × Session}
    (hr : Builder.register s i f name = .ok r) : ScopesShrink s r.2 := by
  unfold Builder.register at hr
  obtain ⟨f', -, hr⟩ := exists_of_bind_eq_ok hr
  obtain rfl := Except.ok.inj hr
  intro j
  by_cases hji : j = i
  · subst hji
    rcases published_modifyBuilder_self _ j _ with heq | heq <;> rw [heq]
    · exact .refl _
    · exact List.nil_sublist _
  · rw [published_modifyBuilder_of_ne _ _ hji]
    exact scopesShrink_of_builders rfl j

/-- **Publishing keeps a new handle**, in place of the one that was published before. -/
theorem scopes_define {name : String} {t : TreeLike} (hb : s.store.Balanced loose)
    (hr : Builder.define s i name t = .ok s') : ScopesShrink s s' ∨ ScopesGrow s s' := by
  cases t with
  | other kind => cases hr
  | tree h =>
    unfold Builder.define at hr
    obtain ⟨⟨kept, store⟩, hk, hr⟩ := exists_of_bind_eq_ok hr
    obtain ⟨v, hv, hbind⟩ := exists_of_map_eq_ok hk
    obtain ⟨rfl, rfl⟩ := Prod.mk.inj hbind
    have hsize : s.store.handles.size < (s.store.bind v).2.handles.size := by
      rw [Store.size_handles_bind]
      exact Nat.lt_succ_self _
    obtain rfl := Except.ok.inj hr
    rcases published_modifyBuilder_self _ i _ with heq | heq
    · refine .inr ⟨i, name, ?_, fun j hj => published_modifyBuilder_of_ne _ _ hj, heq⟩
      cases (s.builder i).scope.find? name with
      | none => exact hsize
      | some old =>
        obtain ⟨-, x, hx⟩ := Store.vertex?_of_root hv
        show _ < ((s.store.bind v).2.drop old).handles.size
        rw [(hb.bind hx).drop.2.1.size]
        exact hsize
    · refine .inl fun j => ?_
      by_cases hji : j = i
      · rw [hji, heq]
        exact List.nil_sublist _
      · rw [published_modifyBuilder_of_ne _ _ hji]
        exact .refl _

/-- **What an operation does to the scopes.** -/
theorem published_perform (apply : Operator.Interpretation) (hb : s.store.Balanced loose) (op : Operation) :
    ScopesShrink s (s.perform apply op).2 ∨ ScopesGrow s (s.perform apply op).2 := by
  have hsame : ScopesShrink s s := fun i => .refl _
  have hsettle : ∀ {α : Type} {r : Except Fault α} {f : α → Reply × Session},
      (∀ a, r = .ok a → (f a).2.builders = s.builders) → ScopesShrink s (settle s (r.map f)).2 :=
    fun hf => settle_induction (motive := ScopesShrink s) hsame
      fun a ha => scopesShrink_of_builders (hf a ha)
  cases op with
  | constantLeaf v => exact .inl (scopesShrink_of_builders rfl)
  | variableLeaf name observed => exact .inl (hsettle fun r hr => builders_makeVariable hr)
  | operator f cs => exact .inl (hsettle fun r hr => builders_makeOperator hr)
  | vertex p => exact .inl (scopesShrink_of_builders rfl)
  | linked p children => exact .inl (hsettle fun _ _ => rfl)
  | share h => exact .inl (hsettle fun _ _ => rfl)
  | children h => exact .inl (hsettle fun _ _ => rfl)
  | occurrences h => exact .inl (hsettle fun _ _ => rfl)
  | clone h => exact .inl (hsettle fun _ _ => rfl)
  | link h cs =>
    refine .inl (hsettle fun s' hs' => ?_)
    obtain ⟨c, -, rfl⟩ := exists_of_map_eq_ok hs'
    rfl
  | fold h summary => exact .inl (scopesShrink_of_builders (builders_foldWith apply s h summary))
  | nameSet names => exact .inl (scopesShrink_of_builders rfl)
  | builder adopted operators =>
    refine .inl fun i => ?_
    show ((s.makeBuilder adopted operators).2.published i).Sublist _
    rw [published_makeBuilder]
  | builderVariable i name => exact .inl (hsettle fun r hr => builders_makeVariable hr)
  | builderOperator i f cs => exact .inl (hsettle fun r hr => builders_builderOperator hr)
  | register i f name =>
    exact .inl (settle_induction (motive := ScopesShrink s) hsame fun r hr => scopesShrink_register hr)
  | define i name t =>
    exact settle_induction (motive := fun s' => ScopesShrink s s' ∨ ScopesGrow s s') (.inl hsame)
      fun s' hs' => scopes_define hb hs'
  | resolve i name => exact .inl (hsettle fun r hr => builders_resolve hr)
  | dismiss i =>
    refine .inl fun j => ?_
    show ((s.dismiss i).published j).Sublist _
    rw [published_dismiss]
    split
    · exact List.nil_sublist _
    · exact .refl _
  | drop h => exact .inl (scopesShrink_of_builders rfl)

/-- **No operation keeps a handle twice.** -/
theorem Apart.perform (ha : s.Apart) (hb : s.store.Balanced loose) (op : Operation) :
    (s.perform apply op).2.Apart := by
  have hsize := Store.Steps.size_handles_le (perform_steps apply hb op) hb
  rcases published_perform apply hb op with hshrink | ⟨i, name, hlt, hother, hself⟩
  · refine ⟨fun i => (ha.nodup i).sublist (hshrink i), fun i j h hi hj => ?_, fun i h hi => ?_⟩
    · exact ha.builder_eq i j h ((hshrink i).subset hi) ((hshrink j).subset hj)
    · exact Nat.lt_of_lt_of_le (ha.lt_size i h ((hshrink i).subset hi)) hsize
  · -- the new handle is in no scope, since it was not given out before
    have hnew : ∀ j, s.store.handles.size ∉ s.published j :=
      fun j hj => Nat.lt_irrefl _ (ha.lt_size j _ hj)
    have hold : ∀ j h, h ∈ (s.perform apply op).2.published j →
        (h = s.store.handles.size ∧ j = i) ∨ h ∈ s.published j := by
      intro j h hj
      by_cases hji : j = i
      · subst hji
        rw [hself] at hj
        exact (Table.mem_of_mem_put hj).imp (fun heq => ⟨heq, rfl⟩) id
      · rw [hother j hji] at hj
        exact .inr hj
    refine ⟨fun j => ?_, fun j k h hj hk => ?_, fun j h hj => ?_⟩
    · by_cases hji : j = i
      · rw [hji, hself]
        exact Table.nodup_put (ha.nodup i) (hnew i)
      · rw [hother j hji]
        exact ha.nodup j
    · rcases hold j h hj with ⟨rfl, rfl⟩ | hj
      · rcases hold k _ hk with ⟨-, rfl⟩ | hk
        · rfl
        · exact absurd hk (hnew k)
      · rcases hold k h hk with ⟨rfl, rfl⟩ | hk
        · exact absurd hj (hnew j)
        · exact ha.builder_eq j k h hj hk
    · rcases hold j h hj with ⟨rfl, -⟩ | hj
      · exact hlt
      · exact Nat.lt_of_lt_of_le (ha.lt_size j h hj) hsize

/-- At the beginning nothing is kept. -/
theorem apart_empty : Session.empty.Apart := by
  have hnone : ∀ i, Session.empty.published i = [] := by
    intro i
    rw [published_eq]
    rfl
  refine ⟨fun i => ?_, fun i j h hi => ?_, fun i h hi => ?_⟩
  · rw [hnone]
    exact List.nodup_nil
  · rw [hnone] at hi
    exact absurd hi List.not_mem_nil
  · rw [hnone] at hi
    exact absurd hi List.not_mem_nil

theorem apart_run (apply : Operator.Interpretation) (ops : List Operation) : (run apply ops).Apart :=
  (balanced_run_induction apart_empty (fun _ op hb ha => ha.perform hb op) ops).2

/-! ## Counting -/

theorem Apart.nodup_kept (ha : s.Apart) : s.kept.Nodup := by
  refine List.nodup_flatMap.mpr ⟨fun i _ => ha.nodup i, ?_⟩
  refine List.nodup_range.imp fun {i j} hne => ?_
  intro h hi hj
  exact hne (ha.builder_eq i j h hi hj)

/-- **The handles bound to a vertex** are those of the callers and those in the scopes. -/
theorem Apart.handleCount_eq (ha : s.Apart) (v : VertexId) :
    s.store.handleCount v = s.store.boundIn s.given v + s.store.boundIn s.kept v := by
  have hperm : ((List.range s.store.handles.size).filter fun h => h ∈ s.kept).Perm s.kept := by
    refine (List.perm_ext_iff_of_nodup (List.nodup_range.filter _) ha.nodup_kept).mpr fun h => ?_
    rw [List.mem_filter, decide_eq_true_eq, List.mem_range]
    constructor
    · exact fun hm => hm.2
    · intro hm
      obtain ⟨i, hi⟩ := mem_kept.mp hm
      exact ⟨ha.lt_size i h hi, hm⟩
  rw [Store.handleCount_eq, Store.boundIn_filter s.store _ s.kept]
  exact congrArg (s.store.boundIn s.given v + ·) (hperm.countP_eq _)

/-- Every handle is given to a caller or kept. -/
theorem mem_given_or_kept (hh : h < s.store.handles.size) : h ∈ s.given ∨ h ∈ s.kept := by
  by_cases hk : h ∈ s.kept
  · exact .inr hk
  · exact .inl (List.mem_filter.mpr ⟨List.mem_range.mpr hh, decide_eq_true hk⟩)

/-! ## Giving everything back -/

/-- **The operations that give back every handle**: those of the callers one by one, and then the builders. -/
def releases (s : Session) : List Operation :=
  s.given.map .drop ++ (List.range s.builders.size).map .dismiss

/-- Operations performed in a session one after the other. -/
def performAll (s : Session) (apply : Operator.Interpretation) (ops : List Operation) : Session :=
  ops.foldl (fun s op => (s.perform apply op).2) s

theorem run_append (apply : Operator.Interpretation) (ops more : List Operation) :
    run apply (ops ++ more) = (run apply ops).performAll apply more :=
  List.foldl_append

theorem performAll_drops (apply : Operator.Interpretation) (hs : List Handle) :
    ∀ s : Session, s.performAll apply (hs.map .drop) = { s with store := s.store.dropAll hs } := by
  induction hs with
  | nil => exact fun s => rfl
  | cons h hs ih => exact fun s => ih { s with store := s.store.drop h }

theorem store_performAll_dismissals (apply : Operator.Interpretation) {is : List BuilderId}
    (hn : is.Nodup) : ∀ s : Session,
      (s.performAll apply (is.map .dismiss)).store = s.store.dropAll (is.flatMap s.published) := by
  induction is with
  | nil => exact fun s => rfl
  | cons i is ih =>
    intro s
    obtain ⟨hi, hn⟩ := List.nodup_cons.mp hn
    have hrest : is.flatMap (s.dismiss i).published = is.flatMap s.published := by
      refine List.flatMap_congr fun j hj => ?_
      rw [published_dismiss, if_neg]
      rintro rfl
      exact hi hj
    show ((s.dismiss i).performAll apply (is.map .dismiss)).store = _
    rw [ih hn, hrest, List.flatMap_cons]
    exact List.foldl_append.symm

/-- **Nothing is bound any more** when everything was given back. -/
theorem target?_performAll_releases (apply : Operator.Interpretation) (s : Session) (h : Handle) :
    (s.performAll apply s.releases).store.target? h = none := by
  have hstore : (s.performAll apply s.releases).store = (s.store.dropAll s.given).dropAll s.kept := by
    unfold releases
    rw [performAll, List.foldl_append]
    show ((s.performAll apply (s.given.map .drop)).performAll apply _).store = _
    rw [performAll_drops, store_performAll_dismissals apply List.nodup_range]
    rfl
  rw [hstore, Store.target?_dropAll, Store.target?_dropAll]
  by_cases hk : h ∈ s.kept
  · rw [if_pos hk]
  · by_cases hg : h ∈ s.given
    · rw [if_neg hk, if_pos hg]
    · rw [if_neg hk, if_neg hg]
      cases ht : s.store.target? h with
      | none => rfl
      | some v => exact absurd (mem_given_or_kept (Store.lt_size_of_target? ht)) (by simp [hk, hg])

/-! ## Exact counts -/

/-- **Owner counts are exact and nothing leaks.**  After every run the owners of a vertex are the handles of
    the callers that are bound to it, the links of its parents, and the handles in the scopes of builders; it
    is reached from one of these handles; and when all of them are given back no vertex is left. -/
theorem owners_exact (apply : Operator.Interpretation) (ops : List Operation) :
    (∀ v x, (run apply ops).store.vertex? v = some x →
        x.owners = (run apply ops).store.boundIn (run apply ops).given v
          + (run apply ops).store.linkCount v
          + (run apply ops).store.boundIn (run apply ops).kept v)
      ∧ (∀ v x, (run apply ops).store.vertex? v = some x →
        ∃ h u, (h ∈ (run apply ops).given ∨ h ∈ (run apply ops).kept)
          ∧ (run apply ops).store.target? h = some u ∧ (run apply ops).store.Reaches u v)
      ∧ ∀ v, (run apply (ops ++ (run apply ops).releases)).store.vertex? v = none := by
  have hb := balanced_run apply ops
  refine ⟨fun v x hx => ?_, fun v x hx => ?_, fun v => ?_⟩
  · have hown : x.owners = (run apply ops).store.bound v + 0 := hb.owners v x hx
    have hcount := (apart_run apply ops).handleCount_eq v
    unfold Store.bound at hown
    omega
  · obtain ⟨h, u, hu, hr⟩ := (owned_run apply ops).exists_handle hb hx
    exact ⟨h, u, mem_given_or_kept (Store.lt_size_of_target? hu), hu, hr⟩
  · -- a vertex that were left would be reached from a handle, and there is none
    cases hx : (run apply (ops ++ (run apply ops).releases)).store.vertex? v with
    | none => rfl
    | some x =>
      obtain ⟨h, u, hu, -⟩ := (owned_run apply _).exists_handle (balanced_run apply _) hx
      rw [run_append, target?_performAll_releases] at hu
      cases hu

end Session

end ExprGraph

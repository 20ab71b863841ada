import ExprGraph.Proofs.Keeping
import ExprGraph.Proofs.Touring
/-!
  What is left alone.

  An operation edits the tree of one handle at most, and gives back a few handles (`Operation.returns`).  Every
  other handle that was given out before has the term afterwards that it had (`Session.termAt?_perform`).
  This is read off the ledger, on which operations act as on immutable values.  What walks do changes the term
  of no handle (`Tour.Sane.walking`).

    * state      the ledger of a session; the tour;
    * step       an operation, or what a walk does.
-/

namespace ExprGraph

/-! ## Values -/

namespace Values

variable {m : Values} {g : Handle}

theorem term?_bind (t : Term) (hg : g < m.next) : (m.bind t).2.term? g = m.term? g :=
  if_neg (Nat.ne_of_lt hg)

theorem term?_bindAll (ts : List Term) : ∀ {m : Values}, g < m.next →
    (m.bindAll ts).2.term? g = m.term? g := by
  induction ts with
  | nil => exact fun _ => rfl
  | cons t ts ih =>
    intro m hg
    exact (ih (Nat.lt_succ_of_lt hg)).trans (term?_bind t hg)

theorem term?_link {h : Handle} {cs : List TreeLike} {m' : Values} (hr : m.link h cs = .ok m') (hg : g ≠ h) :
    m'.term? g = m.term? g := by
  unfold link at hr
  obtain ⟨hs, -, hr⟩ := exists_of_bind_eq_ok hr
  obtain ⟨t, -, hr⟩ := exists_of_bind_eq_ok hr
  obtain ⟨⟨⟩, -, hr⟩ := exists_of_bind_eq_ok hr
  obtain ⟨ts, -, hr⟩ := exists_of_bind_eq_ok hr
  obtain rfl := Except.ok.inj hr
  exact if_neg hg

theorem term?_makeOperator {f : Operator} {cs : List TreeLike} {r : Handle × Values}
    (hr : m.makeOperator f cs = .ok r) (hg : g < m.next) : r.2.term? g = m.term? g := by
  unfold makeOperator at hr
  obtain ⟨m', hlink, hr⟩ := exists_of_bind_eq_ok hr
  obtain rfl := Except.ok.inj hr
  exact (term?_link hlink (Nat.ne_of_lt hg)).trans (term?_bind _ hg)

theorem term?_drop {h : Handle} (hg : g ≠ h) : (m.drop h).term? g = m.term? g := if_neg hg

theorem term?_dropAll (hs : List Handle) : ∀ {m : Values}, g ∉ hs → (m.dropAll hs).term? g = m.term? g := by
  induction hs with
  | nil => exact fun _ => rfl
  | cons h hs ih =>
    intro m hg
    have hrest : g ∉ hs := fun hmem => hg (List.mem_cons_of_mem h hmem)
    exact (ih hrest).trans (term?_drop fun heq => hg (heq ▸ List.mem_cons_self))

end Values

/-- **The handles that an operation gives back**, when it succeeds. -/
def Operation.returns (s : Session) : Operation → List Handle
  | .define i name (.tree _) => ((s.builder i).scope.find? name).toList
  | .dismiss i => s.published i
  | .drop h => [h]
  | _ => []

namespace Session

variable {apply : Operator.Interpretation} {s : Session} {loose : VertexId → Nat} {g : Handle}

theorem term?_settle {r : Except Fault (Reply × Ledger)}
    (h : ∀ q, r = .ok q → q.2.values.term? g = s.store.termAt? g) :
    (settle s.ledger r).2.values.term? g = s.store.termAt? g := by
  cases r with
  | error e => rfl
  | ok q => exact h q rfl

theorem term?_makeVariable {name : Option String} {observed : Option SetId} {q : Reply × Ledger}
    (hq : s.ledger.makeVariable name observed = .ok q) (hg : g < s.store.handles.size) :
    q.2.values.term? g = s.store.termAt? g := by
  cases name with
  | none => cases hq
  | some name =>
    obtain rfl := Except.ok.inj hq
    cases observed <;> exact Values.term?_bind (m := s.store.values) _ hg

theorem term?_makeOperator {f : OperatorLike} {cs : List TreeLike} {q : Reply × Ledger}
    (hq : s.ledger.makeOperator f cs = .ok q) (hg : g < s.store.handles.size) :
    q.2.values.term? g = s.store.termAt? g := by
  unfold Ledger.makeOperator at hq
  obtain ⟨f', -, hq⟩ := exists_of_bind_eq_ok hq
  obtain ⟨r, hr, hq⟩ := exists_of_bind_eq_ok hq
  obtain rfl := Except.ok.inj hq
  exact Values.term?_makeOperator (m := s.store.values) hr hg

theorem term?_builderOperator {i : BuilderId} {f : OperatorLike} {cs : List TreeLike} {q : Reply × Ledger}
    (hq : s.ledger.builderOperator i f cs = .ok q) (hg : g < s.store.handles.size) :
    q.2.values.term? g = s.store.termAt? g := by
  unfold Ledger.builderOperator at hq
  cases f with
  | named name =>
    cases hf : (s.ledger.builder i).registry.find? name with
    | none =>
      simp only [hf] at hq
      cases hq
    | some f =>
      simp only [hf] at hq
      exact term?_makeOperator hq hg
  | operator f => exact term?_makeOperator hq hg
  | function f => exact term?_makeOperator hq hg
  | other kind => exact term?_makeOperator hq hg

theorem term?_childHandles {h : Handle} {r : Option (List Handle) × Values}
    (hr : s.store.values.childHandles h = .ok r) (hg : g < s.store.handles.size) :
    r.2.term? g = s.store.termAt? g := by
  obtain ⟨t, -, hr⟩ := exists_of_bind_eq_ok hr
  cases hl : t.links with
  | none =>
    rw [hl] at hr
    obtain rfl := Except.ok.inj hr
    rfl
  | some ts =>
    rw [hl] at hr
    obtain rfl := Except.ok.inj hr
    exact Values.term?_bindAll ts (m := s.store.values) hg

/-- Publishing leaves all terms but that of the handle it gives back. -/
theorem term?_define {i : BuilderId} {name : String} {t : TreeLike} {q : Reply × Ledger}
    (hq : s.ledger.define i name t = .ok q) (hg : g < s.store.handles.size)
    (hback : g ∉ (Operation.define i name t).returns s) : q.2.values.term? g = s.store.termAt? g := by
  cases t with
  | other kind => cases hq
  | tree h =>
    obtain ⟨r, hr, hq⟩ := exists_of_bind_eq_ok hq
    obtain ⟨u, -, rfl⟩ := exists_of_map_eq_ok hr
    obtain rfl := Except.ok.inj hq
    have hbound := Values.term?_bind (m := s.store.values) u hg
    have hscope : (s.ledger.builder i).scope.find? name = (s.builder i).scope.find? name := rfl
    cases hf : (s.builder i).scope.find? name with
    | none =>
      rw [hf] at hscope
      simp only [hscope]
      exact hbound
    | some old =>
      rw [hf] at hscope
      simp only [hscope]
      have hne : g ≠ old := by
        rintro rfl
        refine hback ?_
        show g ∈ ((s.builder i).scope.find? name).toList
        rw [hf]
        exact List.mem_singleton_self g
      exact (Values.term?_drop hne).trans hbound

theorem term?_resolve {i : BuilderId} {name : String} {q : Reply × Ledger}
    (hq : s.ledger.resolve i name = .ok q) (hg : g < s.store.handles.size) :
    q.2.values.term? g = s.store.termAt? g := by
  unfold Ledger.resolve at hq
  cases hk : (s.ledger.builder i).scope.find? name with
  | none =>
    simp only [hk] at hq
    cases hq
  | some kept =>
    simp only [hk] at hq
    obtain ⟨r, hr, hq⟩ := exists_of_bind_eq_ok hq
    obtain ⟨t, -, rfl⟩ := exists_of_map_eq_ok hr
    obtain rfl := Except.ok.inj hq
    exact Values.term?_bind (m := s.store.values) _ hg

/-- What has a new handle as its outcome leaves the terms it leaves when it succeeds. -/
theorem term?_keep {r : Except Fault (Handle × Values)}
    (h : ∀ q, r = .ok q → q.2.term? g = s.store.termAt? g) :
    (settle s.ledger (r.map s.ledger.keep)).2.values.term? g = s.store.termAt? g := by
  refine term?_settle ?_
  intro q hq
  obtain ⟨r, hr, rfl⟩ := exists_of_map_eq_ok hq
  exact h r hr

/-- **An operation leaves the term of a handle**, unless it is there to edit its tree or gives it back. -/
theorem termAt?_perform (apply : Operator.Interpretation) (hb : s.store.Balanced loose) {op : Operation}
    (hg : g < s.store.handles.size) (hedit : ¬ op.Edits g) (hback : g ∉ op.returns s) :
    (s.perform apply op).2.store.termAt? g = s.store.termAt? g := by
  have hterm : (s.perform apply op).2.store.termAt? g = (s.perform apply op).2.ledger.values.term? g := rfl
  rw [hterm, (perform_shows apply hb op).ledger]
  have hbound : ∀ t, (s.store.values.bind t).2.term? g = s.store.termAt? g := fun t => Values.term?_bind t hg
  cases op with
  | constantLeaf v => exact hbound _
  | variableLeaf name observed => exact term?_settle fun q hq => term?_makeVariable hq hg
  | operator f cs => exact term?_settle fun q hq => term?_makeOperator hq hg
  | vertex p => exact hbound _
  | linked p children =>
    refine term?_keep fun r hr => ?_
    obtain ⟨ts, -, hr⟩ := exists_of_bind_eq_ok hr
    obtain rfl := Except.ok.inj hr
    exact hbound _
  | share h =>
    refine term?_keep fun r hr => ?_
    obtain ⟨t, -, rfl⟩ := exists_of_map_eq_ok hr
    exact hbound _
  | children h =>
    refine term?_settle fun q hq => ?_
    obtain ⟨r, hr, rfl⟩ := exists_of_map_eq_ok hq
    exact term?_childHandles hr hg
  | occurrences h =>
    refine term?_settle fun q hq => ?_
    obtain ⟨r, hr, rfl⟩ := exists_of_map_eq_ok hq
    obtain ⟨t, -, rfl⟩ := exists_of_map_eq_ok hr
    exact Values.term?_bindAll t.postOrder (m := s.store.values) hg
  | clone h =>
    refine term?_keep fun r hr => ?_
    obtain ⟨t, -, rfl⟩ := exists_of_map_eq_ok hr
    exact hbound _
  | link h cs =>
    refine term?_settle fun q hq => ?_
    obtain ⟨m, hm, rfl⟩ := exists_of_map_eq_ok hq
    exact Values.term?_link (m := s.store.values) hm fun heq => hedit heq.symm
  | fold h summary =>
    show (s.store.values.fold apply h).2.term? g = s.store.values.term? g
    unfold Values.fold
    split
    · rfl
    · exact if_neg fun heq => hedit heq.symm
  | nameSet names => rfl
  | builder adopted operators => cases adopted <;> rfl
  | builderVariable i name => exact term?_settle fun q hq => term?_makeVariable hq hg
  | builderOperator i f cs => exact term?_settle fun q hq => term?_builderOperator hq hg
  | register i f name =>
    refine term?_settle fun q hq => ?_
    obtain ⟨f', -, hq⟩ := exists_of_bind_eq_ok hq
    obtain rfl := Except.ok.inj hq
    rfl
  | define i name t => exact term?_settle fun q hq => term?_define hq hg hback
  | resolve i name => exact term?_settle fun q hq => term?_resolve hq hg
  | dismiss i => exact Values.term?_dropAll _ (m := s.store.values) hback
  | drop h => exact Values.term?_drop (m := s.store.values) fun heq => hback (List.mem_singleton.mpr heq)

end Session

/-! ## Walks -/

namespace Store

variable {s s' : Store} {loose : VertexId → Nat} {g : Handle}

/-- Changes through no place leave all terms. -/
theorem ChangesOnly.termAt?_of_empty (hc : ChangesOnly s s' loose ∅) (hb : s.Balanced loose) (g : Handle) :
    s'.termAt? g = s.termAt? g := by
  have hnext : ChangesOnly s s' loose {.handle (g + 1)} := hc.mono (Set.empty_subset _)
  exact hnext.termAt?_of_ne hb (Nat.ne_of_lt (Nat.lt_succ_self g))

/-- **A store that grows leaves the terms** of the handles given out. -/
theorem Grown.termAt?_eq (hgrow : Grown s s') (hb : s.Balanced loose) (hg : g < s.handles.size) :
    s'.termAt? g = s.termAt? g := by
  have htarget := hgrow.target g hg
  cases hv : s.target? g with
  | none => rw [Balanced.termAt?_of_none hv, Balanced.termAt?_of_none (htarget.trans hv)]
  | some v =>
    obtain ⟨t, ht, hgt⟩ := hb.termAt? hv
    rw [hgt]
    exact termAt?_eq_some_iff.mpr ⟨v, htarget.trans hv, (hgrow.spared v).unfolds ht⟩

end Store

namespace Tour

variable {t : Tour} {g : Handle}

/-- A tour whose walks are pinned anew has the terms of its store. -/
theorem termAt?_withWalks {store : Store} (hb : store.Balanced fun _ => 0) (t : Tour) (walks : List Cursor) :
    (t.withWalks store walks).store.handles.size = store.handles.size
      ∧ ∀ g, (t.withWalks store walks).store.termAt? g = store.termAt? g := by
  obtain ⟨-, hchg, -, -⟩ := hb.repin (walks.flatMap Cursor.vertices)
  exact ⟨hchg.size, hchg.termAt?_of_empty hb⟩

/-- An event that is no operation changes the store and the walks alone. -/
theorem exists_session_step (apply : Operator.Interpretation) {e : Event} (he : ∀ op, e ≠ .perform op)
    (t : Tour) : ∃ store, (t.step apply e).session = { t.session with store } := by
  cases e with
  | perform op => exact absurd rfl (he op)
  | begin h =>
    cases hr : t.store.root h with
    | error fault => exact ⟨t.store, by rw [step_begin_of_error hr]; rfl⟩
    | ok v => exact ⟨_, by rw [step_begin_of_ok hr]; rfl⟩
  | next i hold =>
    cases hc : t.walks[i]? with
    | none => exact ⟨t.store, by rw [step_next_of_none hc]; rfl⟩
    | some _ => exact ⟨_, by rw [step_next_of_some hc]; rfl⟩
  | abandon i => exact ⟨_, rfl⟩

/-- **What walks do leaves the terms** of the handles given out. -/
theorem Sane.walking (hs : t.Sane) (apply : Operator.Interpretation) {e : Event}
    (he : ∀ op, e ≠ .perform op) :
    t.store.handles.size ≤ (t.step apply e).store.handles.size
      ∧ ∀ g < t.store.handles.size, (t.step apply e).store.termAt? g = t.store.termAt? g := by
  have hpinned := termAt?_withWalks hs.balanced t
  cases e with
  | perform op => exact absurd rfl (he op)
  | begin h =>
    cases hr : t.store.root h with
    | error fault =>
      rw [step_begin_of_error hr]
      exact ⟨Nat.le_refl _, fun _ _ => rfl⟩
    | ok v =>
      rw [step_begin_of_ok hr]
      obtain ⟨hsize, hterm⟩ := hpinned (t.walks ++ [.start v])
      exact ⟨Nat.le_of_eq hsize.symm, fun g _ => hterm g⟩
  | next i hold =>
    cases hc : t.walks[i]? with
    | none =>
      rw [step_next_of_none hc]
      exact ⟨Nat.le_refl _, fun _ _ => rfl⟩
    | some c =>
      rw [step_next_of_some hc]
      obtain ⟨hb, hgrow⟩ := hs.holding hc hold
      obtain ⟨hsize, hterm⟩ := termAt?_withWalks hb t (t.walks.set i (c.next t.store).2)
      refine ⟨?_, ?_⟩
      · rw [hsize]
        exact hgrow.size
      · intro g hg
        rw [hterm]
        exact hgrow.termAt?_eq hs.balanced hg
  | abandon i =>
    obtain ⟨hsize, hterm⟩ := hpinned (t.walks.set i ⟨[]⟩)
    exact ⟨Nat.le_of_eq hsize.symm, fun g _ => hterm g⟩

end Tour

end ExprGraph

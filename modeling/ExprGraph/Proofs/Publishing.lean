import ExprGraph.Proofs.Activities
/-!
  Publishing.

  Publishing copies nothing: the builder keeps a handle of its own for the vertex that was published.  Whatever
  is done to this vertex through other handles is done to a copy, so the handle of the builder has the term it
  had when it was taken, until something else is published under the name.

    * state      the session, and the tree last published under a name (`Operation.lastPublished`);
    * step       an operation that leaves the builders their own (`Operation.Fair`);
    * invariant  the handle kept under a name has the term last published there (`Session.Publishes`).
-/

namespace ExprGraph

/-! ## Tables -/

namespace Table

variable {α : Type} {t : Table α} {key name : String} {a : α}

theorem mem_of_find? (h : t.find? name = some a) : (name, a) ∈ t := by
  induction t with
  | nil => cases h
  | cons e rest ih =>
    obtain ⟨other, b⟩ := e
    unfold find? at h
    rw [List.lookup_cons] at h
    split at h
    · next heq =>
      obtain rfl := Option.some.inj h
      rw [beq_iff_eq.mp heq]
      exact List.mem_cons_self
    · exact List.mem_cons_of_mem _ (ih h)

/-- In a table of different entries an entry has one name. -/
theorem name_eq_of_find? (hn : (t.map Prod.snd).Nodup) (hkey : t.find? key = some a)
    (hname : t.find? name = some a) : key = name :=
  congrArg Prod.fst (List.inj_on_of_nodup_map hn (mem_of_find? hkey) (mem_of_find? hname) rfl)

end Table

/-! ## Sharing -/

namespace Store.Balanced

variable {s : Store} {loose : VertexId → Nat} {h : Handle} {u : Term}

/-- **A live tree is shared** at the next handle, which has its term. -/
theorem share_of_termAt? (hb : s.Balanced loose) (hu : s.termAt? h = some u) :
    ∃ store, s.share h = .ok (s.handles.size, store) ∧ store.Balanced loose
      ∧ store.values = (s.values.bind u).2 := by
  obtain ⟨v, hv, hvu⟩ := termAt?_eq_some_iff.mp hu
  obtain ⟨x, hx⟩ := hvu.exists_vertex
  have hbind := hb.follows_bind hvu
  refine ⟨(s.bind v).2, ?_, hbind.balanced, hbind.values⟩
  rw [share, root_of_target? hv hx]
  rfl

/-- What is not live is not shared. -/
theorem share_of_none (hb : s.Balanced loose) (hn : s.termAt? h = none) : s.share h = .error .staleHandle := by
  refine (hb.follows_share h).error_iff.mpr ?_
  rw [Values.share, Values.get, show s.values.term? h = none from hn]
  rfl

end Store.Balanced

/-! ## Operations on what is published -/

/-- The tree last published under a name, after an operation: a builder that is there publishes a live tree. -/
def Operation.lastPublished (s : Session) (i : BuilderId) (name : String) (last : Option Term) :
    Operation → Option Term
  | .define j other (.tree h) =>
    if j = i ∧ other = name ∧ (s.builders[i]?.join).isSome then (s.store.termAt? h).or last else last
  | .dismiss j => if j = i then none else last
  | _ => last

/-- **An operation leaves the builders their own**: it edits no tree through a handle that a builder keeps and
    gives none of these back, and a new builder adopts a set that is there. -/
def Operation.Fair (s : Session) : Operation → Prop
  | .link h _ => h ∉ s.kept
  | .fold h _ => h ∉ s.kept
  | .drop h => h ∉ s.kept
  | .builder (some k) _ => k < s.sets.size
  | _ => True

namespace Session

variable {apply : Operator.Interpretation} {s s' : Session} {loose : VertexId → Nat} {g h : Handle}
  {i j : BuilderId} {name : String} {op : Operation} {last : Option Term} {u : Term}

theorem not_edits_of_fair (hf : op.Fair s) (hg : g ∈ s.kept) : ¬ op.Edits g := by
  intro hedit
  cases op with
  | link h cs =>
    obtain rfl : h = g := hedit
    exact hf hg
  | fold h summary =>
    obtain rfl : h = g := hedit
    exact hf hg
  | _ => exact hedit

/-! ## Scopes -/

theorem scope_eq (s : Session) (i : BuilderId) :
    (s.builder i).scope = ((s.builders[i]?.join).map Builder.scope).getD [] := by
  unfold builder
  cases s.builders[i]?.join <;> rfl

theorem scope_congr (h : s'.builders = s.builders) (i : BuilderId) :
    (s'.builder i).scope = (s.builder i).scope := by
  rw [scope_eq, h, scope_eq]

theorem mem_published_of_find? (hg : (s.builder i).scope.find? name = some g) : g ∈ s.published i :=
  List.mem_map.mpr ⟨(name, g), Table.mem_of_find? hg, rfl⟩

/-- **Under a name nothing changes** while the builder stays and nothing is published under this name. -/
theorem find?_perform (apply : Operator.Interpretation) (hdef : ∀ h, op ≠ .define i name (.tree h))
    (hdis : op ≠ .dismiss i) :
    ((s.perform apply op).2.builder i).scope.find? name = (s.builder i).scope.find? name := by
  have hturn := turns_perform apply s op i
  rw [scope_eq, scope_eq]
  generalize (s.perform apply op).2.builders[i]?.join = after at hturn
  generalize s.builders[i]?.join = before at hturn
  cases hturn with
  | same b => rfl
  | registered b registry => rfl
  | @published other h b hop =>
    refine Table.find?_put_of_ne _ _ ?_
    rintro rfl
    exact hdef h hop
  | begun registry hop hi => rfl
  | dismissed b hop => exact absurd hop hdis

/-- **A handle kept under a name is not given back** while the builder stays and nothing is published there. -/
theorem Apart.not_mem_returns (ha : s.Apart) (hf : op.Fair s) (hg : (s.builder i).scope.find? name = some g)
    (hdef : ∀ h, op ≠ .define i name (.tree h)) (hdis : op ≠ .dismiss i) : g ∉ op.returns s := by
  have hkept := mem_published_of_find? hg
  intro hback
  cases op with
  | define j other t =>
    cases t with
    | other kind => exact absurd hback List.not_mem_nil
    | tree h =>
      have hold : (s.builder j).scope.find? other = some g := by
        have hmem : g ∈ ((s.builder j).scope.find? other).toList := hback
        exact Option.mem_toList.mp hmem
      -- no handle is kept twice, so it would be published under this name
      obtain rfl := ha.builder_eq j i g (mem_published_of_find? hold) hkept
      obtain rfl := Table.name_eq_of_find? (ha.nodup j) hold hg
      exact hdef h rfl
  | dismiss j =>
    obtain rfl := ha.builder_eq j i g hback hkept
    exact hdis rfl
  | drop h =>
    obtain rfl := List.mem_singleton.mp hback
    exact hf (mem_kept.mpr ⟨i, hkept⟩)
  | _ => exact absurd hback List.not_mem_nil

/-! ## Publishing -/

/-- **A builder has published a tree under a name**, or nothing: the handle it keeps there has this term. -/
def Publishes (s : Session) (i : BuilderId) (name : String) (last : Option Term) : Prop :=
  ((s.builder i).scope.find? name).map s.store.termAt? = last.map some

/-- What is published stays when scopes and the terms of kept handles do. -/
theorem Publishes.congr (hs : s.Publishes i name last)
    (hfind : (s'.builder i).scope.find? name = (s.builder i).scope.find? name)
    (hterm : ∀ g, (s.builder i).scope.find? name = some g → s'.store.termAt? g = s.store.termAt? g) :
    s'.Publishes i name last := by
  unfold Publishes at hs ⊢
  rw [hfind, ← hs]
  cases hg : (s.builder i).scope.find? name with
  | none => rfl
  | some g => exact congrArg some (hterm g hg)

/-- Publishing what can be shared succeeds. -/
theorem define_of_share {store : Store} (hshare : s.store.share h = .ok (g, store)) (i : BuilderId)
    (name : String) : Builder.define s i name (.tree h)
      = .ok (modifyBuilder { s with store := match (s.builder i).scope.find? name with
          | some old => store.drop old
          | none => store } i fun b => { b with scope := b.scope.put name g }) := by
  show (s.store.share h >>= _) = _
  rw [hshare]
  rfl

/-- **A builder that publishes a live tree** keeps a handle with its term. -/
theorem publishes_define (hb : s.store.Balanced loose) (ha : s.Apart) {b : Builder}
    (hlive : s.builders[i]?.join = some b) (hu : s.store.termAt? h = some u) (name : String) :
    ∃ s', Builder.define s i name (.tree h) = .ok s' ∧ s'.Publishes i name (some u) := by
  obtain ⟨store, hshare, hbal, hval⟩ := hb.share_of_termAt? hu
  refine ⟨_, define_of_share hshare i name, ?_⟩
  -- the handle that was kept before is an older one
  have hterm : ∀ store', (match (s.builder i).scope.find? name with
      | some old => store.drop old
      | none => store) = store' → store'.termAt? s.store.handles.size = some u := by
    have hnew : store.values.term? s.store.handles.size = some u := by
      rw [hval]
      exact if_pos rfl
    rintro store' rfl
    cases hold : (s.builder i).scope.find? name with
    | none => exact hnew
    | some old =>
      have hlt : old < s.store.handles.size := ha.lt_size i old (mem_published_of_find? hold)
      show (store.drop old).values.term? s.store.handles.size = some u
      rw [(hbal.values_drop old).2, Values.term?_drop (Nat.ne_of_gt hlt)]
      exact hnew
  have hscope : ∀ store', ((modifyBuilder { s with store := store' } i fun b =>
      { b with scope := b.scope.put name s.store.handles.size }).builder i).scope
        = b.scope.put name s.store.handles.size := by
    intro store'
    rw [scope_eq]
    show ((((s.builders.modify i (Option.map _))[i]?).join).map Builder.scope).getD [] = _
    rw [Array.getElem?_modify, if_pos rfl, Option.join_eq_some_iff.mp hlive]
    rfl
  unfold Publishes
  rw [hscope, Table.find?_put_self]
  exact congrArg some (hterm _ rfl)

/-- A builder that is not there publishes nothing. -/
theorem find?_of_dead (hdead : s.builders[i]?.join = none) (name : String) :
    (s.builder i).scope.find? name = none := by
  rw [scope_eq, hdead]
  rfl

theorem lastPublished_define (s : Session) (i : BuilderId) (name : String) (h : Handle) (last : Option Term) :
    (Operation.define i name (.tree h)).lastPublished s i name last
      = if (s.builders[i]?.join).isSome then (s.store.termAt? h).or last else last := by
  simp [Operation.lastPublished]

/-- Whatever else is done, nothing is published under the name. -/
theorem lastPublished_eq (hdef : ∀ h, op ≠ .define i name (.tree h)) (hdis : op ≠ .dismiss i) :
    op.lastPublished s i name last = last := by
  cases op with
  | define j other t =>
    cases t with
    | other kind => rfl
    | tree h =>
      refine if_neg ?_
      rintro ⟨rfl, rfl, -⟩
      exact hdef h rfl
  | dismiss j =>
    refine if_neg ?_
    rintro rfl
    exact hdis rfl
  | _ => rfl

/-- **Publishing under the name** puts the term of a live tree in the place of what was there. -/
theorem Publishes.define (hs : s.Publishes i name last) (hb : s.store.Balanced loose) (ha : s.Apart)
    (apply : Operator.Interpretation) (h : Handle) :
    (s.perform apply (.define i name (.tree h))).2.Publishes i name
      ((Operation.define i name (.tree h)).lastPublished s i name last) := by
  rw [lastPublished_define]
  show (settle s ((Builder.define s i name (.tree h)).map _)).2.Publishes i name _
  cases hlive : s.builders[i]?.join with
  | none =>
    have hturn := turns_perform apply s (.define i name (.tree h)) i
    have hdead : (s.perform apply (.define i name (.tree h))).2.builders[i]?.join = none := by
      rw [hlive] at hturn
      generalize (s.perform apply (.define i name (.tree h))).2.builders[i]?.join = after at hturn ⊢
      cases hturn with
      | same => rfl
      | begun registry hop hi => cases hop
      | dismissed _ hop => rfl
    rw [Option.isSome_none, if_neg Bool.false_ne_true]
    refine hs.congr ?_ ?_
    · exact (find?_of_dead hdead name).trans (find?_of_dead hlive name).symm
    · intro g hg
      rw [find?_of_dead hlive] at hg
      cases hg
  | some b =>
    cases hu : s.store.termAt? h with
    | none =>
      have hfail : Builder.define s i name (.tree h) = .error .staleHandle := by
        show (s.store.share h >>= _) = _
        rw [hb.share_of_none hu]
        rfl
      rw [hfail]
      exact hs
    | some u =>
      obtain ⟨s', hs', hpub⟩ := publishes_define hb ha hlive hu name
      rw [hs']
      exact hpub

/-- A builder given up has published nothing. -/
theorem publishes_dismiss (s : Session) (i : BuilderId) (name : String) :
    (s.dismiss i).Publishes i name none := by
  have hdead : (s.dismiss i).builders[i]?.join = none := by
    show ((s.builders.setIfInBounds i none)[i]?).join = none
    rw [Array.getElem?_setIfInBounds, if_pos rfl]
    split <;> rfl
  exact congrArg (Option.map _) (find?_of_dead hdead name)

/-- **What is published after an operation** that leaves the builders their own. -/
theorem Publishes.perform (hs : s.Publishes i name last) (hb : s.store.Balanced loose) (ha : s.Apart)
    (apply : Operator.Interpretation) (hf : op.Fair s) :
    (s.perform apply op).2.Publishes i name (op.lastPublished s i name last) := by
  by_cases hdef : ∃ h, op = .define i name (.tree h)
  · obtain ⟨h, rfl⟩ := hdef
    exact hs.define hb ha apply h
  · have hdef' : ∀ h, op ≠ .define i name (.tree h) := fun h heq => hdef ⟨h, heq⟩
    by_cases hdis : op = .dismiss i
    · subst hdis
      have hlast : (Operation.dismiss i).lastPublished s i name last = none := if_pos rfl
      rw [hlast]
      exact publishes_dismiss s i name
    · rw [lastPublished_eq hdef' hdis]
      refine hs.congr (find?_perform apply hdef' hdis) ?_
      intro g hg
      have hkept : g ∈ s.published i := mem_published_of_find? hg
      refine termAt?_perform apply hb (ha.lt_size i g hkept) ?_ (ha.not_mem_returns hf hg hdef' hdis)
      exact not_edits_of_fair hf (mem_kept.mpr ⟨i, hkept⟩)

/-! ## Giving out -/

/-- **What was published is given out**, at a new handle, with a new set; the handles there are keep their
    terms. -/
theorem Publishes.resolve (hs : s.Publishes i name (some u)) (hb : s.store.Balanced loose) :
    ∃ store, Builder.resolve s i name
        = .ok (s.store.handles.size, { s with store }.copySet (s.builder i).names)
      ∧ store.termAt? s.store.handles.size = some u
      ∧ ∀ g, g ≠ s.store.handles.size → store.termAt? g = s.store.termAt? g := by
  obtain ⟨kept, hkept, hterm⟩ := Option.map_eq_some_iff.mp hs
  obtain ⟨store, hshare, -, hval⟩ := hb.share_of_termAt? hterm
  have hterms : ∀ g, store.termAt? g = if g = s.store.handles.size then some u else s.store.termAt? g := by
    intro g
    show store.values.term? g = _
    rw [hval]
    rfl
  refine ⟨store, ?_, (hterms _).trans (if_pos rfl), fun g hg => (hterms g).trans (if_neg hg)⟩
  unfold Builder.resolve
  rw [hkept]
  show (s.store.share kept >>= _) = _
  rw [hshare]
  rfl

/-- **Where nothing was published** there is nothing to give out. -/
theorem Publishes.resolve_none (hs : s.Publishes i name none) :
    Builder.resolve s i name = .error (.undefinedTree name) := by
  unfold Builder.resolve
  rw [Option.map_eq_none_iff.mp hs]

end Session

end ExprGraph

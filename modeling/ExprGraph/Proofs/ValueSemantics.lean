import ExprGraph.Proofs.Copying
import ExprGraph.Proofs.Ledger
/-!
  Copy on write refines values.

  A session with shared vertices behaves like one whose trees are immutable values: whatever is performed
  after whatever run, the outcome and the terms of all handles are those that the operation has on the ledger
  (`Session.run_refines`).

    * state      the session, and its ledger;
    * invariant  the store of the session is balanced (`Store.Balanced`);
    * step       one operation (`Session.perform_shows`).
-/

namespace ExprGraph

namespace Session

variable {s : Session} {loose : VertexId → Nat} {α : Type}

/-- **A result in a session shows as a result in a ledger**: the same outcome, and the session has become one
    with that ledger. -/
structure Shows (loose : VertexId → Nat) (r : α × Session) (q : α × Ledger) : Prop where
  fst : r.1 = q.1
  balanced : r.2.store.Balanced loose
  ledger : r.2.ledger = q.2

/-- An operation that changes nothing when it fails shows as soon as its successes do. -/
theorem shows_settle {r : Except Fault (Reply × Session)} {q : Except Fault (Reply × Ledger)}
    (hb : s.store.Balanced loose) (h : Agree (Shows loose) r q) :
    Shows loose (settle s r) (settle s.ledger q) := by
  cases h with
  | ok h => exact ⟨congrArg Except.ok h.fst, h.balanced, h.ledger⟩
  | error e => exact ⟨rfl, hb, rfl⟩

/-! ## The operations -/

/-- A store with its terms goes into the session and the ledger. -/
theorem ledger_of_values {store : Store} {m : Values} (h : store.values = m) :
    ({ s with store } : Session).ledger = { s.ledger with values := m } := by
  rw [← h]
  rfl

theorem shows_keep {r : Handle × Store} {q : Handle × Values} (h : Store.Follows loose r q) :
    Shows loose (s.keep r) (s.ledger.keep q) :=
  ⟨congrArg Reply.handle h.fst, h.balanced, ledger_of_values h.values⟩

theorem shows_keepAll {r : Option (List Handle) × Store} {q : Option (List Handle) × Values}
    (h : Store.Follows loose r q) : Shows loose (s.keepAll r.1 r.2) (s.ledger.keepAll q.1 q.2) :=
  ⟨congrArg Reply.handles h.fst, h.balanced, ledger_of_values h.values⟩

theorem makeVariable_shows (hb : s.store.Balanced loose) (name : Option String) (observed : Option SetId) :
    Agree (Shows loose) ((s.makeVariable name observed).map answer)
      (s.ledger.makeVariable name observed) := by
  cases name with
  | none => exact .error _
  | some name =>
    have hmake := hb.follows_make (.var name)
    have hledger := ledger_of_values (s := s) hmake.values
    refine .ok ⟨congrArg Reply.handle hmake.fst, ?_, ?_⟩
    · cases observed <;> exact hmake.balanced
    · cases observed with
      | none => exact hledger
      | some i => exact congrArg (Ledger.observe · i name) hledger

theorem makeOperator_shows (hb : s.store.Balanced loose) (f : OperatorLike) (cs : List TreeLike) :
    Agree (Shows loose) ((s.makeOperator f cs).map answer) (s.ledger.makeOperator f cs) := by
  have hagree : Agree (fun r q => Shows loose (answer r) q) (s.makeOperator f cs)
      (s.ledger.makeOperator f cs) := by
    refine (Agree.same f.resolve).bind fun f _ e => ?_
    subst e
    refine (hb.follows_makeOperator f cs).bind fun r q hr => ?_
    exact .ok ⟨congrArg Reply.handle hr.fst, hr.balanced, ledger_of_values hr.values⟩
  exact hagree.map_left fun _ _ h => h

theorem makeBuilder_shows (hb : s.store.Balanced loose) (adopted : Option SetId)
    (operators : Table Operator) :
    Shows loose (Reply.builder (s.makeBuilder adopted operators).1, (s.makeBuilder adopted operators).2)
      (Reply.builder (s.ledger.makeBuilder adopted operators).1,
        (s.ledger.makeBuilder adopted operators).2) := by
  have hvalues := hb.values_reserve (operators.foldl (fun n e => max n e.2.function.nextCopy) 0)
  cases adopted with
  | none => exact ⟨rfl, hb.reserve _, congrArg (Ledger.mk · _ _) hvalues⟩
  | some i => exact ⟨rfl, hb.reserve _, congrArg (Ledger.mk · _ _) hvalues⟩

theorem builderOperator_shows (hb : s.store.Balanced loose) (i : BuilderId) (f : OperatorLike)
    (cs : List TreeLike) :
    Agree (Shows loose) ((Builder.makeOperator s i f cs).map answer) (s.ledger.builderOperator i f cs) := by
  cases f with
  | named name =>
    have hbuilder : s.ledger.builder i = s.builder i := rfl
    simp only [Builder.makeOperator, Ledger.builderOperator, hbuilder]
    cases (s.builder i).registry.find? name with
    | none => exact .error _
    | some f => exact makeOperator_shows hb (.operator f) cs
  | operator f => exact makeOperator_shows hb (.operator f) cs
  | function f => exact makeOperator_shows hb (.function f) cs
  | other kind => exact makeOperator_shows hb (.other kind) cs

theorem register_shows (hb : s.store.Balanced loose) (i : BuilderId) (f : OperatorLike)
    (name : Option String) :
    Agree (Shows loose) ((Builder.register s i f name).map fun (f, s) => (.operator f, s))
      (s.ledger.register i f name) := by
  have hagree : Agree (fun r q => Shows loose (Reply.operator r.1, r.2) q) (Builder.register s i f name)
      (s.ledger.register i f name) := by
    refine (Agree.same f.wrap).bind fun f _ e => ?_
    subst e
    exact .ok ⟨rfl, hb.reserve _, congrArg (Ledger.mk · _ _) (hb.values_reserve _)⟩
  exact hagree.map_left fun _ _ h => h

/-- **Publishing** takes a handle for the term and gives the one published before back. -/
theorem define_shows (hb : s.store.Balanced loose) (i : BuilderId) (name : String) (t : TreeLike) :
    Agree (Shows loose) ((Builder.define s i name t).map fun s => (.done, s))
      (s.ledger.define i name t) := by
  cases t with
  | other kind => exact .error _
  | tree h =>
    have hagree : Agree (fun r q => Shows loose (Reply.done, r) q) (Builder.define s i name (.tree h))
        (s.ledger.define i name (.tree h)) := by
      refine (hb.follows_share h).bind fun r q hr => ?_
      obtain ⟨kept, store⟩ := r
      obtain ⟨kept', m⟩ := q
      obtain ⟨rfl, hstore, rfl⟩ := hr
      have hbuilder : s.ledger.builder i = s.builder i := rfl
      rw [hbuilder]
      cases (s.builder i).scope.find? name with
      | none => exact .ok ⟨rfl, hstore, rfl⟩
      | some old =>
        -- the new handle is taken before the old one goes, so a tree may be published again
        obtain ⟨hbal, hval⟩ := hstore.values_drop old
        refine .ok ⟨rfl, hbal, ?_⟩
        show (⟨(store.drop old).values, _, _⟩ : Ledger) = _
        rw [hval]
        rfl
    exact hagree.map_left fun _ _ h => h

theorem resolve_shows (hb : s.store.Balanced loose) (i : BuilderId) (name : String) :
    Agree (Shows loose) ((Builder.resolve s i name).map fun (h, k, s) => (.resolved h k, s))
      (s.ledger.resolve i name) := by
  have hagree : Agree (fun r q => Shows loose (Reply.resolved r.1 r.2.1, r.2.2) q)
      (Builder.resolve s i name) (s.ledger.resolve i name) := by
    have hbuilder : s.ledger.builder i = s.builder i := rfl
    rw [Builder.resolve, Ledger.resolve, hbuilder]
    cases (s.builder i).scope.find? name with
    | none => exact .error _
    | some kept =>
      refine (hb.follows_share kept).bind fun r q hr => .ok ?_
      exact ⟨congrArg (Reply.resolved · _) hr.fst, hr.balanced, congrArg (Ledger.mk · _ _) hr.values⟩
  exact hagree.map_left fun _ _ h => h

theorem dismiss_shows (hb : s.store.Balanced loose) (i : BuilderId) :
    Shows loose (Reply.done, s.dismiss i) (Reply.done, s.ledger.dismiss i) := by
  obtain ⟨hbal, hval⟩ := hb.values_dropAll ((s.builder i).scope.map Prod.snd)
  refine ⟨rfl, hbal, ?_⟩
  show (⟨(s.store.dropAll ((s.builder i).scope.map Prod.snd)).values, _, _⟩ : Ledger) = _
  rw [hval]
  rfl

/-- **Folding** replaces the term by the folded one, as far as folding went. -/
theorem foldWith_shows (apply : Operator.Interpretation) (hb : s.store.Balanced loose) (h : Handle)
    (summary : Bool) :
    Shows loose (s.foldWith apply h summary)
      ((s.ledger.values.fold apply h).1, { s.ledger with values := (s.ledger.values.fold apply h).2 }) := by
  have hledger : (s.foldWith apply h summary).2.ledger
      = { s.ledger with values := (s.store.foldWith apply h).store.values } := by
    rw [← store_foldWith apply s h summary]
    simp only [foldWith]
    split
    · split <;> rfl
    · rfl
  have hterm : s.ledger.values.term? h = s.store.termAt? h := rfl
  cases hh : s.store.target? h with
  | none =>
    have hnone : s.store.termAt? h = none := Store.Balanced.termAt?_of_none hh
    refine ⟨?_, ?_, ?_⟩
    · simp only [fst_foldWith, Store.foldWith_of_none hh, Values.fold, hterm, hnone]
    · rw [store_foldWith, Store.foldWith_of_none hh]
      exact hb
    · rw [hledger, Store.foldWith_of_none hh]
      simp only [Values.fold, hterm, hnone]
      rfl
  | some v =>
    obtain ⟨t, ht, hget⟩ := hb.termAt? hh
    obtain ⟨w, hedit, hout⟩ := hb.foldWith apply hh ht
    refine ⟨?_, ?_, ?_⟩
    · simp only [fst_foldWith, hout, Values.fold, hterm, hget]
    · rw [store_foldWith]
      exact hedit.balanced
    · rw [hledger, hedit.values hb]
      simp only [Values.fold, hterm, hget]
      rfl

/-! ## Runs -/

/-- **One operation** in a session with a balanced store shows as the operation on values. -/
theorem perform_shows (apply : Operator.Interpretation) (hb : s.store.Balanced loose) (op : Operation) :
    Shows loose (s.perform apply op) (s.ledger.perform apply s.store.nextCopy op) := by
  cases op with
  | constantLeaf v => exact shows_settle hb (.ok (shows_keep (hb.follows_make (.const v))))
  | variableLeaf name observed => exact shows_settle hb (makeVariable_shows hb name observed)
  | operator f cs => exact shows_settle hb (makeOperator_shows hb f cs)
  | vertex p => exact shows_settle hb (.ok (shows_keep (hb.follows_make p)))
  | linked p children =>
    exact shows_settle hb ((hb.follows_makeLinked p children).map fun _ _ h => shows_keep h)
  | share h => exact shows_settle hb ((hb.follows_share h).map fun _ _ h => shows_keep h)
  | children h => exact shows_settle hb ((hb.follows_childHandles h).map fun _ _ h => shows_keepAll h)
  | occurrences h =>
    refine shows_settle hb ((hb.follows_bindWalk h).map fun v q hr => ?_)
    exact ⟨congrArg (Reply.handles ∘ some) hr.fst, hr.balanced, ledger_of_values hr.values⟩
  | clone h => exact shows_settle hb ((hb.follows_clone h).map fun _ _ h => shows_keep h)
  | link h cs =>
    have hagree : Agree (fun r m => Shows loose (Reply.done, r) (Reply.done, { s.ledger with values := m }))
        (s.link h cs) (s.ledger.values.link h cs) := by
      refine (hb.follows_link h cs).map_left fun c m hr => ?_
      obtain ⟨⟨w, t, hedit⟩, hval⟩ := hr
      exact ⟨rfl, hedit.balanced, ledger_of_values hval⟩
    exact shows_settle hb (hagree.map fun _ _ h => h)
  | fold h summary =>
    have hfold := foldWith_shows apply hb h summary
    exact ⟨congrArg (Except.map Reply.count) hfold.fst, hfold.balanced, hfold.ledger⟩
  | nameSet names =>
    have hset : Shows loose (Reply.nameSet (s.makeSet names).1, (s.makeSet names).2)
        (Reply.nameSet (s.ledger.makeSet names).1, (s.ledger.makeSet names).2) := ⟨rfl, hb, rfl⟩
    exact shows_settle hb (.ok hset)
  | builder adopted operators => exact shows_settle hb (.ok (makeBuilder_shows hb adopted operators))
  | builderVariable i name => exact shows_settle hb (makeVariable_shows hb name _)
  | builderOperator i f cs => exact shows_settle hb (builderOperator_shows hb i f cs)
  | register i f name => exact shows_settle hb (register_shows hb i f name)
  | define i name t => exact shows_settle hb (define_shows hb i name t)
  | resolve i name => exact shows_settle hb (resolve_shows hb i name)
  | dismiss i => exact shows_settle hb (.ok (dismiss_shows hb i))
  | drop h =>
    obtain ⟨hbal, hval⟩ := hb.values_drop h
    have hdrop : Shows loose (Reply.done, { s with store := s.store.drop h })
        (Reply.done, { s.ledger with values := s.ledger.values.drop h }) :=
      ⟨rfl, hbal, ledger_of_values hval⟩
    exact shows_settle hb (.ok hdrop)

/-- **Every run leaves a balanced store**, all of whose owners are handles and links. -/
theorem balanced_run (apply : Operator.Interpretation) (ops : List Operation) :
    (run apply ops).store.Balanced fun _ => 0 :=
  run_induction (motive := fun s => s.store.Balanced fun _ => 0) .empty
    (fun _ op hb => (perform_shows apply hb op).balanced) ops

/-- The ledger after one more operation. -/
theorem ledger_run_append (apply : Operator.Interpretation) (ops : List Operation) (op : Operation) :
    (run apply (ops ++ [op])).ledger
      = ((run apply ops).ledger.perform apply (run apply ops).store.nextCopy op).2 := by
  rw [run, List.foldl_append]
  exact (perform_shows apply (balanced_run apply ops) op).ledger

/-- Only deep copies ask for the number of new functions. -/
theorem perform_eq_of_ne_clone {op : Operation} (hop : ∀ h, op ≠ .clone h) (apply : Operator.Interpretation)
    (l : Ledger) (m n : Nat) : l.perform apply m op = l.perform apply n op := by
  cases op with
  | clone h => exact absurd rfl (hop h)
  | _ => rfl

/-- **Without deep copies** the ledger of a run can be worked out on values alone. -/
theorem ledger_run_eq (apply : Operator.Interpretation) {ops : List Operation} (hops : ∀ h, .clone h ∉ ops) :
    (run apply ops).ledger = ops.foldl (fun l op => (l.perform apply 0 op).2) Session.empty.ledger := by
  induction ops using List.reverseRecOn with
  | nil => rfl
  | append_singleton ops op ih =>
    have hbefore : ∀ h, .clone h ∉ ops := fun h hmem => hops h (List.mem_append_left _ hmem)
    have hop : ∀ h, op ≠ .clone h := fun h heq => hops h (heq ▸ List.mem_concat_self)
    rw [ledger_run_append, ih hbefore, perform_eq_of_ne_clone hop apply _ _ 0, List.foldl_append]
    rfl

/-- The terms of the live handles have no functions beyond those in the vertices. -/
theorem nextCopy_le_of_term? {h : Handle} {t : Term}
    (ht : s.ledger.values.term? h = some t) : t.nextCopy ≤ s.store.liveCopies := by
  obtain ⟨v, -, hv⟩ := Store.termAt?_eq_some_iff.mp ht
  exact hv.nextCopy_le

/-- **Copy on write refines values**: after every run, every operation has the outcome that it has on the
    terms of the handles, and changes these terms as it does there; a deep copy gets functions with numbers
    that are in none of them. -/
theorem run_refines (apply : Operator.Interpretation) (ops : List Operation) (op : Operation) :
    ((run apply ops).perform apply op).1
        = ((run apply ops).ledger.perform apply (run apply ops).store.nextCopy op).1
      ∧ ((run apply ops).perform apply op).2.ledger
        = ((run apply ops).ledger.perform apply (run apply ops).store.nextCopy op).2
      ∧ ∀ h t, (run apply ops).ledger.values.term? h = some t →
        t.nextCopy ≤ (run apply ops).store.nextCopy := by
  have hb := balanced_run apply ops
  have hshows := perform_shows apply hb op
  refine ⟨hshows.fst, hshows.ledger, fun _ _ ht => ?_⟩
  exact Nat.le_trans (nextCopy_le_of_term? ht) (Nat.le_max_right _ _)

/-- A sum with operands fixed beforehand, over one variable. -/
def partialSum : List Operation :=
  [.variableLeaf (some "x") none, .operator (.operator ⟨.partialSum 0, "operator", none, none, none⟩) [.tree 0]]

/-- The term of the sum. -/
def partialTerm : Term := .linked (.op ⟨.partialSum 0, "operator", none, none, none⟩) [.bare (.var "x")]

theorem values_partialSum : (run Operator.apply partialSum).ledger.values.term? 1 = some partialTerm
    ∧ (run Operator.apply partialSum).ledger.values.next = 2 := by
  rw [ledger_run_eq Operator.apply fun h hmem => by simp [partialSum] at hmem]
  exact ⟨rfl, rfl⟩

/-- **A deep copy may differ from its source**: such a sum is copied into a function of its own. -/
theorem term?_clone_partialSum_ne :
    (run Operator.apply (partialSum ++ [.clone 1])).ledger.values.term? 2
      ≠ (run Operator.apply (partialSum ++ [.clone 1])).ledger.values.term? 1 := by
  obtain ⟨hterm, hnext⟩ := values_partialSum
  have hfresh : 0 < (run Operator.apply partialSum).store.nextCopy :=
    Nat.lt_of_lt_of_le (nextCopy_le_of_term? hterm) (Nat.le_max_right _ _)
  rw [ledger_run_append]
  generalize (run Operator.apply partialSum).store.nextCopy = n at hfresh ⊢
  generalize (run Operator.apply partialSum).ledger = l at hterm hnext ⊢
  have hclone : l.values.clone n 1 = .ok (l.values.bind (partialTerm.deepCopy n)) := by
    rw [Values.clone, Values.get, hterm]
    rfl
  have hnew : (l.perform Operator.apply n (.clone 1)).2.values
      = (l.values.bind (partialTerm.deepCopy n)).2 := by
    simp only [Ledger.perform, hclone]
    rfl
  rw [hnew]
  have htwo : (l.values.bind (partialTerm.deepCopy n)).2.term? 2 = some (partialTerm.deepCopy n) := by
    show (if 2 = l.values.next then _ else _) = _
    rw [if_pos hnext.symm]
  have hone : (l.values.bind (partialTerm.deepCopy n)).2.term? 1 = some partialTerm := by
    show (if 1 = l.values.next then _ else _) = _
    rw [hnext, if_neg (by decide), hterm]
  rw [htwo, hone]
  intro heq
  -- the copied function has the number `n + 0`
  have hpay : (partialTerm.deepCopy n).payload = partialTerm.payload := by rw [Option.some.inj heq]
  simp only [partialTerm, Term.deepCopy, Term.payload, Payload.deepCopy, Primitive.deepCopy] at hpay
  injection hpay with hop
  injection hop with hfun
  injection hfun with hnum
  omega

end Session

end ExprGraph

import ExprGraph.Proofs.Evaluating
import ExprGraph.Proofs.Renaming
import ExprGraph.Proofs.Soundness
/-!
  Owners that are counted too often do not show.

  The counts of owners decide where a tree is changed in place and where it is copied first.  From then on two
  sessions with different counts differ in their vertices, in what is shared, and in the counts that decide the
  next time.

  Main statement: two sound stores that differ in nothing but the counts answer every sequence of calls alike,
  and the trees of all handles stay alike (`Session.overcounting_unseen`).

  Neither session is compared with the other, but each with the same calls on values, where nothing is counted
  (`Values.callAll`).  New functions get numbers there that were never used, whereas the number that a session
  takes next depends on the vertices it still has; so the terms are the same up to the numbers of functions that
  deep copies have made.

    * state      the session, and on the other side the terms with the next number for new functions;
    * step       one call (`Session.call`, `Values.call`);
    * invariant  the store is sound, and its terms are those on the other side, renamed (`Session.Tracks`).
-/

namespace ExprGraph

/-! ## Calls -/

/-- **A call on the trees of a session.** -/
inductive Call where
  /-- other children for a tree -/
  | link (h : Handle) (cs : List TreeLike)
  /-- the constants of a tree folded -/
  | fold (h : Handle) (summary : Bool)
  /-- another handle for a tree -/
  | share (h : Handle)
  /-- handles for the children of a tree -/
  | children (h : Handle)
  /-- a deep copy of a tree -/
  | clone (h : Handle)
  /-- the value of a tree -/
  | evaluate (h : Handle) (strategy : String) (b : Bindings)
  /-- a handle given back -/
  | drop (h : Handle)

/-- What a call answers. -/
inductive Answer where
  | reply (a : Reply)
  | value (v : Value)

/-- The outcome of an operation as that of a call. -/
def replying {σ : Type} (r : Except Fault Reply × σ) : Except Fault Answer × σ := (r.1.map .reply, r.2)

namespace Session

/-- **Performs a call** under an interpretation of the operators. -/
def call (apply : Operator.Interpretation) (s : Session) : Call → Except Fault Answer × Session
  | .link h cs => replying (s.perform apply (.link h cs))
  | .fold h summary => replying (s.perform apply (.fold h summary))
  | .share h => replying (s.perform apply (.share h))
  | .children h => replying (s.perform apply (.children h))
  | .clone h => replying (s.perform apply (.clone h))
  | .evaluate h strategy b =>
    match s.evaluateWith apply h strategy b with
    | .ok (v, s) => (.ok (.value v), s)
    | .error e => (.error e, s)
  | .drop h => replying (s.perform apply (.drop h))

/-- Performs calls one after the other, whether or not they fail. -/
def callAll (apply : Operator.Interpretation) (s : Session) :
    List Call → List (Except Fault Answer) × Session
  | [] => ([], s)
  | c :: cs =>
    let (a, s) := s.call apply c
    let (as, s) := s.callAll apply cs
    (a :: as, s)

end Session

namespace Values

/-- The value of a term. -/
def evaluate (m : Values) (apply : Operator.Interpretation) (h : Handle) (strategy : String)
    (b : Bindings) : Except Fault Value := do
  let t ← m.get h
  let _ ← Strategy.ofName strategy
  t.value apply b

/-- **What a call does to values**, with the first number for copies of functions. -/
def call (apply : Operator.Interpretation) (fresh : Nat) (m : Values) :
    Call → Except Fault Answer × Values
  | .link h cs => replying (settle m ((m.link h cs).map fun m => (.done, m)))
  | .fold h _ => replying ((m.fold apply h).1.map .count, (m.fold apply h).2)
  | .share h => replying (settle m ((m.share h).map fun (g, m) => (.handle g, m)))
  | .children h => replying (settle m ((m.childHandles h).map fun (gs, m) => (.handles gs, m)))
  | .clone h => replying (settle m ((m.clone fresh h).map fun (g, m) => (.handle g, m)))
  | .evaluate h strategy b => ((m.evaluate apply h strategy b).map .value, m)
  | .drop h => replying (settle m (.ok (.done, m.drop h)))

end Values

namespace Call

/-- The number for new functions after a call: a deep copy may use up as many as there are. -/
def nextCopy : Nat → Call → Nat
  | fresh, clone _ => fresh + fresh
  | fresh, _ => fresh

/-- The number for new functions after some calls. -/
def nextCopyAll (fresh : Nat) (calls : List Call) : Nat := calls.foldl nextCopy fresh

/-- Without deep copies, or without functions that have numbers, no numbers are used up. -/
theorem nextCopyAll_eq (calls : List Call) :
    ∀ {fresh : Nat}, (∀ h, clone h ∉ calls) ∨ fresh = 0 → nextCopyAll fresh calls = fresh := by
  induction calls with
  | nil => exact fun _ => rfl
  | cons c calls ih =>
    intro fresh h
    have hone : c.nextCopy fresh = fresh := by
      cases c with
      | clone g =>
        rcases h with h | h
        · exact absurd List.mem_cons_self (h g)
        · show fresh + fresh = fresh
          omega
      | _ => rfl
    show nextCopyAll (c.nextCopy fresh) calls = fresh
    rw [hone]
    exact ih (h.imp_left fun hc g hg => hc g (List.mem_cons_of_mem c hg))

end Call

/-- Performs calls on values one after the other, and never uses a number for two functions. -/
def Values.callAll (apply : Operator.Interpretation) (fresh : Nat) (m : Values) :
    List Call → List (Except Fault Answer) × Values
  | [] => ([], m)
  | c :: cs =>
    let (a, m) := m.call apply fresh c
    let (as, m) := m.callAll apply (c.nextCopy fresh) cs
    (a :: as, m)

/-! ## A session and its values -/

namespace Session

variable {apply : Operator.Interpretation} {s s' : Session} {loose : VertexId → Nat}

/-- A call on a session shows as the call on its values. -/
structure ShowsCall (loose : VertexId → Nat) (r : Except Fault Answer × Session)
    (q : Except Fault Answer × Values) : Prop where
  fst : r.1 = q.1
  balanced : r.2.store.Balanced loose
  values : r.2.store.values = q.2

/-- An operation that shows in the ledger shows as a call when the ledger does with its values what the call
    does. -/
theorem Shows.call {r : Except Fault Reply × Session} {l : Except Fault Reply × Ledger}
    {q : Except Fault Reply × Values} (h : Shows loose r l) (hl : l.1 = q.1 ∧ l.2.values = q.2) :
    ShowsCall loose (replying r) (replying q) where
  fst := congrArg (Except.map Answer.reply) (h.fst.trans hl.1)
  balanced := h.balanced
  values := (congrArg Ledger.values h.ledger).trans hl.2

/-- A ledger settles as its values do. -/
theorem settle_ledger {α : Type} {l : Ledger} {f : α → Reply × Ledger} {g : α → Reply × Values}
    (r : Except Fault α) (hfg : ∀ a, (f a).1 = (g a).1 ∧ (f a).2.values = (g a).2) :
    (settle l (r.map f)).1 = (settle l.values (r.map g)).1
      ∧ (settle l (r.map f)).2.values = (settle l.values (r.map g)).2 := by
  cases r with
  | error e => exact ⟨rfl, rfl⟩
  | ok a => exact ⟨congrArg Except.ok (hfg a).1, (hfg a).2⟩

/-- Evaluating comes to the value of the term, and leaves the store. -/
theorem call_evaluate_shows (hb : s.store.Balanced loose) (h : Handle) (strategy : String)
    (b : Bindings) :
    ShowsCall loose (s.call apply (.evaluate h strategy b))
      (s.store.values.call apply s.store.nextCopy (.evaluate h strategy b)) := by
  have hagree := hb.root_agree h
  simp only [call, Values.call, Values.evaluate, evaluateWith]
  generalize s.store.root h = r at hagree
  generalize s.store.values.get h = q at hagree
  cases hagree with
  | error e => exact ⟨rfl, hb, rfl⟩
  | ok hr =>
    -- the handle is looked up before the strategy
    cases hk : Strategy.ofName strategy with
    | error e => exact ⟨rfl, hb, rfl⟩
    | ok k =>
      simp only [bind, Except.bind, hr.2.evaluateWith_eq apply b k]
      generalize Term.value apply b _ = v
      cases v with
      | error e => exact ⟨rfl, hb, rfl⟩
      | ok v => exact ⟨rfl, hb, rfl⟩

/-- **Every call on a session shows as the call on its values.** -/
theorem call_shows (apply : Operator.Interpretation) (hb : s.store.Balanced loose) (c : Call) :
    ShowsCall loose (s.call apply c) (s.store.values.call apply s.store.nextCopy c) := by
  cases c with
  | link h cs => exact (perform_shows apply hb (.link h cs)).call (settle_ledger _ fun _ => ⟨rfl, rfl⟩)
  | fold h summary => exact (perform_shows apply hb (.fold h summary)).call ⟨rfl, rfl⟩
  | share h => exact (perform_shows apply hb (.share h)).call (settle_ledger _ fun _ => ⟨rfl, rfl⟩)
  | children h => exact (perform_shows apply hb (.children h)).call (settle_ledger _ fun _ => ⟨rfl, rfl⟩)
  | clone h => exact (perform_shows apply hb (.clone h)).call (settle_ledger _ fun _ => ⟨rfl, rfl⟩)
  | evaluate h strategy b => exact call_evaluate_shows hb h strategy b
  | drop h => exact (perform_shows apply hb (.drop h)).call ⟨rfl, rfl⟩

end Session

/-! ## Values renamed -/

namespace Values

variable {apply : Operator.Interpretation} {m m' : Values} {k n start : Nat} {ρ σ : Nat → Nat} {α : Type}

/-- **The values with all functions renamed.** -/
def rename (ρ : Nat → Nat) (m : Values) : Values := { m with term? := fun h => (m.term? h).map (Term.rename ρ) }

/-- A result with its values renamed. -/
def renamed (ρ : Nat → Nat) (r : α × Values) : α × Values := (r.1, r.2.rename ρ)

theorem rename_id (m : Values) : m.rename id = m := by
  have hterm : (fun h => (m.term? h).map (Term.rename id)) = m.term? := by
    funext h
    cases m.term? h with
    | none => rfl
    | some t => exact congrArg some t.rename_id
  rw [rename, hterm]

theorem get_rename (m : Values) (h : Handle) :
    Agree (fun t u => t.rename ρ = u) (m.get h) ((m.rename ρ).get h) := by
  show Agree _ (orFault _ (m.term? h)) (orFault _ ((m.term? h).map (Term.rename ρ)))
  cases m.term? h with
  | none => exact .error _
  | some t => exact .ok rfl

theorem bind_rename (m : Values) (t : Term) :
    (m.rename ρ).bind (t.rename ρ) = renamed ρ (m.bind t) := by
  have hterm : (fun h => if h = m.next then some (t.rename ρ) else (m.term? h).map (Term.rename ρ))
      = fun h => (if h = m.next then some t else m.term? h).map (Term.rename ρ) := by
    funext h
    split <;> rfl
  show (m.next, (⟨m.next + 1, _⟩ : Values)) = (m.next, ⟨m.next + 1, _⟩)
  exact congrArg (fun f => (m.next, (⟨m.next + 1, f⟩ : Values))) hterm

theorem bindAll_rename (ts : List Term) (m : Values) :
    (m.rename ρ).bindAll (ts.map (Term.rename ρ)) = renamed ρ (m.bindAll ts) := by
  induction ts generalizing m with
  | nil => rfl
  | cons t ts ih =>
    simp only [List.map_cons, bindAll, bind_rename]
    simp only [renamed, ih]

theorem set_rename (m : Values) (h : Handle) (t : Term) :
    (m.rename ρ).set h (t.rename ρ) = (m.set h t).rename ρ := by
  refine congrArg (Values.mk m.next) (funext fun g => ?_)
  show (if g = h then _ else _) = (if g = h then _ else _ : Option Term).map _
  split <;> rfl

theorem drop_rename (m : Values) (h : Handle) : (m.rename ρ).drop h = (m.drop h).rename ρ := by
  refine congrArg (Values.mk m.next) (funext fun g => ?_)
  show (if g = h then _ else _) = (if g = h then _ else _ : Option Term).map _
  split <;> rfl

theorem share_rename (m : Values) (h : Handle) :
    Agree (fun r q => renamed ρ r = q) (m.share h) ((m.rename ρ).share h) := by
  refine (m.get_rename h).map fun t u e => ?_
  subst e
  exact (m.bind_rename t).symm

theorem childHandles_rename (m : Values) (h : Handle) :
    Agree (fun r q => renamed ρ r = q) (m.childHandles h) ((m.rename ρ).childHandles h) := by
  refine (m.get_rename h).bind fun t u e => ?_
  subst e
  rw [Term.links_rename]
  cases t.links with
  | none => exact .ok rfl
  | some ts =>
    refine .ok ?_
    simp only [bindAll_rename]
    rfl

/-- Linking asks the payload for nothing that renaming changes. -/
theorem checkCount_rename (p : Payload) (n : Nat) :
    Store.checkCount (p.rename ρ) n = Store.checkCount p n := by
  cases p <;> rfl

theorem link_rename (m : Values) (h : Handle) (cs : List TreeLike) :
    Agree (fun r q => r.rename ρ = q) (m.link h cs) ((m.rename ρ).link h cs) := by
  refine (Agree.same (Store.expectTrees cs)).bind fun hs _ e => ?_
  subst e
  refine (m.get_rename h).bind fun t u e => ?_
  subst e
  rw [Term.payload_rename, checkCount_rename]
  refine (Agree.same (Store.checkCount t.payload hs.length)).bind fun _ _ _ => ?_
  refine (Agree.mapM fun g _ => m.get_rename g).bind fun ts us hus => .ok ?_
  have hmap : ts.map (Term.rename ρ) = us := List.forall₂_eq_eq_eq ▸ List.forall₂_map_left_iff.mpr hus
  rw [← hmap, ← Term.rename_linked, set_rename]

theorem fold_rename (hu : Operator.Uniform apply) (m : Values) (h : Handle) :
    (m.rename ρ).fold apply h = renamed ρ (m.fold apply h) := by
  have hterm : (m.rename ρ).term? h = (m.term? h).map (Term.rename ρ) := rfl
  rw [fold, fold, hterm]
  cases m.term? h with
  | none => rfl
  | some t =>
    simp only [Option.map_some, Term.fold_rename hu, Term.renameFolded, set_rename]
    rfl

theorem evaluate_rename (hu : Operator.Uniform apply) (m : Values) (h : Handle) (strategy : String)
    (b : Bindings) : (m.rename ρ).evaluate apply h strategy b = m.evaluate apply h strategy b := by
  have hagree : Agree Eq (m.evaluate apply h strategy b) ((m.rename ρ).evaluate apply h strategy b) := by
    refine (m.get_rename h).bind fun t u e => ?_
    subst e
    rw [Term.value_rename hu]
    exact .same _
  exact hagree.eq.symm

/-! ## Numbers in use -/

/-- **Only numbers below a bound occur**: renamings that agree below it do the same. -/
def Below (k : Nat) (m : Values) : Prop :=
  ∀ ρ σ : Nat → Nat, (∀ i < k, ρ i = σ i) → m.rename ρ = m.rename σ

theorem Below.mono (hm : m.Below k) (hk : k ≤ n) : m.Below n := by
  intro ρ σ h
  exact hm ρ σ fun i hi => h i (Nat.lt_of_lt_of_le hi hk)

theorem Below.term {h : Handle} {t : Term} (hm : m.Below k) (ht : m.get h = .ok t)
    (hagree : ∀ i < k, ρ i = σ i) : t.rename ρ = t.rename σ := by
  obtain ⟨u, hu, rfl⟩ := (m.get_rename h).exists_of_ok ht
  obtain ⟨w, hw, rfl⟩ := (m.get_rename h).exists_of_ok ht
  rw [hm ρ σ hagree] at hu
  exact Except.ok.inj (hu.symm.trans hw)

/-- Old numbers are renamed as before, and new ones, from a bound on, to new ones. -/
def extend (ρ : Nat → Nat) (k n : Nat) (i : Nat) : Nat := if i < k then ρ i else n + ρ (i - k)

theorem extend_of_lt {i : Nat} (h : i < k) : extend ρ k n i = ρ i := if_pos h

theorem extend_add (i : Nat) : extend ρ k n (k + i) = n + ρ i := by
  have hge : ¬ k + i < k := by omega
  have hsub : k + i - k = i := by omega
  rw [extend, if_neg hge, hsub]

/-- **A deep copy of a renamed term** is the deep copy renamed, new numbers going to new ones. -/
theorem clone_rename (hm : m.Below k) (h : Handle) :
    Agree (fun r q => renamed (extend ρ k n) r = q) (m.clone k h) ((m.rename ρ).clone n h) := by
  refine (m.get_rename h).map fun t u e => ?_
  subst e
  have hold : m.rename ρ = m.rename (extend ρ k n) := hm _ _ fun i hi => (extend_of_lt hi).symm
  have hnew : (t.rename ρ).deepCopy n = (t.deepCopy k).rename (extend ρ k n) := by
    rw [Term.deepCopy_eq_rename, Term.deepCopy_eq_rename, Term.rename_rename, Term.rename_rename]
    exact congrArg (Term.rename · t) (funext fun i => (extend_add i).symm)
  rw [hold, hnew, bind_rename]

/-! ## Calls on renamed values -/

/-- Results that agree up to renaming settle alike. -/
theorem settle_rename {x y : Except Fault (Reply × Values)}
    (h : Agree (fun r q => renamed ρ r = q) x y) :
    settle (m.rename ρ) y = renamed ρ (settle m x) := by
  cases h with
  | ok h => rw [← h]; rfl
  | error e => rfl

/-- **Renaming goes through a call** unless it makes new functions. -/
theorem call_rename_of_ne_clone (hu : Operator.Uniform apply) {c : Call} (hc : ∀ h, c ≠ .clone h)
    (m : Values) : (m.rename ρ).call apply n c = renamed ρ (m.call apply k c) := by
  cases c with
  | link h cs =>
    refine congrArg replying (settle_rename ((m.link_rename h cs).map fun r q e => ?_))
    rw [← e]
    rfl
  | fold h summary =>
    show replying (((m.rename ρ).fold apply h).1.map .count, ((m.rename ρ).fold apply h).2) = _
    rw [fold_rename hu]
    rfl
  | share h =>
    refine congrArg replying (settle_rename ((m.share_rename h).map fun r q e => ?_))
    rw [← e]
    rfl
  | children h =>
    refine congrArg replying (settle_rename ((m.childHandles_rename h).map fun r q e => ?_))
    rw [← e]
    rfl
  | clone h => exact absurd rfl (hc h)
  | evaluate h strategy b =>
    have hvalue := m.evaluate_rename (ρ := ρ) hu h strategy b
    show (((m.rename ρ).evaluate apply h strategy b).map Answer.value, m.rename ρ) = _
    rw [hvalue]
    rfl
  | drop h =>
    have hdrop := m.drop_rename (ρ := ρ) h
    show replying (.ok .done, (m.rename ρ).drop h) = _
    rw [hdrop]
    rfl

/-- **Every call on renamed values** answers the same, and its values are the same renamed. -/
theorem call_rename (hu : Operator.Uniform apply) (hm : m.Below k) (c : Call) :
    (m.rename ρ).call apply n c = renamed (extend ρ k n) (m.call apply k c) := by
  by_cases hc : ∃ h, c = .clone h
  · obtain ⟨h, rfl⟩ := hc
    have hold : m.rename ρ = m.rename (extend ρ k n) := hm _ _ fun i hi => (extend_of_lt hi).symm
    have hagree : Agree (fun r q => renamed (extend ρ k n) r = q)
        ((m.clone k h).map fun (g, m) => (Reply.handle g, m))
        (((m.rename ρ).clone n h).map fun (g, m) => (Reply.handle g, m)) := by
      refine (clone_rename hm h).map fun r q e => ?_
      rw [← e]
      rfl
    have hsettle := settle_rename (m := m) hagree
    rw [← hold] at hsettle
    exact congrArg replying hsettle
  · rw [hm _ _ fun i hi => (extend_of_lt (ρ := ρ) (n := n) hi).symm]
    exact call_rename_of_ne_clone hu (fun h e => hc ⟨h, e⟩) m

/-- The numbers of the copied functions lie below twice the bound. -/
theorem Below.clone {h : Handle} {r : Handle × Values} (hm : m.Below k) (hr : m.clone k h = .ok r) :
    r.2.Below (k + k) := by
  intro ρ σ hagree
  obtain ⟨t, ht, rfl⟩ := exists_of_map_eq_ok hr
  have hold : m.rename ρ = m.rename σ := hm ρ σ fun i hi => hagree i (by omega)
  have hnew : (t.deepCopy k).rename ρ = (t.deepCopy k).rename σ := by
    rw [Term.deepCopy_eq_rename, Term.rename_rename, Term.rename_rename]
    exact hm.term ht fun i hi => hagree (k + i) (by omega)
  show (renamed ρ (m.bind (t.deepCopy k))).2 = (renamed σ (m.bind (t.deepCopy k))).2
  rw [← bind_rename, ← bind_rename, hnew, hold]

/-- **A call leaves only numbers that were in use or are new.** -/
theorem Below.call (hu : Operator.Uniform apply) (hm : m.Below k) (c : Call) :
    (m.call apply k c).2.Below (c.nextCopy k) := by
  by_cases hc : ∃ h, c = .clone h
  · obtain ⟨h, rfl⟩ := hc
    show (settle m ((m.clone k h).map _)).2.Below (k + k)
    cases hr : m.clone k h with
    | error e => exact hm.mono (Nat.le_add_left k k)
    | ok r => exact hm.clone hr
  · intro ρ σ hagree
    -- the call commutes with both renamings, which do the same before it
    have hne : ∀ h, c ≠ .clone h := fun h e => hc ⟨h, e⟩
    have hbelow : ∀ i < k, ρ i = σ i := by
      cases c with
      | clone h => exact absurd rfl (hne h)
      | _ => exact hagree
    have hleft := call_rename_of_ne_clone (ρ := ρ) (k := k) (n := k) hu hne m
    have hright := call_rename_of_ne_clone (ρ := σ) (k := k) (n := k) hu hne m
    rw [hm ρ σ hbelow, hright] at hleft
    exact (congrArg Prod.snd hleft).symm

/-- **The same values up to the numbers of functions made since**: they are renamings of each other, and the
    functions with numbers from before `start` are the same. -/
structure SameUpTo (start : Nat) (m m' : Values) : Prop where
  there : ∃ ρ : Nat → Nat, (∀ i < start, ρ i = i) ∧ m.rename ρ = m'
  back : ∃ σ : Nat → Nat, m'.rename σ = m

theorem SameUpTo.refl (start : Nat) (m : Values) : SameUpTo start m m where
  there := ⟨id, fun _ _ => rfl, m.rename_id⟩
  back := ⟨id, m.rename_id⟩

/-- Without functions made since, nothing is renamed. -/
theorem SameUpTo.eq (h : SameUpTo start m m') (hm : m.Below start) : m = m' := by
  obtain ⟨ρ, hρ, rfl⟩ := h.there
  exact m.rename_id.symm.trans (hm id ρ fun i hi => (hρ i hi).symm)

end Values

/-! ## Runs -/

namespace Session

variable {apply : Operator.Interpretation} {s s' : Session} {start k : Nat} {m : Values}

/-- The numbers in the terms of the handles are numbers of functions in the vertices. -/
theorem values_below (s : Session) : s.store.values.Below s.store.liveCopies := by
  intro ρ σ h
  refine congrArg (Values.mk _) (funext fun g => ?_)
  cases ht : s.store.values.term? g with
  | none => rfl
  | some t =>
    have hle := nextCopy_le_of_term? (s := s) ht
    exact congrArg some (Term.rename_congr fun i hi => h i (Nat.lt_of_lt_of_le hi hle))

/-- **What holds between a session and the values that it started with**, after the same calls on both. -/
structure Tracks (start k : Nat) (m : Values) (s : Session) : Prop where
  sound : s.store.Sound
  below : m.Below k
  start_le : start ≤ k
  same : m.SameUpTo start s.store.values

/-- **One call** on both. -/
theorem Tracks.call (hu : Operator.Uniform apply) (ht : Tracks start k m s) (c : Call) :
    (s.call apply c).1 = (m.call apply k c).1
      ∧ Tracks start (c.nextCopy k) (m.call apply k c).2 (s.call apply c).2 := by
  have hshow := call_shows apply ht.sound.balanced c
  obtain ⟨ρ, hfix, hρ⟩ := ht.same.there
  obtain ⟨σ, hσ⟩ := ht.same.back
  have hthere := Values.call_rename (ρ := ρ) (n := s.store.nextCopy) hu ht.below c
  have hnext : s.store.values.Below s.store.nextCopy := s.values_below.mono (Nat.le_max_right _ _)
  have hback := Values.call_rename (ρ := σ) (n := k) hu hnext c
  rw [hρ] at hthere
  rw [hσ] at hback
  constructor
  · rw [hshow.fst, hthere]
    rfl
  · refine ⟨hshow.balanced.sound, ht.below.call hu c, ?_, ?_, ?_⟩
    · have hle := ht.start_le
      cases c with
      | clone h => exact Nat.le_trans hle (Nat.le_add_left k k)
      | _ => exact hle
    · refine ⟨Values.extend ρ k s.store.nextCopy, fun i hi => ?_, ?_⟩
      · rw [Values.extend_of_lt (Nat.lt_of_lt_of_le hi ht.start_le), hfix i hi]
      · rw [hshow.values, hthere]
        rfl
    · refine ⟨Values.extend σ s.store.nextCopy k, ?_⟩
      rw [hshow.values, hback]
      rfl

/-- **All calls** on both. -/
theorem Tracks.callAll (hu : Operator.Uniform apply) (calls : List Call) :
    ∀ {k : Nat} {m : Values} {s : Session}, Tracks start k m s →
      (s.callAll apply calls).1 = (m.callAll apply k calls).1
        ∧ Tracks start (Call.nextCopyAll k calls) (m.callAll apply k calls).2
          (s.callAll apply calls).2 := by
  induction calls with
  | nil =>
    intro k m s ht
    exact ⟨rfl, ht⟩
  | cons c calls ih =>
    intro k m s ht
    obtain ⟨hone, ht'⟩ := ht.call hu c
    obtain ⟨hrest, hend⟩ := ih ht'
    exact ⟨congrArg₂ List.cons hone hrest, hend⟩

end Session

/-! ## Stores that differ in their counts -/

namespace Store

variable {s s' : Store}

/-- **The stores differ in nothing but the counts of owners.** -/
structure SameButOwners (s s' : Store) : Prop where
  handles : s'.handles = s.handles
  vertex : ∀ v, (s'.vertex? v).map (fun x => (x.payload, x.links))
    = (s.vertex? v).map fun x => (x.payload, x.links)

/-- A vertex of the one store is one of the other, up to its owners. -/
theorem SameButOwners.exists_vertex (h : SameButOwners s s') {v : VertexId} {x : Vertex}
    (hx : s.vertex? v = some x) : ∃ n, s'.vertex? v = some { x with owners := n } := by
  have hv := h.vertex v
  rw [hx, Option.map_some] at hv
  obtain ⟨⟨p, vs, n⟩, hy, heq⟩ := Option.map_eq_some_iff.mp hv
  obtain ⟨hp, hl⟩ := Prod.mk.inj heq
  exact ⟨n, by rw [hy]; exact congrArg some (by rw [← hp, ← hl])⟩

/-- **Counts do not show in the terms.** -/
theorem SameButOwners.values_eq (h : SameButOwners s s') (hs : s.Sound) : s'.values = s.values :=
  Store.values_eq hs.balanced h.handles fun _ _ ht => ht.of_owners fun _ _ hx => h.exists_vertex hx

theorem sameButOwners_addOwners (s : Store) (vs : List VertexId) :
    SameButOwners s (s.addOwners vs) where
  handles := handles_addOwners s vs
  vertex v := by
    rw [vertex?_addOwners]
    cases s.vertex? v <;> rfl

/-- Owners that are counted but not there leave a sound store sound. -/
theorem Sound.addOwners (hs : s.Sound) {vs : List VertexId} (hvs : ∀ v ∈ vs, ∃ x, s.vertex? v = some x) :
    (s.addOwners vs).Sound :=
  (hs.balanced.addOwners hvs fun _ => rfl).sound

theorem sound_doubled : doubled.Sound := ⟨closed_doubled, acyclic_doubled, exact_doubled.covered⟩

end Store

namespace Session

variable {apply : Operator.Interpretation} {s s' : Session}

/-- **Owners that are counted too often do not show.**  Let two stores be sound and differ in nothing but the
    counts of owners.  Then every sequence of calls is answered the same on both.  After it, and so after each
    call on the way, the handles have the same terms up to the numbers of functions that deep copies have made
    since; without deep copies, or without functions that have numbers, they have the very same terms. -/
theorem overcounting_unseen (hu : Operator.Uniform apply) (hs : s.store.Sound) (hs' : s'.store.Sound)
    (hsame : s.store.SameButOwners s'.store) (calls : List Call) :
    (s.callAll apply calls).1 = (s'.callAll apply calls).1
      ∧ (∃ m : Values, m.SameUpTo s.store.liveCopies (s.callAll apply calls).2.store.values
        ∧ m.SameUpTo s.store.liveCopies (s'.callAll apply calls).2.store.values)
      ∧ ((∀ h, Call.clone h ∉ calls) ∨ s.store.liveCopies = 0 →
        (s.callAll apply calls).2.store.values = (s'.callAll apply calls).2.store.values) := by
  -- both are compared with the calls on the terms that they share
  have hvalues := hsame.values_eq hs
  have htracks : Tracks s.store.liveCopies s.store.liveCopies s.store.values s :=
    ⟨hs, s.values_below, Nat.le_refl _, .refl _ _⟩
  have htracks' : Tracks s.store.liveCopies s.store.liveCopies s.store.values s' :=
    ⟨hs', s.values_below, Nat.le_refl _, hvalues ▸ .refl _ _⟩
  obtain ⟨hans, hend⟩ := htracks.callAll hu calls
  obtain ⟨hans', hend'⟩ := htracks'.callAll hu calls
  refine ⟨hans.trans hans'.symm, ⟨_, hend.same, hend'.same⟩, fun hnone => ?_⟩
  have hbelow := hend.below
  rw [Call.nextCopyAll_eq calls hnone] at hbelow
  exact (hend.same.eq hbelow).symm.trans (hend'.same.eq hbelow)

/-- The sum of a constant and itself, with one owner too many counted at both vertices. -/
def overcounted : Session := { doubled with store := doubled.store.addOwners [0, 1] }

theorem sound_overcounted : overcounted.store.Sound := by
  refine Store.sound_doubled.addOwners fun v hv => ?_
  rcases List.mem_cons.mp hv with rfl | hv
  · exact ⟨_, rfl⟩
  · obtain rfl := List.mem_singleton.mp hv
    exact ⟨_, rfl⟩

/-- Linking the sum changes it in place where the counts are exact, and a copy of it where they are not. -/
theorem overcounting_unseen_doubled :
    Operator.Uniform Operator.apply ∧ doubled.store.Sound ∧ overcounted.store.Sound
      ∧ doubled.store.SameButOwners overcounted.store
      ∧ (doubled.callAll Operator.apply [.link 0 [.tree 1, .tree 1], .clone 0, .fold 2 true]).1
        = (overcounted.callAll Operator.apply [.link 0 [.tree 1, .tree 1], .clone 0, .fold 2 true]).1 := by
  have hsame : doubled.store.SameButOwners overcounted.store :=
    Store.sameButOwners_addOwners doubled.store [0, 1]
  refine ⟨Operator.uniform_apply, Store.sound_doubled, sound_overcounted, hsame, ?_⟩
  exact (overcounting_unseen Operator.uniform_apply Store.sound_doubled sound_overcounted hsame _).1

end Session

end ExprGraph

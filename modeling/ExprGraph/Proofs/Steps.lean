import ExprGraph.Proofs.Copying
import ExprGraph.Proofs.Isolation
/-!
  What the operations do to a store.

  Every operation of a session comes down to a few steps on its store (`Store.Step`): a vertex is made, a
  handle is bound, a tree is copied, linked or folded, a handle is given back (`Session.perform_steps`).
  What each of these steps keeps is kept by every operation, so an invariant of stores is proved by cases on
  the steps and never by cases on the operations.

    * state      the store;
    * step       one change; trees are edited through given handles alone;
    * invariant  the store is balanced (`Step.balanced`), and no handle number is given out twice
                 (`Step.target?_eq_none`).
-/

namespace ExprGraph

namespace Store

variable {apply : Operator.Interpretation} {s s' s'' : Store} {loose : VertexId → Nat} {edited : Set Handle}
  {g h : Handle} {v w : VertexId} {x : Vertex}

/-! ## Growing -/

theorem pinned_addOwners (s : Store) (vs : List VertexId) : (s.addOwners vs).pinned = s.pinned := by
  induction vs generalizing s with
  | nil => rfl
  | cons v vs ih => exact ih (s.addOwner v)

/-- **A store has grown**: what was there is still there, but for owner counts, the handles given out are
    bound as they were, and the pins are the same. -/
structure Grown (s s' : Store) : Prop where
  vertex : ∀ u x, s.vertex? u = some x → ∃ n, s'.vertex? u = some { x with owners := n }
  target : ∀ g, g < s.handles.size → s'.target? g = s.target? g
  size : s.handles.size ≤ s'.handles.size
  pinned : s'.pinned = s.pinned

namespace Grown

theorem refl (s : Store) : Grown s s where
  vertex _ x hx := ⟨x.owners, hx⟩
  target _ _ := rfl
  size := Nat.le_refl _
  pinned := rfl

theorem trans (h₁ : Grown s s') (h₂ : Grown s' s'') : Grown s s'' where
  vertex u x hx := by
    obtain ⟨n, hn⟩ := h₁.vertex u x hx
    obtain ⟨m, hm⟩ := h₂.vertex u _ hn
    exact ⟨m, hm⟩
  target g hg := (h₂.target g (Nat.lt_of_lt_of_le hg h₁.size)).trans (h₁.target g hg)
  size := Nat.le_trans h₁.size h₂.size
  pinned := h₂.pinned.trans h₁.pinned

theorem addOwners (s : Store) (vs : List VertexId) : Grown s (s.addOwners vs) where
  vertex u x hx := ⟨x.owners + vs.count u, by rw [vertex?_addOwners, hx]; rfl⟩
  target g _ := target?_addOwners s vs g
  size := by rw [handles_addOwners]
  pinned := pinned_addOwners s vs

theorem insert (s : Store) (x : Vertex) : Grown s (s.insert x).2 where
  vertex u y hy := by
    have hne := Nat.ne_of_lt (lt_size_of_vertex? hy)
    exact ⟨y.owners, by rw [vertex?_insert, if_neg hne, hy]⟩
  target _ _ := rfl
  size := Nat.le_refl _
  pinned := rfl

theorem bind (s : Store) (v : VertexId) : Grown s (s.bind v).2 where
  vertex u x hx := ⟨x.owners + if v = u then 1 else 0, by rw [vertex?_bind, vertex?_addOwner, hx]; rfl⟩
  target g hg := by rw [target?_bind, if_neg (Nat.ne_of_lt hg)]
  size := by
    rw [size_handles_bind]
    exact Nat.le_succ _
  pinned := rfl

theorem reserve (s : Store) (n : Nat) : Grown s (s.reserve n) where
  vertex _ x hx := ⟨x.owners, hx⟩
  target _ _ := rfl
  size := Nat.le_refl _
  pinned := rfl

theorem make (s : Store) (p : Payload) : Grown s (s.make p).2 := (insert s _).trans (bind _ _)

end Grown

/-! ## Successful calls -/

/-- What making a linked tree comes to. -/
theorem makeLinked_eq_ok {p : Payload} {children : Option (List Handle)} {r : Handle × Store}
    (hr : s.makeLinked p children = .ok r) : ∃ vs, (children.getD []).mapM s.root = .ok vs
      ∧ r = ((s.addOwners vs).insert ⟨p, children.map fun _ => vs, 0⟩).2.bind s.vertices.size := by
  unfold makeLinked at hr
  obtain ⟨vs, hvs, hr⟩ := exists_of_bind_eq_ok hr
  have hsize : ((s.addOwners vs).insert ⟨p, children.map fun _ => vs, 0⟩).1 = s.vertices.size := by
    rw [fst_insert, size_addOwners]
  refine ⟨vs, hvs, ?_⟩
  rw [← hsize]
  exact (Except.ok.inj hr).symm

/-- What copying a tree comes to. -/
theorem clone_eq_ok {r : Handle × Store} (hr : s.clone g = .ok r) : ∃ v copies s', s.root g = .ok v
    ∧ (s.finished [v]).foldl (cloneVertex s.nextCopy) (Array.replicate s.vertices.size none, s) = (copies, s')
    ∧ r = s'.bind ((copies[v]?.join).getD v) := by
  unfold clone at hr
  obtain ⟨v, hv, hr⟩ := exists_of_bind_eq_ok hr
  exact ⟨v, _, _, hv, rfl, (Except.ok.inj hr).symm⟩

/-- What inserting the copy of a vertex and binding a handle keep, copying a tree keeps. -/
theorem clone_induction {P : Store → Prop} {r : Handle × Store} (hr : s.clone g = .ok r) (hs : P s)
    (hcopy : ∀ {s' : Store} {v : VertexId} {x : Vertex} (fresh : Nat) (f : VertexId → VertexId),
      s'.vertex? v = some x → P s' →
        P ((s'.addOwners ((x.links.map (List.map f)).getD [])).insert
          ⟨x.payload.deepCopy fresh, x.links.map (List.map f), 0⟩).2)
    (hbind : ∀ {s' : Store} (v : VertexId), P s' → P (s'.bind v).2) : P r.2 := by
  have hone : ∀ (state : Array (Option VertexId) × Store) (v : VertexId), P state.2 →
      P (cloneVertex s.nextCopy state v).2 := by
    rintro ⟨copies, s'⟩ v h
    cases hx : s'.vertex? v with
    | none =>
      simp only [cloneVertex, hx]
      exact h
    | some x =>
      simp only [cloneVertex, hx]
      exact hcopy s.nextCopy _ hx h
  obtain ⟨v, copies, s', -, hfold, rfl⟩ := clone_eq_ok hr
  have hcopied : P ((s.finished [v]).foldl (cloneVertex s.nextCopy)
      (Array.replicate s.vertices.size none, s)).2 :=
    List.foldlRecOn (motive := fun state => P state.2) _ _ hs fun state h v _ => hone state v h
  rw [hfold] at hcopied
  exact hbind _ hcopied

namespace Grown

theorem makeLinked {p : Payload} {children : Option (List Handle)} {r : Handle × Store}
    (hr : s.makeLinked p children = .ok r) : Grown s r.2 := by
  obtain ⟨vs, -, rfl⟩ := makeLinked_eq_ok hr
  exact ((addOwners s vs).trans (insert _ _)).trans (bind _ _)

theorem clone {r : Handle × Store} (hr : s.clone g = .ok r) : Grown s r.2 := by
  refine clone_induction hr (refl s) ?_ ?_
  · exact fun _ _ _ h => (h.trans (addOwners _ _)).trans (insert _ _)
  · exact fun v h => h.trans (bind _ v)

end Grown

/-! ## Steps -/

/-- **One step of an operation on a store.**  Trees are edited through the given handles only. -/
inductive Step (apply : Operator.Interpretation) (edited : Set Handle) : Store → Store → Prop where
  /-- a vertex that was never linked -/
  | make {s : Store} (p : Payload) : Step apply edited s (s.make p).2
  /-- a vertex with links -/
  | makeLinked {s : Store} {p : Payload} {children : Option (List Handle)} {r : Handle × Store}
      (hr : s.makeLinked p children = .ok r) : Step apply edited s r.2
  /-- a handle for a live vertex -/
  | bind {s : Store} {v : VertexId} {x : Vertex} (hx : s.vertex? v = some x) :
      Step apply edited s (s.bind v).2
  /-- a deep copy -/
  | clone {s : Store} {g : Handle} {r : Handle × Store} (hr : s.clone g = .ok r) : Step apply edited s r.2
  /-- other children -/
  | link {s : Store} {g : Handle} {cs : List TreeLike} {c : Changed} (hg : g ∈ edited)
      (hc : s.link g cs = .ok c) : Step apply edited s c.store
  /-- constants folded, as far as that went -/
  | fold {s : Store} {g : Handle} (hg : g ∈ edited) : Step apply edited s (s.foldWith apply g).store
  /-- a handle given back -/
  | drop {s : Store} (g : Handle) : Step apply edited s (s.drop g)
  /-- numbers taken for functions -/
  | reserve {s : Store} (n : Nat) : Step apply edited s (s.reserve n)

/-- **Steps, one after the other.** -/
abbrev Steps (apply : Operator.Interpretation) (edited : Set Handle) : Store → Store → Prop :=
  Relation.ReflTransGen (Step apply edited)

/-- What linking changes, it changes through its handle. -/
theorem Balanced.changesOnly_link (hb : s.Balanced loose) {cs : List TreeLike} {c : Changed}
    (hc : s.link g cs = .ok c) :
    c.store.Balanced loose ∧ ChangesOnly s c.store loose {.handle g} := by
  obtain ⟨m, -, ⟨w, t, hedit⟩, -⟩ := (hb.follows_link g cs).exists_of_ok hc
  exact ⟨hedit.balanced, hedit.changes⟩

/-- What folding changes, it changes through its handle. -/
theorem Balanced.changesOnly_fold (apply : Operator.Interpretation) (hb : s.Balanced loose) (g : Handle) :
    (s.foldWith apply g).store.Balanced loose
      ∧ ChangesOnly s (s.foldWith apply g).store loose {.handle g} := by
  cases hv : s.target? g with
  | none =>
    rw [foldWith_of_none hv]
    exact ⟨hb, .refl s loose _⟩
  | some v =>
    obtain ⟨t, ht, -⟩ := hb.termAt? hv
    obtain ⟨w, hedit, -⟩ := hb.foldWith apply hv ht
    exact ⟨hedit.balanced, hedit.changes⟩

/-- **A step keeps the store balanced.** -/
theorem Step.balanced (hs : Step apply edited s s') (hb : s.Balanced loose) : s'.Balanced loose := by
  cases hs with
  | make p => exact (hb.follows_make p).balanced
  | makeLinked hr =>
    obtain ⟨q, -, hq⟩ := (hb.follows_makeLinked _ _).exists_of_ok hr
    exact hq.balanced
  | bind hx => exact hb.bind hx
  | clone hr =>
    obtain ⟨q, -, hq⟩ := (hb.follows_clone _).exists_of_ok hr
    exact hq.balanced
  | link hg hc => exact (hb.changesOnly_link hc).1
  | fold hg => exact (hb.changesOnly_fold apply _).1
  | drop g => exact hb.drop.1
  | reserve n => exact hb.reserve n

/-- **A step grows the store or changes it through one handle**, which is edited or gone afterwards. -/
theorem Step.grown_or_changesOnly (hs : Step apply edited s s') (hb : s.Balanced loose) :
    Grown s s' ∨ ∃ g, ChangesOnly s s' loose {.handle g} ∧ (g ∈ edited ∨ s'.target? g = none) := by
  cases hs with
  | make p => exact .inl (.make s p)
  | makeLinked hr => exact .inl (.makeLinked hr)
  | bind hx => exact .inl (.bind s _)
  | clone hr => exact .inl (.clone hr)
  | link hg hc => exact .inr ⟨_, (hb.changesOnly_link hc).2, .inl hg⟩
  | fold hg => exact .inr ⟨_, (hb.changesOnly_fold apply _).2, .inl hg⟩
  | drop g => exact .inr ⟨g, hb.drop.2.1, .inr hb.drop.2.2⟩
  | reserve n => exact .inl (.reserve s n)

/-- A handle that was given back stays so: its number is not given out again. -/
theorem Step.target?_eq_none (hs : Step apply edited s s') (hb : s.Balanced loose)
    (hlt : h < s.handles.size) (hn : s.target? h = none) :
    h < s'.handles.size ∧ (h ∉ edited → s'.target? h = none) := by
  rcases hs.grown_or_changesOnly hb with hgrow | ⟨g, hchg, hg⟩
  · exact ⟨Nat.lt_of_lt_of_le hlt hgrow.size, fun _ => (hgrow.target h hlt).trans hn⟩
  · refine ⟨by rw [hchg.size]; exact hlt, fun hh => ?_⟩
    by_cases hgh : h = g
    · subst hgh
      rcases hg with hg | hg
      · exact absurd hg hh
      · exact hg
    · exact (hchg.handle h (by simp [hgh])).trans hn

/-! ## Several steps -/

theorem Steps.balanced (hs : Steps apply edited s s') (hb : s.Balanced loose) : s'.Balanced loose := by
  induction hs with
  | refl => exact hb
  | tail _ hstep ih => exact hstep.balanced ih

/-- Live vertices get handles one by one. -/
theorem steps_bindAll (apply : Operator.Interpretation) (edited : Set Handle) {vs : List VertexId} :
    ∀ {s : Store}, (∀ v ∈ vs, ∃ x, s.vertex? v = some x) → Steps apply edited s (s.bindAll vs).2 := by
  induction vs with
  | nil => exact fun _ => .refl
  | cons v vs ih =>
    intro s hlive
    obtain ⟨x, hx⟩ := hlive v List.mem_cons_self
    have hrest : ∀ w ∈ vs, ∃ y, (s.bind v).2.vertex? w = some y := by
      intro w hw
      obtain ⟨y, hy⟩ := hlive w (List.mem_cons_of_mem v hw)
      obtain ⟨n, hn⟩ := (Grown.bind s v).vertex w y hy
      exact ⟨_, hn⟩
    exact .head (.bind hx) (ih hrest)

/-- Handles are given back one by one. -/
theorem steps_dropAll (apply : Operator.Interpretation) (edited : Set Handle) (hs : List Handle) :
    ∀ s : Store, Steps apply edited s (s.dropAll hs) := by
  induction hs with
  | nil => exact fun _ => .refl
  | cons h hs ih => exact fun s => .head (.drop h) (ih (s.drop h))

/-- A root that is found is live. -/
theorem vertex?_of_root (hr : s.root h = .ok v) : s.target? h = some v ∧ ∃ x, s.vertex? v = some x := by
  obtain ⟨⟨w, x⟩, hx, rfl⟩ := exists_of_map_eq_ok hr
  obtain ⟨ht, hx⟩ := target?_of_behind hx
  exact ⟨ht, x, hx⟩

theorem steps_share (edited : Set Handle) {r : Handle × Store} (hr : s.share h = .ok r) :
    Steps apply edited s r.2 := by
  obtain ⟨v, hv, rfl⟩ := exists_of_map_eq_ok hr
  obtain ⟨-, x, hx⟩ := vertex?_of_root hv
  exact .single (.bind hx)

theorem steps_childHandles (edited : Set Handle) (hb : s.Balanced loose)
    {r : Option (List Handle) × Store} (hr : s.childHandles h = .ok r) : Steps apply edited s r.2 := by
  unfold childHandles at hr
  obtain ⟨⟨v, x⟩, hv, hr⟩ := exists_of_bind_eq_ok hr
  obtain ⟨t, -, -, hx, -⟩ := (hb.behind_agree h).exists_of_ok hv
  cases hl : x.links with
  | none =>
    simp only [hl] at hr
    obtain rfl := Except.ok.inj hr
    exact .refl
  | some vs =>
    simp only [hl] at hr
    obtain rfl := Except.ok.inj hr
    refine steps_bindAll apply edited fun w hw => hb.child (v := v) ?_
    rw [children_of_vertex? hx, Vertex.children, hl]
    exact hw

/-- **A new operator** is made and then linked, under a handle that was not given out before. -/
theorem steps_makeOperator {f : Operator} {cs : List TreeLike} {r : Handle × Changed}
    (hnew : s.handles.size ∈ edited) (hr : s.makeOperator f cs = .ok r) :
    Steps apply edited s r.2.store := by
  have hfst : (s.make (.op f)).1 = s.handles.size := rfl
  unfold makeOperator at hr
  obtain ⟨c, hc, hr⟩ := exists_of_bind_eq_ok hr
  obtain rfl := Except.ok.inj hr
  exact .tail (.single (.make (.op f))) (.link (hfst ▸ hnew) hc)

end Store

/-! ## Operations -/

namespace Session

variable {apply : Operator.Interpretation} {s : Session} {loose : VertexId → Nat} {edited : Set Handle}

/-- **An operation that changes nothing when it fails** leaves the session it found or the one of a success. -/
theorem settle_induction {α : Type} {motive : Session → Prop} {r : Except Fault α}
    {f : α → Reply × Session} (same : motive s) (done : ∀ a, r = .ok a → motive (f a).2) :
    motive (settle s (r.map f)).2 := by
  cases r with
  | error e => exact same
  | ok a => exact done a rfl

/-- Such an operation takes the steps of its successes. -/
theorem steps_settle {α : Type} {r : Except Fault α} {f : α → Reply × Session}
    (h : ∀ a, r = .ok a → Store.Steps apply edited s.store (f a).2.store) :
    Store.Steps apply edited s.store (settle s (r.map f)).2.store :=
  settle_induction (motive := fun s' => Store.Steps apply edited s.store s'.store) .refl h

theorem steps_makeVariable {name : Option String} {observed : Option SetId} {r : Handle × Session}
    (hr : s.makeVariable name observed = .ok r) : Store.Steps apply edited s.store r.2.store := by
  cases name with
  | none => cases hr
  | some name =>
    obtain rfl := Except.ok.inj hr
    cases observed with
    | none => exact .single (.make (.var name))
    | some i => exact .single (.make (.var name))

theorem steps_makeOperator {f : OperatorLike} {cs : List TreeLike} {r : Handle × Session}
    (hnew : s.store.handles.size ∈ edited) (hr : s.makeOperator f cs = .ok r) :
    Store.Steps apply edited s.store r.2.store := by
  unfold makeOperator at hr
  obtain ⟨f', -, hr⟩ := exists_of_bind_eq_ok hr
  obtain ⟨c, hc, hr⟩ := exists_of_bind_eq_ok hr
  obtain rfl := Except.ok.inj hr
  exact Store.steps_makeOperator hnew hc

theorem steps_builderOperator {i : BuilderId} {f : OperatorLike} {cs : List TreeLike}
    {r : Handle × Session} (hnew : s.store.handles.size ∈ edited)
    (hr : Builder.makeOperator s i f cs = .ok r) : Store.Steps apply edited s.store r.2.store := by
  unfold Builder.makeOperator at hr
  cases f with
  | named name =>
    cases hf : (s.builder i).registry.find? name with
    | none =>
      simp only [hf] at hr
      cases hr
    | some f =>
      simp only [hf] at hr
      exact steps_makeOperator hnew hr
  | operator f => exact steps_makeOperator hnew hr
  | function f => exact steps_makeOperator hnew hr
  | other kind => exact steps_makeOperator hnew hr

/-- **Publishing** takes a handle for the tree, and gives back the one published before. -/
theorem steps_define {i : BuilderId} {name : String} {t : TreeLike} {s' : Session}
    (hr : Builder.define s i name t = .ok s') : Store.Steps apply edited s.store s'.store := by
  cases t with
  | other kind => cases hr
  | tree h =>
    unfold Builder.define at hr
    obtain ⟨kept, hk, hr⟩ := exists_of_bind_eq_ok hr
    have hkept : Store.Steps apply edited s.store kept.2 := Store.steps_share edited hk
    obtain rfl := Except.ok.inj hr
    cases (s.builder i).scope.find? name with
    | none => exact hkept
    | some old => exact hkept.tail (.drop old)

theorem steps_resolve {i : BuilderId} {name : String} {r : Handle × SetId × Session}
    (hr : Builder.resolve s i name = .ok r) : Store.Steps apply edited s.store r.2.2.store := by
  unfold Builder.resolve at hr
  cases hk : (s.builder i).scope.find? name with
  | none =>
    simp only [hk] at hr
    cases hr
  | some kept =>
    simp only [hk] at hr
    obtain ⟨q, hs, hr⟩ := exists_of_bind_eq_ok hr
    obtain rfl := Except.ok.inj hr
    exact Store.steps_share edited hs

/-- The handles whose trees an operation may edit: the one it is there to edit, and those that are not given
    out yet. -/
def editable (s : Session) (op : Operation) : Set Handle := {h | op.Edits h ∨ s.store.handles.size ≤ h}

/-- **Every operation takes steps on the store**, whether or not it succeeds. -/
theorem perform_steps (apply : Operator.Interpretation) (hb : s.store.Balanced loose) (op : Operation) :
    Store.Steps apply (s.editable op) s.store (s.perform apply op).2.store := by
  have hnew : s.store.handles.size ∈ s.editable op := .inr (Nat.le_refl _)
  cases op with
  | constantLeaf v => exact .single (.make (.const v))
  | variableLeaf name observed => exact steps_settle fun r hr => steps_makeVariable hr
  | operator f cs => exact steps_settle fun r hr => steps_makeOperator hnew hr
  | vertex p => exact .single (.make p)
  | linked p children => exact steps_settle fun r hr => .single (.makeLinked hr)
  | share h => exact steps_settle fun r hr => Store.steps_share _ hr
  | children h => exact steps_settle fun r hr => Store.steps_childHandles _ hb hr
  | occurrences h =>
    refine steps_settle fun v hv => Store.steps_bindAll apply _ fun w hw => ?_
    -- the occurrences are listed by the walk, and all of them are live
    obtain ⟨-, x, hx⟩ := Store.vertex?_of_root hv
    obtain ⟨t, ht⟩ := hb.unfolds v x hx
    rw [ht.postOrder_eq] at hw
    exact ht.live_of_mem_walk hw
  | clone h => exact steps_settle fun r hr => .single (.clone hr)
  | link h cs =>
    refine steps_settle fun s' hs' => ?_
    obtain ⟨c, hc, rfl⟩ := exists_of_map_eq_ok hs'
    exact .single (.link (.inl rfl) hc)
  | fold h summary =>
    show Store.Steps apply _ s.store (s.foldWith apply h summary).2.store
    rw [store_foldWith]
    exact .single (.fold (.inl rfl))
  | nameSet names => exact .refl
  | builder adopted operators => cases adopted <;> exact .single (.reserve _)
  | builderVariable i name => exact steps_settle fun r hr => steps_makeVariable hr
  | builderOperator i f cs => exact steps_settle fun r hr => steps_builderOperator hnew hr
  | register i f name =>
    refine steps_settle fun r hr => ?_
    unfold Builder.register at hr
    obtain ⟨f', -, hr⟩ := exists_of_bind_eq_ok hr
    obtain rfl := Except.ok.inj hr
    exact .single (.reserve _)
  | define i name t => exact steps_settle fun s' hs' => steps_define hs'
  | resolve i name => exact steps_settle fun r hr => steps_resolve hr
  | dismiss i => exact Store.steps_dropAll apply _ _ s.store
  | drop h => exact .single (.drop h)

/-- **What every operation keeps in a balanced store holds after every run**, and the store is balanced. -/
theorem balanced_run_induction {motive : Session → Prop} (empty : motive .empty)
    (step : ∀ s op, s.store.Balanced (fun _ => 0) → motive s → motive (s.perform apply op).2)
    (ops : List Operation) : (run apply ops).store.Balanced (fun _ => 0) ∧ motive (run apply ops) := by
  refine run_induction (motive := fun s => s.store.Balanced (fun _ => 0) ∧ motive s) ⟨.empty, empty⟩
    (fun s op hs => ?_) ops
  have hsteps := perform_steps apply hs.1 op
  exact ⟨hsteps.balanced hs.1, step s op hs.1 hs.2⟩

end Session

end ExprGraph

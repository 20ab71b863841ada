import ExprGraph.Construction
import ExprGraph.Proofs.CopyOnWrite
import ExprGraph.Proofs.Operations
/-!
  What a construction comes to that is carried out step by step.

  A construction checks and steps by turns.  Most have all their checks in front; an operator is made before
  its children are looked at, and when they are refused, its vertex has to go again.

  Main statement: a construction comes to what the operation does in one go, or fails as the operation does and
  leaves nothing that can be seen, unless the number of a new vertex is pinned (`Construction.carriesOut`).

    * state      the session;
    * step       a check that fails leaves what there is, and a part that comes to something may be followed by
                 another (`Action.ComesTo.andThen`);
    * invariant  what was there is still there, and nothing else is bound to anything (`Session.Untouched`).
-/

namespace ExprGraph

/-! ## What can be seen -/

/-- **The same vertices under the same handles**; there may be more numbers that are not in use any more. -/
structure Store.Same (s s' : Store) : Prop where
  vertex : ∀ v, s'.vertex? v = s.vertex? v
  target : ∀ h, s'.target? h = s.target? h
  pinned : s'.pinned = s.pinned

/-- **Nothing has changed that can be seen.** -/
structure Session.Untouched (s s' : Session) : Prop where
  store : s.store.Same s'.store
  log : s'.log = s.log
  sets : s'.sets = s.sets
  builders : s'.builders = s.builders

namespace Store

variable {s s' : Store} {v : VertexId} {loose : VertexId → Nat}

theorem Same.refl (s : Store) : s.Same s := ⟨fun _ => rfl, fun _ => rfl, rfl⟩

/-- Sums of the same contributions agree wherever they end, when nothing comes after that. -/
theorem sum_range_congr {f g : Nat → Nat} {m n : Nat} (hfg : ∀ i, g i = f i) (hf : ∀ i, m ≤ i → f i = 0)
    (hg : ∀ i, n ≤ i → g i = 0) : ∑ i ∈ Finset.range n, g i = ∑ i ∈ Finset.range m, f i := by
  rw [← Finset.eventually_constant_sum hg (Nat.le_max_right m n),
    ← Finset.eventually_constant_sum hf (Nat.le_max_left m n)]
  exact Finset.sum_congr rfl fun i _ => hfg i

theorem target?_of_size_le {h : Handle} (hh : s.handles.size ≤ h) : s.target? h = none := by
  rw [target?, Array.getElem?_eq_none hh]
  rfl

theorem children_of_size_le (hv : s.vertices.size ≤ v) : s.children v = [] := by
  refine children_of_none ?_
  rw [vertex?, Array.getElem?_eq_none hv]
  rfl

theorem Same.children_eq (hs : s.Same s') (v : VertexId) : s'.children v = s.children v := by
  unfold children
  rw [hs.vertex]

/-- **What is bound to a vertex can be seen.** -/
theorem Same.bound_eq (hs : s.Same s') (v : VertexId) : s'.bound v = s.bound v := by
  have hunbound : ∀ (s : Store) (h : Handle), s.handles.size ≤ h →
      (if s.target? h = some v then 1 else 0) = 0 := by
    intro s h hh
    rw [target?_of_size_le hh]
    rfl
  have hnolinks : ∀ (s : Store) (u : VertexId), s.vertices.size ≤ u → (s.children u).count v = 0 := by
    intro s u hu
    rw [children_of_size_le hu]
    rfl
  have hhandles : s'.handleCount v = s.handleCount v :=
    sum_range_congr (fun h => by rw [hs.target]) (hunbound s) (hunbound s')
  have hlinks : s'.linkCount v = s.linkCount v :=
    sum_range_congr (fun u => by rw [hs.children_eq]) (hnolinks s) (hnolinks s')
  rw [bound, hhandles, hlinks, bound]

/-- A store that looks the same is as well balanced. -/
theorem Same.balanced (hs : s.Same s') (hb : s.Balanced loose) : s'.Balanced loose where
  handle_live h v ht := by
    rw [hs.target] at ht
    rw [hs.vertex]
    exact hb.handle_live h v ht
  loose_live v hv := by
    rw [hs.vertex]
    exact hb.loose_live v hv
  unfolds v x hx := by
    rw [hs.vertex] at hx
    obtain ⟨t, ht⟩ := hb.unfolds v x hx
    refine ⟨t, ht.transport (fun _ => True) (fun w y _ hy => ?_) trivial⟩
    exact ⟨⟨y.owners, by rw [hs.vertex, hy]⟩, fun _ _ => trivial⟩
  owners v x hx := by
    rw [hs.vertex] at hx
    rw [hs.bound_eq, hb.owners v x hx]

end Store

namespace Session.Untouched

theorem refl {s : Session} : s.Untouched s := ⟨.refl _, rfl, rfl, rfl⟩

theorem of_eq {s s' : Session} (h : s' = s) : s.Untouched s' := h ▸ refl

end Session.Untouched

namespace Store

variable {s s' : Store} {v : VertexId}

/-! ## A vertex made for nothing -/

/-- A new vertex is the one that was not in use. -/
theorem vertex?_make (s : Store) (p : Payload) (v : VertexId) :
    (s.make p).2.vertex? v = if v = s.vertices.size then some ⟨p, none, 1⟩ else s.vertex? v := by
  show ((s.insert ⟨p, none, 0⟩).2.addOwner s.vertices.size).vertex? v = _
  rw [vertex?_addOwner, vertex?_insert]
  by_cases hv : v = s.vertices.size
  · rw [if_pos hv, if_pos hv, Option.map_some, if_pos hv.symm]
  · rw [if_neg hv, if_neg hv, if_neg fun e => hv e.symm]
    cases s.vertex? v <;> rfl

theorem target?_make (s : Store) (p : Payload) (h : Handle) :
    (s.make p).2.target? h = if h = s.handles.size then some s.vertices.size else s.target? h :=
  target?_bind (s.insert ⟨p, none, 0⟩).2 s.vertices.size h

/-- **A new vertex whose handle is given back goes**, unless its number is pinned. -/
theorem same_drop_make (hfree : s.vertices.size ∉ s.pinned) (p : Payload) :
    s.Same ((s.make p).2.drop s.handles.size) := by
  have htarget : (s.make p).2.target? s.handles.size = some s.vertices.size := by
    rw [target?_make, if_pos rfl]
  have hvertex : ((s.make p).2.unbound s.handles.size).vertex? s.vertices.size = some ⟨p, none, 1⟩ := by
    show (s.make p).2.vertex? s.vertices.size = _
    rw [vertex?_make, if_pos rfl]
  have hgone : ((s.make p).2.unbound s.handles.size).release [s.vertices.size]
      = ((s.make p).2.unbound s.handles.size).erase s.vertices.size := by
    rw [release_last hvertex ⟨Nat.le_refl 1, hfree⟩]
    exact release.eq_def _ _
  rw [drop_eq htarget, hgone]
  refine ⟨fun v => ?_, fun h => ?_, rfl⟩
  · rw [vertex?_erase]
    by_cases hv : s.vertices.size = v
    · rw [if_pos hv, ← hv, vertex?_size]
    · rw [if_neg hv]
      show (s.make p).2.vertex? v = _
      rw [vertex?_make, if_neg fun e => hv e.symm]
  · show ((s.make p).2.unbound s.handles.size).target? h = _
    rw [target?_unbound, target?_make]
    by_cases hh : s.handles.size = h
    · rw [if_pos hh, ← hh, target?_of_size_le (Nat.le_refl _)]
    · rw [if_neg hh, if_neg fun e => hh e.symm]

/-- A vertex behind a handle can be taken for the handle alone. -/
theorem exists_makeSole {h : Handle} {x : Vertex} (hvx : s.behind h = .ok (v, x)) (vs : List VertexId) :
    ∃ w c, (s.addOwners vs).makeSole (.handle h) = (some w, c) := by
  obtain ⟨ht, hx⟩ := target?_of_behind hvx
  have hat : (s.addOwners vs).at? (.handle h) = some v := (target?_addOwners s vs h).trans ht
  have hx' : (s.addOwners vs).vertex? v = some { x with owners := x.owners + vs.count v } := by
    rw [vertex?_addOwners, hx]
    rfl
  by_cases hle : x.owners + vs.count v ≤ 1
  · exact ⟨_, _, makeSole_of_le hat hx' hle⟩
  · exact ⟨_, _, makeSole_of_lt hat hx' hle⟩

end Store

/-! ## Actions -/

namespace Action

variable {α β ρ : Type} {s s' : Session} {kept : Session → Prop} {next : α → Action β}

theorem bind_apply (c : Action α) (next : α → Action β) (s : Session) :
    (c >>= next) s = andThen (c s) next := rfl

/-- **What an action leaves is what a call comes to in one go**: the result and the session of the call, or its
    fault and a session with a property. -/
structure ComesTo (kept : Session → Prop) (left : Except Fault α × Session) (call : Except Fault ρ)
    (finish : ρ → α × Session) : Prop where
  ok : ∀ r, call = .ok r → left = (.ok (finish r).1, (finish r).2)
  error : ∀ e, call = .error e → ∃ s', left = (.error e, s') ∧ kept s'

variable {left : Except Fault α × Session} {call : Except Fault ρ} {finish : ρ → α × Session}

theorem comesTo_ok {r : ρ} (h : left = (.ok (finish r).1, (finish r).2)) : ComesTo kept left (.ok r) finish where
  ok r' hr := by
    obtain rfl := Except.ok.inj hr
    exact h
  error e he := by cases he

theorem comesTo_error {e : Fault} (hs : kept s) : ComesTo kept (.error e, s) (.error e) finish where
  ok r hr := by cases hr
  error e' he := by
    obtain rfl := Except.error.inj he
    exact ⟨s, rfl, hs⟩

/-- **One part after the other.** -/
theorem ComesTo.andThen {σ : Type} {onward : ρ → Except Fault σ} {whole : σ → β × Session}
    (h : ComesTo kept left call finish)
    (hnext : ∀ r, call = .ok r → ComesTo kept (next (finish r).1 (finish r).2) (onward r) whole) :
    ComesTo kept (andThen left next) (call >>= onward) whole := by
  cases hr : call with
  | error e =>
    obtain ⟨s', hleft, hs'⟩ := h.error e hr
    rw [hleft]
    exact comesTo_error hs'
  | ok r =>
    rw [h.ok r hr]
    exact hnext r hr

/-- A check comes first, or a question. -/
theorem comesTo_andThen {q : Except Fault α} {onward : α → Except Fault ρ} {whole : ρ → β × Session}
    (hs : kept s) (hnext : ∀ a, q = .ok a → ComesTo kept (next a s) (onward a) whole) :
    ComesTo kept (andThen (q, s) next) (q >>= onward) whole := by
  have hcheck : ComesTo kept (q, s) q fun a => (a, s) := by
    cases q with
    | error e => exact comesTo_error hs
    | ok a => exact comesTo_ok rfl
  exact hcheck.andThen hnext

theorem ComesTo.mono {kept' : Session → Prop} (h : ComesTo kept left call finish)
    (hkept : ∀ s', kept s' → kept' s') : ComesTo kept' left call finish where
  ok := h.ok
  error e he := by
    obtain ⟨s', hleft, hs'⟩ := h.error e he
    exact ⟨s', hleft, hkept s' hs'⟩

/-- Two changes, one after the other, are one change. -/
theorem change_change (s : Session) (c₁ c₂ : Store.Changed) :
    (s.change c₁).change c₂ = s.change ⟨c₂.store, c₁.notes ++ c₂.notes⟩ := by
  have hlog : (s.log.sayAll (c₁.notes.map Note.message)).sayAll (c₂.notes.map Note.message)
      = s.log.sayAll ((c₁.notes ++ c₂.notes).map Note.message) := by
    rw [Log.sayAll, Log.sayAll, Log.sayAll, List.map_append, List.foldl_append]
  simp only [Session.change, hlog]

theorem makeSole_of_ok {h : Handle} {w : VertexId} {c : Store.Changed}
    (hsole : s.store.makeSole (.handle h) = (some w, c)) : makeSole h s = (.ok w, s.change c) := by
  simp only [makeSole, bind_apply, stepInStore, hsole]
  rfl

/-- **Linking.** -/
theorem comesTo_link (s : Session) (h : Handle) (cs : List TreeLike) :
    ComesTo (· = s) (link h cs s) (s.store.link h cs) fun c => ((), s.change c) := by
  refine comesTo_andThen rfl fun hs _ => ?_
  refine comesTo_andThen rfl fun r hr => ?_
  obtain ⟨v, x⟩ := r
  refine comesTo_andThen rfl fun _ _ => ?_
  refine comesTo_andThen rfl fun vs _ => ?_
  -- all that was to be checked is checked, and the rest is sure
  obtain ⟨w, c, hsole⟩ := Store.exists_makeSole hr vs
  have hmade := makeSole_of_ok (s := s.change ⟨s.store.addOwners vs, Store.inertNote x.payload hs.length⟩) hsole
  rw [change_change] at hmade
  simp only [hsole]
  refine comesTo_ok ?_
  show andThen (makeSole h (s.change ⟨s.store.addOwners vs, Store.inertNote x.payload hs.length⟩))
    (fun v => stepInStore fun s => ((), s.overwrite v x.payload (some vs))) = _
  rw [hmade]
  rfl

/-- An action that gives a handle back when it fails. -/
theorem ComesTo.orDrop {kept' : Session → Prop} {c : Action α} {h : Handle} (hc : ComesTo kept (c s) call finish)
    (hkept : ∀ s', kept s' → kept' { s' with store := s'.store.drop h }) :
    ComesTo kept' (orDrop h c s) call finish where
  ok r hr := by
    simp only [Action.orDrop, hc.ok r hr]
  error e he := by
    obtain ⟨s', hleft, hs'⟩ := hc.error e he
    refine ⟨_, ?_, hkept s' hs'⟩
    simp only [Action.orDrop, hleft]

/-- **A new operator vertex**: when its children are refused, it goes again. -/
theorem comesTo_makeOperator (hfree : s.store.vertices.size ∉ s.store.pinned) (f : OperatorLike)
    (cs : List TreeLike) : ComesTo s.Untouched (makeOperator f cs s) (s.makeOperator f cs) id := by
  refine comesTo_andThen .refl fun f _ => ?_
  have hlink := comesTo_link { s with store := (s.store.make (.op f)).2 } s.store.handles.size cs
  have hcall : (s.store.makeOperator f cs >>= fun made => return (made.1, s.change made.2))
      = ((s.store.make (.op f)).2.link s.store.handles.size cs >>= fun c =>
          return (s.store.handles.size, s.change c)) := by
    show ((s.store.make (.op f)).2.link s.store.handles.size cs >>= _) >>= _ = _
    cases (s.store.make (.op f)).2.link s.store.handles.size cs <;> rfl
  show ComesTo _ _ (s.store.makeOperator f cs >>= fun made => return (made.1, s.change made.2)) id
  rw [hcall]
  refine (hlink.orDrop fun s' hs' => ?_).andThen fun c _ => comesTo_ok rfl
  obtain rfl := hs'
  exact ⟨Store.same_drop_make hfree _, rfl, rfl, rfl⟩

theorem comesTo_makeVariable (s : Session) (name : Option String) (observed : Option SetId) :
    ComesTo (· = s) (makeVariable name observed s) (s.makeVariable name observed) id := by
  cases name with
  | none => exact comesTo_error rfl
  | some name => cases observed <;> exact comesTo_ok rfl

theorem comesTo_share (s : Session) (h : Handle) :
    ComesTo (· = s) (share h s) (s.store.share h) fun r => (r.1, { s with store := r.2 }) := by
  show ComesTo _ (Action.andThen (s.store.root h, s) _) ((s.store.root h).map s.store.bind) _
  cases s.store.root h with
  | error e => exact comesTo_error rfl
  | ok v => exact comesTo_ok rfl

theorem comesTo_builderOperator (hfree : s.store.vertices.size ∉ s.store.pinned) (i : BuilderId)
    (f : OperatorLike) (cs : List TreeLike) :
    ComesTo s.Untouched (builderOperator i f cs s) (Session.Builder.makeOperator s i f cs) id := by
  cases f with
  | named name =>
    simp only [builderOperator, Session.Builder.makeOperator, bind_apply, ask]
    cases (s.builder i).registry.find? name with
    | none => exact comesTo_error .refl
    | some f => exact comesTo_makeOperator hfree (.operator f) cs
  | operator f => exact comesTo_makeOperator hfree (.operator f) cs
  | function f => exact comesTo_makeOperator hfree (.function f) cs
  | other kind => exact comesTo_makeOperator hfree (.other kind) cs

theorem comesTo_register (s : Session) (i : BuilderId) (f : OperatorLike) (name : Option String) :
    ComesTo (· = s) (register i f name s) (Session.Builder.register s i f name) id :=
  comesTo_andThen rfl fun _ _ => comesTo_ok rfl

theorem comesTo_define (s : Session) (i : BuilderId) (name : String) (t : TreeLike) :
    ComesTo (· = s) (define i name t s) (Session.Builder.define s i name t) fun s' => ((), s') := by
  cases t with
  | other kind => exact comesTo_error rfl
  | tree h =>
    refine (comesTo_share s h).andThen fun r _ => ?_
    show ComesTo _ (Action.andThen (.ok ((s.builder i).scope.find? name), { s with store := r.2 }) _) _ _
    cases (s.builder i).scope.find? name <;> exact comesTo_ok rfl

theorem comesTo_resolve (s : Session) (i : BuilderId) (name : String) :
    ComesTo (· = s) (resolve i name s) (Session.Builder.resolve s i name) fun r => ((r.1, r.2.1), r.2.2) := by
  simp only [resolve, Session.Builder.resolve, bind_apply, ask]
  cases (s.builder i).scope.find? name with
  | none => exact comesTo_error rfl
  | some kept => exact (comesTo_share s kept).andThen fun r _ => comesTo_ok rfl

/-- **An attempt has the outcome of an operation that is performed in one go**, and leaves the same session, or,
    when it fails, one with a property. -/
structure AsOne (kept : Session → Prop) (left one : Except Fault α × Session) : Prop where
  outcome : left.1 = one.1
  ok : ∀ a, one.1 = .ok a → left.2 = one.2
  error : ∀ e, one.1 = .error e → kept left.2

/-- The result in another form. -/
theorem ComesTo.map {c : Action α} (h : ComesTo kept (c s) call finish) (f : α → β) :
    ComesTo kept ((c >>= fun a => pure (f a)) s) call fun r => (f (finish r).1, (finish r).2) where
  ok r hr := by
    rw [bind_apply, h.ok r hr]
    rfl
  error e he := by
    obtain ⟨s', hleft, hs'⟩ := h.error e he
    rw [bind_apply, hleft]
    exact ⟨s', rfl, hs'⟩

theorem ComesTo.of_map {σ : Type} {f : ρ → σ} {whole : σ → α × Session}
    (h : ComesTo kept left call fun r => whole (f r)) : ComesTo kept left (call.map f) whole := by
  cases call with
  | error e =>
    obtain ⟨s', rfl, hs'⟩ := h.error e rfl
    exact comesTo_error hs'
  | ok r => exact comesTo_ok (h.ok r rfl)

theorem ComesTo.settle {left : Except Fault Reply × Session} {finish : ρ → Reply × Session}
    (h : ComesTo kept left call finish) : AsOne kept left (settle s (call.map finish)) := by
  cases call with
  | error e =>
    obtain ⟨s', rfl, hs'⟩ := h.error e rfl
    refine ⟨rfl, fun a ha => ?_, fun _ _ => hs'⟩
    cases ha
  | ok r =>
    rw [h.ok r rfl]
    refine ⟨rfl, fun _ _ => rfl, fun e he => ?_⟩
    cases he

end Action

/-! ## Constructions -/

/-- **A call that builds trees.** -/
inductive Construction where
  | vertex (x : PayloadLike)
  | constantLeaf (v : Value)
  | variableLeaf (name : Option String) (observed : Option SetId)
  | operator (f : OperatorLike) (cs : List TreeLike)
  | link (h : Handle) (cs : List TreeLike)
  | builderVariable (i : BuilderId) (name : Option String)
  | builderOperator (i : BuilderId) (f : OperatorLike) (cs : List TreeLike)
  | register (i : BuilderId) (f : OperatorLike) (name : Option String)
  | define (i : BuilderId) (name : String) (t : TreeLike)
  | resolve (i : BuilderId) (name : String)

namespace Construction

/-- **What the call does**, step by step. -/
def action : Construction → Action Reply
  | vertex x => do return .handle (← Action.vertex x)
  | constantLeaf v => do return .handle (← Action.makeConstant v)
  | variableLeaf name observed => do return .handle (← Action.makeVariable name observed)
  | operator f cs => do return .handle (← Action.makeOperator f cs)
  | link h cs => do
    Action.link h cs
    return .done
  | builderVariable i name => do return .handle (← Action.builderVariable i name)
  | builderOperator i f cs => do return .handle (← Action.builderOperator i f cs)
  | register i f name => do return .operator (← Action.register i f name)
  | define i name t => do
    Action.define i name t
    return .done
  | resolve i name => do
    let found ← Action.resolve i name
    return .resolved found.1 found.2

/-- The operation that does it in one go; of what is no payload no vertex is made. -/
def operation : Construction → Except Fault Operation
  | vertex (.payload p) => .ok (.vertex p)
  | vertex (.other kind) => .error (.payloadExpected kind)
  | constantLeaf v => .ok (.constantLeaf v)
  | variableLeaf name observed => .ok (.variableLeaf name observed)
  | operator f cs => .ok (.operator f cs)
  | link h cs => .ok (.link h cs)
  | builderVariable i name => .ok (.builderVariable i name)
  | builderOperator i f cs => .ok (.builderOperator i f cs)
  | register i f name => .ok (.register i f name)
  | define i name t => .ok (.define i name t)
  | resolve i name => .ok (.resolve i name)

/-- The operation performed, if there is one. -/
def inOneGo (apply : Operator.Interpretation) (s : Session) (c : Construction) : Except Fault Reply × Session :=
  match c.operation with
  | .ok op => s.perform apply op
  | .error e => (.error e, s)

/-- **A construction carried out step by step** has the outcome of the operation performed in one go.  It leaves
    the same session, or, when it fails, nothing that can be seen. -/
theorem carriesOut (apply : Operator.Interpretation) {s : Session}
    (hfree : s.store.vertices.size ∉ s.store.pinned) (c : Construction) :
    Action.AsOne s.Untouched (c.action s) (c.inOneGo apply s) := by
  -- what fails in front of all steps leaves the session itself
  have hsame : ∀ {α ρ : Type} {left : Except Fault α × Session} {call : Except Fault ρ}
      {finish : ρ → α × Session},
      Action.ComesTo (· = s) left call finish → Action.ComesTo s.Untouched left call finish :=
    fun h => h.mono fun s' => Session.Untouched.of_eq
  cases c with
  | vertex x =>
    cases x with
    | payload p => exact ⟨rfl, fun _ _ => rfl, fun _ he => (by cases he)⟩
    | other kind => exact ⟨rfl, fun _ ha => (by cases ha), fun _ _ => .refl⟩
  | constantLeaf v => exact ⟨rfl, fun _ _ => rfl, fun _ he => (by cases he)⟩
  | variableLeaf name observed => exact ((hsame (Action.comesTo_makeVariable s name observed)).map _).settle
  | operator f cs => exact ((Action.comesTo_makeOperator hfree f cs).map _).settle
  | link h cs => exact ((hsame (Action.comesTo_link s h cs)).map _).of_map.settle
  | builderVariable i name =>
    exact ((hsame (Action.comesTo_makeVariable s name (some (s.builder i).names))).map Reply.handle).settle
  | builderOperator i f cs => exact ((Action.comesTo_builderOperator hfree i f cs).map _).settle
  | register i f name => exact ((hsame (Action.comesTo_register s i f name)).map _).settle
  | define i name t => exact ((hsame (Action.comesTo_define s i name t)).map _).settle
  | resolve i name => exact ((hsame (Action.comesTo_resolve s i name)).map _).settle

end Construction

end ExprGraph

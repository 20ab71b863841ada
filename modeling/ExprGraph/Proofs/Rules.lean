import ExprGraph.Proofs.Touring
/-!
  Rules about stores.

  What is done to a store comes down to nine things.  Two of them put a payload into a new vertex, and a rule
  may bear some payloads only: those of new vertices without links (`made`), and those of vertices that are made
  together with their links, which nothing checks (`linked`).

  Main statement: a rule that each of the nine keeps holds after every event that puts in no other payloads
  (`Store.Rule.step`).

    * state      the store of a session with walks in progress;
    * step       an event;
    * invariant  any rule that is kept (`Store.Rule`).
-/

namespace ExprGraph

/-- **What an operation puts into vertices of its own**, made without links or together with them. -/
def Operation.Puts (made linked : Payload → Prop) : Operation → Prop
  | .constantLeaf v => made (.const v)
  | .variableLeaf (some name) _ => made (.var name)
  | .builderVariable _ (some name) => made (.var name)
  | .operator _ _ => ∀ f, made (.op f)
  | .builderOperator _ _ _ => ∀ f, made (.op f)
  | .vertex p => made p
  | .linked p _ => linked p
  | _ => True

/-- What an event puts into vertices of its own. -/
def Event.Puts (made linked : Payload → Prop) : Event → Prop
  | .perform op => op.Puts made linked
  | _ => True

namespace Store

/-- **A rule about stores that survives** whatever is done to a store, when only certain payloads are put in. -/
structure Rule (apply : Operator.Interpretation) (made linked : Payload → Prop) (I : Store → Prop) : Prop where
  make : ∀ {s : Store} {p : Payload}, made p → I s → I (s.make p).2
  makeLinked : ∀ {s : Store} {p : Payload} {children : Option (List Handle)} {r : Handle × Store}, linked p →
    s.makeLinked p children = .ok r → I s → I r.2
  bind : ∀ {s : Store} (v : VertexId), I s → I (s.bind v).2
  clone : ∀ {s : Store} {g : Handle} {r : Handle × Store}, s.clone g = .ok r → I s → I r.2
  link : ∀ {s : Store} {g : Handle} {cs : List TreeLike} {c : Changed},
    s.link g cs = .ok c → I s → I c.store
  fold : ∀ {s : Store} (g : Handle), I s → I (s.foldWith apply g).store
  drop : ∀ {s : Store} (g : Handle), I s → I (s.drop g)
  repin : ∀ {s : Store} (pins : List VertexId), I s → I (s.repin pins)
  reserve : ∀ {s : Store} (n : Nat), I s → I (s.reserve n)

namespace Rule

open Session

variable {apply : Operator.Interpretation} {made linked : Payload → Prop} {I : Store → Prop} {s : Store}

/-! ## Several handles -/

theorem bindAll (hI : Rule apply made linked I) (vs : List VertexId) (hs : I s) : I (s.bindAll vs).2 := by
  induction vs generalizing s with
  | nil => exact hs
  | cons v vs ih => exact ih (hI.bind v hs)

theorem dropAll (hI : Rule apply made linked I) (hs : List Handle) (h : I s) : I (s.dropAll hs) := by
  induction hs generalizing s with
  | nil => exact h
  | cons g hs ih => exact ih (hI.drop g h)

theorem share (hI : Rule apply made linked I) {h : Handle} {r : Handle × Store} (hr : s.share h = .ok r)
    (hs : I s) : I r.2 := by
  obtain ⟨v, -, rfl⟩ := exists_of_map_eq_ok hr
  exact hI.bind v hs

theorem childHandles (hI : Rule apply made linked I) {h : Handle} {r : Option (List Handle) × Store}
    (hr : s.childHandles h = .ok r) (hs : I s) : I r.2 := by
  unfold Store.childHandles at hr
  obtain ⟨⟨v, x⟩, -, hr⟩ := exists_of_bind_eq_ok hr
  simp only at hr
  split at hr
  · obtain rfl := Except.ok.inj hr
    exact hs
  · obtain rfl := Except.ok.inj hr
    exact hI.bindAll _ hs

theorem makeOperator (hI : Rule apply made linked I) (hop : ∀ f, made (.op f)) {f : Operator}
    {cs : List TreeLike} {r : Handle × Changed} (hr : s.makeOperator f cs = .ok r) (hs : I s) :
    I r.2.store := by
  unfold Store.makeOperator at hr
  obtain ⟨c, hc, hr⟩ := exists_of_bind_eq_ok hr
  obtain rfl := Except.ok.inj hr
  exact hI.link hc (hI.make (hop f) hs)

/-! ## Operations -/

variable {s : Session}

theorem makeVariable (hI : Rule apply made linked I) {name : Option String} {observed : Option SetId}
    (hname : ∀ x, name = some x → made (.var x)) {r : Handle × Session}
    (hr : s.makeVariable name observed = .ok r) (hs : I s.store) : I r.2.store := by
  cases name with
  | none => cases hr
  | some name =>
    have hmade := hI.make (hname name rfl) hs
    obtain rfl := Except.ok.inj hr
    cases observed <;> exact hmade

theorem makeNamedOperator (hI : Rule apply made linked I) (hop : ∀ f, made (.op f)) {f : OperatorLike}
    {cs : List TreeLike} {r : Handle × Session} (hr : s.makeOperator f cs = .ok r) (hs : I s.store) :
    I r.2.store := by
  unfold Session.makeOperator at hr
  obtain ⟨f', -, hr⟩ := exists_of_bind_eq_ok hr
  obtain ⟨c, hc, hr⟩ := exists_of_bind_eq_ok hr
  obtain rfl := Except.ok.inj hr
  exact hI.makeOperator hop hc hs

theorem builderOperator (hI : Rule apply made linked I) (hop : ∀ f, made (.op f)) {i : BuilderId}
    {f : OperatorLike} {cs : List TreeLike} {r : Handle × Session}
    (hr : Builder.makeOperator s i f cs = .ok r) (hs : I s.store) : I r.2.store := by
  unfold Builder.makeOperator at hr
  cases f with
  | named name =>
    cases hf : (s.builder i).registry.find? name with
    | none =>
      simp only [hf] at hr
      cases hr
    | some f =>
      simp only [hf] at hr
      exact hI.makeNamedOperator hop hr hs
  | operator f => exact hI.makeNamedOperator hop hr hs
  | function f => exact hI.makeNamedOperator hop hr hs
  | other kind => exact hI.makeNamedOperator hop hr hs

theorem define (hI : Rule apply made linked I) {i : BuilderId} {name : String} {t : TreeLike} {s' : Session}
    (hr : Builder.define s i name t = .ok s') (hs : I s.store) : I s'.store := by
  cases t with
  | other kind => cases hr
  | tree h =>
    unfold Builder.define at hr
    obtain ⟨kept, hk, hr⟩ := exists_of_bind_eq_ok hr
    have hkept : I kept.2 := hI.share hk hs
    obtain rfl := Except.ok.inj hr
    cases (s.builder i).scope.find? name with
    | none => exact hkept
    | some old => exact hI.drop old hkept

theorem resolve (hI : Rule apply made linked I) {i : BuilderId} {name : String}
    {r : Handle × SetId × Session} (hr : Builder.resolve s i name = .ok r) (hs : I s.store) :
    I r.2.2.store := by
  unfold Builder.resolve at hr
  cases hk : (s.builder i).scope.find? name with
  | none =>
    simp only [hk] at hr
    cases hr
  | some kept =>
    simp only [hk] at hr
    obtain ⟨q, hq, hr⟩ := exists_of_bind_eq_ok hr
    obtain rfl := Except.ok.inj hr
    exact hI.share hq hs

/-- An operation that succeeds or changes nothing keeps what its success keeps. -/
theorem settle {α : Type} {r : Except Fault α} {f : α → Reply × Session} (hs : I s.store)
    (h : ∀ a, r = .ok a → I (f a).2.store) : I (ExprGraph.settle s (r.map f)).2.store :=
  settle_induction (motive := fun s' => I s'.store) hs h

/-- **Every operation keeps the rule** that puts in payloads the rule bears, whether or not it succeeds. -/
theorem perform (hI : Rule apply made linked I) {op : Operation} (hop : op.Puts made linked)
    (hs : I s.store) : I (s.perform apply op).2.store := by
  cases op with
  | constantLeaf v => exact hI.make hop hs
  | variableLeaf name observed =>
    refine settle hs fun r hr => hI.makeVariable ?_ hr hs
    rintro x rfl
    exact hop
  | operator f cs => exact settle hs fun r hr => hI.makeNamedOperator hop hr hs
  | vertex p => exact hI.make hop hs
  | linked p children => exact settle hs fun r hr => hI.makeLinked hop hr hs
  | share h => exact settle hs fun r hr => hI.share hr hs
  | children h => exact settle hs fun r hr => hI.childHandles hr hs
  | occurrences h => exact settle hs fun v _ => hI.bindAll _ hs
  | clone h => exact settle hs fun r hr => hI.clone hr hs
  | link h cs =>
    refine settle hs fun s' hs' => ?_
    obtain ⟨c, hc, rfl⟩ := exists_of_map_eq_ok hs'
    exact hI.link hc hs
  | fold h summary =>
    show I (s.foldWith apply h summary).2.store
    rw [store_foldWith]
    exact hI.fold h hs
  | nameSet names => exact hs
  | builder adopted operators => cases adopted <;> exact hI.reserve _ hs
  | builderVariable i name =>
    refine settle hs fun r hr => hI.makeVariable ?_ hr hs
    rintro x rfl
    exact hop
  | builderOperator i f cs => exact settle hs fun r hr => hI.builderOperator hop hr hs
  | register i f name =>
    refine settle hs fun r hr => ?_
    unfold Builder.register at hr
    obtain ⟨f', -, hr⟩ := exists_of_bind_eq_ok hr
    obtain rfl := Except.ok.inj hr
    exact hI.reserve _ hs
  | define i name t => exact settle hs fun s' hs' => hI.define hs' hs
  | resolve i name => exact settle hs fun r hr => hI.resolve hr hs
  | dismiss i => exact hI.dropAll _ hs
  | drop h => exact hI.drop h hs

/-! ## Tours -/

variable {t : Tour}

theorem holding (hI : Rule apply made linked I) {s : Store} (found : Option VertexId) (hs : I s) :
    I (s.holding found) := by
  cases found with
  | none => exact hs
  | some v => exact hI.bind v hs

/-- **Every event keeps the rule** that puts in payloads the rule bears. -/
theorem step (hI : Rule apply made linked I) {e : Event} (he : e.Puts made linked) (ht : I t.store) :
    I (t.step apply e).store := by
  cases e with
  | perform op => exact hI.perform he ht
  | begin h =>
    cases hr : t.store.root h with
    | error fault =>
      rw [Tour.step_begin_of_error hr]
      exact ht
    | ok v =>
      rw [Tour.step_begin_of_ok hr]
      exact hI.repin _ ht
  | next i hold =>
    cases hc : t.walks[i]? with
    | none =>
      rw [Tour.step_next_of_none hc]
      exact ht
    | some c =>
      rw [Tour.step_next_of_some hc]
      refine hI.repin _ ?_
      split
      · exact hI.holding _ ht
      · exact ht
  | abandon i => exact hI.repin _ ht

end Rule

end Store

end ExprGraph

import ExprGraph.Proofs.Staying
import ExprGraph.Proofs.ValueSemantics
/-!
  Walks while work goes on.

  A tour is a session with walks in progress (`Tour`); between the steps of a walk anything may happen, also
  steps of other walks.  A walk holds no owners: the vertices on its path are pinned, but not protected from
  being changed.  What protects them is the handle the walk began at.

  Main statement: as long as that handle is live, and no tree is linked or folded through it, the walk yields
  the vertices of the recursive walk from when it began, with the payloads they had then, and nothing after the
  last (`Tour.walk_undisturbed`).

    * state      the tour; a walk is known by its number;
    * step       an operation of the session, or the beginning, one step or the end of a walk (`Tour.step`);
    * invariant  the store is balanced, and what the walks stand on is pinned and live (`Tour.Sane`); what the
                 handle reached is as it was, the path of the walk stays within it, and what is pending on the
                 path is the rest of the recursive walk (`Tour.OnCourse`).
-/

namespace ExprGraph

/-! ## Paths -/

namespace Cursor

variable {s s' : Store} {v w : VertexId} {t : Term} {K : VertexId → Prop}

/-- Going down stays in a set closed under operands. -/
theorem descend_within (hK : ∀ u w, K u → w ∈ s.operands u → K w) (depth : Nat) :
    ∀ {v : VertexId} {path : List Frame}, K v → (∀ f ∈ path, K f.vertex) →
      K (descend s depth v path).1 ∧ ∀ f ∈ (descend s depth v path).2.path, K f.vertex := by
  induction depth with
  | zero =>
    intro v path hv hpath
    refine ⟨hv, fun f hf => ?_⟩
    rcases List.mem_cons.mp hf with rfl | hf
    · exact hv
    · exact hpath f hf
  | succ depth ih =>
    intro v path hv hpath
    rw [descend]
    split
    · refine ⟨hv, fun f hf => ?_⟩
      rcases List.mem_cons.mp hf with rfl | hf
      · exact hv
      · exact hpath f hf
    · next w ws hops =>
      have hw : K w := hK v w hv (by rw [hops]; exact List.mem_cons_self)
      refine ih hw fun f hf => ?_
      rcases List.mem_cons.mp hf with rfl | hf
      · exact hv
      · exact hpath f hf

/-- A step of a path stays in such a set. -/
theorem advance_within (hK : ∀ u w, K u → w ∈ s.operands u → K w) {path : List Frame}
    (hpath : ∀ f ∈ path, K f.vertex) {c : Cursor} (ha : advance s path = some (v, c)) :
    K v ∧ ∀ f ∈ c.path, K f.vertex := by
  induction path using advance.induct s with
  | case1 =>
    rw [advance.eq_def] at ha
    cases ha
  | case2 u i rest w hw =>
    have hu : K u := hpath ⟨u, i⟩ List.mem_cons_self
    have hdesc := descend_within hK s.vertices.size (hK u w hu (List.mem_of_getElem? hw)) hpath
    rw [advance_down hw] at ha
    rw [Option.some.inj ha] at hdesc
    exact hdesc
  | case3 u rest hw =>
    rw [advance_stop] at ha
    obtain ⟨rfl, rfl⟩ := Prod.mk.inj (Option.some.inj ha)
    have hu : K u := hpath _ List.mem_cons_self
    refine ⟨hu, fun f hf => ?_⟩
    rcases List.mem_cons.mp hf with rfl | hf
    · exact hu
    · exact hpath f (List.mem_cons_of_mem _ hf)
  | case4 u i hw hne =>
    have hlt : (s.operands u).length < i := by
      have hle := List.getElem?_eq_none_iff.mp hw
      omega
    rw [advance_end hlt] at ha
    cases ha
  | case5 u i hw hne a j rest ih =>
    have hlt : (s.operands u).length < i := by
      have hle := List.getElem?_eq_none_iff.mp hw
      omega
    rw [advance_up hlt] at ha
    refine ih (fun f hf => ?_) ha
    rcases List.mem_cons.mp hf with rfl | hf
    · exact hpath ⟨a, j⟩ (List.mem_cons_of_mem _ List.mem_cons_self)
    · exact hpath f (List.mem_cons_of_mem _ (List.mem_cons_of_mem _ hf))

/-- **A walk stays in a set closed under operands.** -/
theorem next_within (hK : ∀ u w, K u → w ∈ s.operands u → K w) {c : Cursor}
    (hc : ∀ f ∈ c.path, K f.vertex) :
    (∀ v, (c.next s).1 = some v → K v) ∧ ∀ f ∈ (c.next s).2.path, K f.vertex := by
  unfold next
  cases ha : advance s c.path with
  | none => exact ⟨fun v hv => (by cases hv), fun f hf => absurd hf List.not_mem_nil⟩
  | some r =>
    obtain ⟨v, c'⟩ := r
    obtain ⟨hv, hpath⟩ := advance_within hK hc ha
    refine ⟨fun u hu => ?_, hpath⟩
    obtain rfl := Option.some.inj hu
    exact hv

end Cursor

namespace Store

variable {s s' : Store} {v w : VertexId} {t : Term}

/-- **The walk below a spared vertex is the same.** -/
theorem Spared.walk_eq (hs : Spared s s' v) (ht : s.Unfolds v t) : s'.walk v = s.walk v := by
  induction t generalizing v with
  | step t ih =>
    obtain ⟨x, hx⟩ := ht.exists_vertex
    rw [(hs.unfolds ht).walk_eq, ht.walk_eq, hs.operands_eq .refl hx]
    congr 1
    refine List.flatMap_congr fun w hw => ?_
    obtain ⟨u, hu, hwu, -⟩ := ht.operand hw
    have hbelow : s.Reaches v w := .single (mem_children_of_mem_operands hw)
    exact ih u (Term.mem_children_of_mem_operands hu) (hs.below hbelow) hwu

/-- **What is pending is the same** on a path that stays below a spared vertex. -/
theorem Spared.pending_eq (hs : Spared s s' v) (ht : s.Unfolds v t) {path : List Frame}
    (hp : ∀ f ∈ path, s.Reaches v f.vertex) : Cursor.pending s' path = Cursor.pending s path := by
  have hown : ∀ w i, s.Reaches v w → Cursor.own s' ⟨w, i⟩ = Cursor.own s ⟨w, i⟩ := by
    intro w i hw
    obtain ⟨u, hu, -⟩ := ht.of_reaches hw
    obtain ⟨x, hx⟩ := hu.exists_vertex
    simp only [Cursor.own, hs.operands_eq hw hx]
    have hbelow : ∀ a ∈ (s.operands w).drop i, s'.walk a = s.walk a := by
      intro a ha
      have hop : a ∈ s.operands w := List.mem_of_mem_drop ha
      obtain ⟨c, -, hac, -⟩ := hu.operand hop
      exact (hs.below (hw.tail (mem_children_of_mem_operands hop))).walk_eq hac
    rw [List.flatMap_congr hbelow]
  cases path with
  | nil => rfl
  | cons f rest =>
    have habove : Cursor.above s' rest = Cursor.above s rest := by
      refine List.flatMap_congr fun a ha => ?_
      exact hown a.vertex _ (hp a (List.mem_cons_of_mem f ha))
    show Cursor.own s' f ++ Cursor.above s' rest = Cursor.own s f ++ Cursor.above s rest
    rw [habove]
    exact congrArg (· ++ _) (hown f.vertex f.position (hp f List.mem_cons_self))

/-- What is seen at a vertex: its number and its payload. -/
def sight (s : Store) (v : VertexId) : VertexId × Option Payload := (v, (s.vertex? v).map Vertex.payload)

/-- A handle for a vertex that was found. -/
def holding (s : Store) : Option VertexId → Store
  | some v => (s.bind v).2
  | none => s

end Store

/-! ## Tours -/

/-- **A session with walks in progress.** -/
structure Tour where
  session : Session
  walks : List Cursor

/-- **What may happen on a tour.** -/
inductive Event where
  /-- an operation of the session -/
  | perform (op : Operation)
  /-- a walk begins at a handle -/
  | begin (h : Handle)
  /-- one step of a walk; if wanted, with a handle for the vertex it yields -/
  | next (i : Nat) (hold : Bool)
  /-- a walk is given up -/
  | abandon (i : Nat)

namespace Event

/-- The event changes the tree of a handle. -/
def Edits (h : Handle) : Event → Prop
  | perform op => op.Edits h
  | _ => False

/-- The event is a step of a walk. -/
def advances (i : Nat) : Event → Bool
  | next j _ => j == i
  | _ => false

end Event

namespace Tour

/-- The tour at the beginning. -/
def empty : Tour := ⟨.empty, []⟩

def store (t : Tour) : Store := t.session.store

/-- Goes on in a store with the given walks, whose vertices are pinned. -/
def withWalks (t : Tour) (store : Store) (walks : List Cursor) : Tour :=
  ⟨{ t.session with store := store.repin (walks.flatMap Cursor.vertices) }, walks⟩

/-- **One event of a tour** under an interpretation of the operators. -/
def step (apply : Operator.Interpretation) (t : Tour) : Event → Tour
  | .perform op => { t with session := (t.session.perform apply op).2 }
  | .begin h =>
    match t.store.root h with
    | .ok v => t.withWalks t.store (t.walks ++ [.start v])
    | .error _ => t
  | .next i hold =>
    match t.walks[i]? with
    | some c =>
      let (found, c) := c.next t.store
      t.withWalks (if hold then t.store.holding found else t.store) (t.walks.set i c)
    | none => t
  | .abandon i => t.withWalks t.store (t.walks.set i ⟨[]⟩)

/-- **The tour after some events.** -/
def go (apply : Operator.Interpretation) (t : Tour) (es : List Event) : Tour := es.foldl (step apply) t

/-- What the next step of a walk will show. -/
def preview (t : Tour) (i : Nat) : Option (VertexId × Option Payload) :=
  (t.walks[i]?).bind fun c => (c.next t.store).1.map t.store.sight

/-- **What a walk shows during some events**, one answer for each of its steps. -/
def shown (apply : Operator.Interpretation) (i : Nat) :
    Tour → List Event → List (Option (VertexId × Option Payload))
  | _, [] => []
  | t, e :: es => (if e.advances i then [t.preview i] else []) ++ shown apply i (t.step apply e) es

/-- **A walk is left alone during some events**: the handle it began at stays live, no tree is changed through
    this handle, and the walk is not given up. -/
def Undisturbed (apply : Operator.Interpretation) (h : Handle) (i : Nat) : Tour → List Event → Prop
  | _, [] => True
  | t, e :: es => ¬ e.Edits h ∧ e ≠ .abandon i ∧ (t.step apply e).store.target? h ≠ none
      ∧ Undisturbed apply h i (t.step apply e) es

variable {apply : Operator.Interpretation} {t : Tour} {s₀ : Store} {h : Handle} {v : VertexId} {i k : Nat}
  {c : Cursor} {e : Event} {term : Term}

/-! ## Events -/

theorem step_begin_of_ok (hr : t.store.root h = .ok v) :
    t.step apply (.begin h) = t.withWalks t.store (t.walks ++ [.start v]) := by
  simp only [step, hr]

theorem step_begin_of_error {fault : Fault} (hr : t.store.root h = .error fault) :
    t.step apply (.begin h) = t := by
  simp only [step, hr]

theorem step_next_of_some (hc : t.walks[i]? = some c) (hold : Bool) :
    t.step apply (.next i hold)
      = t.withWalks (if hold then t.store.holding (c.next t.store).1 else t.store)
          (t.walks.set i (c.next t.store).2) := by
  simp only [step, hc]

theorem step_next_of_none (hc : t.walks[i]? = none) (hold : Bool) :
    t.step apply (.next i hold) = t := by
  simp only [step, hc]

/-! ## Every tour -/

/-- **The store is balanced, and the walks stand on live vertices**, which are pinned. -/
structure Sane (t : Tour) : Prop where
  balanced : t.store.Balanced fun _ => 0
  pinned : t.store.pinned = t.walks.flatMap Cursor.vertices
  live : ∀ c ∈ t.walks, ∀ f ∈ c.path, ∃ x, t.store.vertex? f.vertex = some x

theorem mem_pins {walks : List Cursor} {f : Frame} (hc : c ∈ walks) (hf : f ∈ c.path) :
    f.vertex ∈ walks.flatMap Cursor.vertices :=
  List.mem_flatMap.mpr ⟨c, hc, List.mem_map.mpr ⟨f, hf, rfl⟩⟩

/-- Pinning the walks of a balanced store makes a sane tour. -/
theorem sane_withWalks {store : Store} {walks : List Cursor} (hb : store.Balanced fun _ => 0)
    (hlive : ∀ c ∈ walks, ∀ f ∈ c.path, ∃ x, store.vertex? f.vertex = some x) :
    (t.withWalks store walks).Sane := by
  obtain ⟨hb', -, hpinned, hkeep⟩ := hb.repin (walks.flatMap Cursor.vertices)
  refine ⟨hb', hpinned, fun c hc f hf => ?_⟩
  exact hkeep f.vertex (mem_pins hc hf) (hlive c hc f hf)

/-- A step of a walk finds live vertices. -/
theorem Sane.next_live (hs : t.Sane) (hc : t.walks[i]? = some c) :
    (∀ v, (c.next t.store).1 = some v → ∃ x, t.store.vertex? v = some x)
      ∧ ∀ f ∈ (c.next t.store).2.path, ∃ x, t.store.vertex? f.vertex = some x := by
  refine Cursor.next_within (K := fun v => ∃ x, t.store.vertex? v = some x) (fun u w hu hw => ?_)
    (hs.live c (List.mem_of_getElem? hc))
  exact hs.balanced.child (Store.mem_children_of_mem_operands hw)

/-- A handle for a vertex that was found makes the store grow. -/
theorem grown_holding (s : Store) (found : Option VertexId) : Store.Grown s (s.holding found) := by
  cases found with
  | none => exact .refl s
  | some v => exact .bind s v

/-- The store in which the walks are pinned after a step of one of them. -/
theorem Sane.holding (hs : t.Sane) (hc : t.walks[i]? = some c) (hold : Bool) :
    (if hold then t.store.holding (c.next t.store).1 else t.store).Balanced (fun _ => 0)
      ∧ Store.Grown t.store (if hold then t.store.holding (c.next t.store).1 else t.store) := by
  cases hold with
  | false => exact ⟨hs.balanced, .refl _⟩
  | true =>
    refine ⟨?_, grown_holding _ _⟩
    have hfound := (hs.next_live hc).1
    show (t.store.holding (c.next t.store).1).Balanced _
    cases hn : (c.next t.store).1 with
    | none => exact hs.balanced
    | some v =>
      obtain ⟨x, hx⟩ := hfound v hn
      exact hs.balanced.bind hx

/-- **Every event keeps a tour sane.** -/
theorem Sane.step (hs : t.Sane) (apply : Operator.Interpretation) (e : Event) : (t.step apply e).Sane := by
  cases e with
  | perform op =>
    have hsteps := Session.perform_steps apply hs.balanced op
    have hpins := Store.Steps.keepsPins hsteps
    refine ⟨hsteps.balanced hs.balanced, hpins.pinned.trans hs.pinned, fun c hc f hf => ?_⟩
    refine hpins.live f.vertex ?_ (hs.live c hc f hf)
    show f.vertex ∈ t.store.pinned
    rw [hs.pinned]
    exact mem_pins hc hf
  | begin h =>
    cases hr : t.store.root h with
    | error fault =>
      rw [step_begin_of_error hr]
      exact hs
    | ok v =>
      rw [step_begin_of_ok hr]
      refine sane_withWalks hs.balanced fun c hc f hf => ?_
      rcases List.mem_append.mp hc with hc | hc
      · exact hs.live c hc f hf
      · obtain rfl := List.mem_singleton.mp hc
        obtain rfl := List.mem_singleton.mp hf
        exact (Store.vertex?_of_root hr).2
  | next i hold =>
    cases hc : t.walks[i]? with
    | none =>
      rw [step_next_of_none hc]
      exact hs
    | some c =>
      rw [step_next_of_some hc]
      obtain ⟨hb, hgrow⟩ := hs.holding hc hold
      refine sane_withWalks hb fun c' hc' f hf => ?_
      have hlive : ∃ x, t.store.vertex? f.vertex = some x := by
        rcases List.mem_or_eq_of_mem_set hc' with hc' | rfl
        · exact hs.live c' hc' f hf
        · exact (hs.next_live hc).2 f hf
      obtain ⟨x, hx⟩ := hlive
      obtain ⟨n, hn⟩ := hgrow.vertex _ x hx
      exact ⟨_, hn⟩
  | abandon i =>
    refine sane_withWalks hs.balanced fun c hc f hf => ?_
    rcases List.mem_or_eq_of_mem_set hc with hc | rfl
    · exact hs.live c hc f hf
    · exact absurd hf List.not_mem_nil

/-- **Every tour from the beginning is sane.** -/
theorem sane_go (apply : Operator.Interpretation) (es : List Event) : (empty.go apply es).Sane := by
  have hrun : ∀ t : Tour, t.Sane → (t.go apply es).Sane := by
    induction es with
    | nil => exact fun t hs => hs
    | cons e es ih => exact fun t hs => ih (t.step apply e) (hs.step apply e)
  exact hrun empty ⟨.empty, rfl, fun c hc => absurd hc List.not_mem_nil⟩

/-! ## One walk -/

/-- **A walk is on course** after some steps: nothing that it goes through has changed since it began in the
    store `s₀`, and what it has still to yield is the rest of the walk there. -/
structure OnCourse (s₀ : Store) (h : Handle) (v : VertexId) (i k : Nat) (t : Tour) : Prop where
  sane : t.Sane
  target : t.store.target? h = some v
  spared : Store.Spared s₀ t.store v
  walk : ∃ c, t.walks[i]? = some c ∧ (∀ f ∈ c.path, s₀.Reaches v f.vertex)
    ∧ Cursor.pending s₀ c.path = (s₀.walk v).drop k

/-- An edit through another handle leaves a handle bound as it was. -/
theorem Sane.target?_edit (hs : t.Sane) (apply : Operator.Interpretation) {op : Operation} {g : Handle}
    (hop : op.Edits g) (hne : h ≠ g) :
    (t.step apply (.perform op)).store.target? h = t.store.target? h :=
  (Session.changesOnly_of_edits apply hs.balanced hop).handle h (by simp [hne])

/-- Pinning walks spares what a handle reaches. -/
theorem spared_withWalks {store : Store} (hb : store.Balanced fun _ => 0) (walks : List Cursor)
    (hv : store.target? h = some v) :
    (t.withWalks store walks).store.target? h = some v
      ∧ Store.Spared store (t.withWalks store walks).store v := by
  obtain ⟨-, hchg, -, -⟩ := hb.repin (walks.flatMap Cursor.vertices)
  exact hchg.spared_of_empty hv

/-- A step of a walk leaves a handle bound as it was, and spares what it reaches. -/
theorem Sane.spared_next (hs : t.Sane) (apply : Operator.Interpretation)
    (hv : t.store.target? h = some v) (i : Nat) (hold : Bool) :
    (t.step apply (.next i hold)).store.target? h = some v
      ∧ Store.Spared t.store (t.step apply (.next i hold)).store v := by
  cases hc : t.walks[i]? with
  | none =>
    rw [step_next_of_none hc]
    exact ⟨hv, .refl _ v⟩
  | some c =>
    rw [step_next_of_some hc]
    obtain ⟨hb, hgrow⟩ := hs.holding hc hold
    have hbound := (hgrow.target h (Store.lt_size_of_target? hv)).trans hv
    obtain ⟨htarget, hspare⟩ :=
      spared_withWalks (t := t) hb (t.walks.set i (c.next t.store).2) hbound
    exact ⟨htarget, (hgrow.spared v).trans hspare⟩

/-- A walk begins on course. -/
theorem onCourse_begin (hs : t.Sane) (hv : t.store.target? h = some v) :
    OnCourse t.store h v t.walks.length 0 (t.step apply (.begin h)) := by
  obtain ⟨x, hx⟩ := hs.balanced.handle_live h v hv
  obtain ⟨term, hterm⟩ := hs.balanced.unfolds v x hx
  have hsane := hs.step apply (.begin h)
  rw [step_begin_of_ok (Store.root_of_target? hv hx)] at hsane ⊢
  obtain ⟨htarget, hspare⟩ := spared_withWalks (t := t) hs.balanced (t.walks ++ [.start v]) hv
  refine ⟨hsane, htarget, hspare, .start v, ?_, fun f hf => ?_, ?_⟩
  · exact List.getElem?_concat_length
  · obtain rfl := List.mem_singleton.mp hf
    exact .refl
  · rw [List.drop_zero]
    exact Cursor.pending_start hterm

/-- **Whatever else happens, a walk stays on course** as long as it is left alone. -/
theorem OnCourse.other (ho : OnCourse s₀ h v i k t) (he : e.advances i = false) (hedit : ¬ e.Edits h)
    (habandon : e ≠ .abandon i) (hlive : (t.step apply e).store.target? h ≠ none) :
    OnCourse s₀ h v i k (t.step apply e) := by
  obtain ⟨hs, htarget, hspare, c, hc, hpath, hpend⟩ := ho
  have hlt : i < t.walks.length := (List.getElem?_eq_some_iff.mp hc).1
  have hsane := hs.step apply e
  -- the handle is bound as before, what it reaches is spared, and the walk stands where it stood
  suffices hkeep : ((t.step apply e).store.target? h = some v ∧ Store.Spared t.store (t.step apply e).store v)
      ∧ (t.step apply e).walks[i]? = some c from
    ⟨hsane, hkeep.1.1, hspare.trans hkeep.1.2, c, hkeep.2, hpath, hpend⟩
  cases e with
  | perform op =>
    refine ⟨?_, hc⟩
    have hnot : h ∉ t.session.editable op := by
      rintro (hop | hle)
      · exact hedit hop
      · exact Nat.not_lt.mpr hle (Store.lt_size_of_target? htarget)
    have hsteps := Session.perform_steps apply hs.balanced op
    exact (Store.Steps.spares hsteps hs.balanced hnot htarget).resolve_left hlive
  | begin g =>
    cases hr : t.store.root g with
    | error fault =>
      rw [step_begin_of_error hr]
      exact ⟨⟨htarget, .refl _ v⟩, hc⟩
    | ok u =>
      rw [step_begin_of_ok hr]
      refine ⟨spared_withWalks hs.balanced _ htarget, ?_⟩
      show (t.walks ++ [Cursor.start u])[i]? = some c
      rw [List.getElem?_append_left hlt, hc]
  | next j hold =>
    have hji : j ≠ i := by simpa [Event.advances] using he
    refine ⟨hs.spared_next apply htarget j hold, ?_⟩
    cases hj : t.walks[j]? with
    | none =>
      rw [step_next_of_none hj]
      exact hc
    | some c' =>
      rw [step_next_of_some hj]
      show (t.walks.set j _)[i]? = some c
      rw [List.getElem?_set_ne hji, hc]
  | abandon j =>
    have hji : j ≠ i := fun heq => habandon (heq ▸ rfl)
    refine ⟨spared_withWalks hs.balanced _ htarget, ?_⟩
    show (t.walks.set j _)[i]? = some c
    rw [List.getElem?_set_ne hji, hc]

/-- **A step of a walk on course** shows the next vertex of the recursive walk, and leaves it on course. -/
theorem OnCourse.next (ho : OnCourse s₀ h v i k t) (apply : Operator.Interpretation)
    (hterm : s₀.Unfolds v term) (hold : Bool) :
    t.preview i = ((s₀.walk v).map s₀.sight)[k]?
      ∧ OnCourse s₀ h v i (k + 1) (t.step apply (.next i hold)) := by
  obtain ⟨hs, htarget, hspare, c, hc, hpath, hpend⟩ := ho
  have hlt : i < t.walks.length := (List.getElem?_eq_some_iff.mp hc).1
  -- every vertex on the path unfolds, now as in the beginning
  have hground : Cursor.Grounded t.store c.path := by
    intro f hf
    obtain ⟨u, hu, -⟩ := hterm.of_reaches (hpath f hf)
    exact ⟨u, (hspare.below (hpath f hf)).unfolds hu⟩
  have hdown : ∀ u w, s₀.Reaches v u → w ∈ t.store.operands u → s₀.Reaches v w := by
    intro u w hu hw
    obtain ⟨d, hd, -⟩ := hterm.of_reaches hu
    obtain ⟨x, hx⟩ := hd.exists_vertex
    rw [hspare.operands_eq hu hx] at hw
    exact hu.tail (Store.mem_children_of_mem_operands hw)
  obtain ⟨hfound, hpath'⟩ := Cursor.next_within hdown hpath
  have hnow : Cursor.pending t.store c.path = (s₀.walk v).drop k := (hspare.pending_eq hterm hpath).trans hpend
  have hthen : Cursor.pending t.store (c.next t.store).2.path
      = Cursor.pending s₀ (c.next t.store).2.path := hspare.pending_eq hterm hpath'
  -- the yield is the first of what is pending, and the rest stays pending
  have hyield : (c.next t.store).1 = (s₀.walk v)[k]?
      ∧ Cursor.pending s₀ (c.next t.store).2.path = (s₀.walk v).drop (k + 1) := by
    rcases Cursor.next_spec hground with ⟨hnone, hempty⟩ | ⟨w, c', hnext, hcons, -⟩
    · rw [hnow] at hempty
      have hle := List.drop_eq_nil_iff.mp hempty
      have hend : (c.next t.store).2 = ⟨[]⟩ := by
        unfold Cursor.next at hnone ⊢
        cases ha : Cursor.advance t.store c.path with
        | none => rfl
        | some r =>
          rw [ha] at hnone
          cases hnone
      refine ⟨hnone.trans (List.getElem?_eq_none hle).symm, ?_⟩
      rw [hend, List.drop_eq_nil_of_le (Nat.le_succ_of_le hle)]
      rfl
    · rw [hnext] at hthen ⊢
      rw [hnow, hthen] at hcons
      have hk : k < (s₀.walk v).length := by
        by_contra hge
        rw [List.drop_eq_nil_of_le (Nat.le_of_not_lt hge)] at hcons
        cases hcons
      rw [List.drop_eq_getElem_cons hk] at hcons
      obtain ⟨rfl, hrest⟩ := List.cons.inj hcons
      exact ⟨(List.getElem?_eq_getElem hk).symm, hrest⟩
  constructor
  · -- the payload is the one the vertex had
    have hsight : ∀ w, s₀.Reaches v w → t.store.sight w = s₀.sight w := by
      intro w hw
      obtain ⟨d, hd, -⟩ := hterm.of_reaches hw
      obtain ⟨x, hx⟩ := hd.exists_vertex
      obtain ⟨n, hn⟩ := hspare w x hw hx
      simp only [Store.sight, hx, hn, Option.map_some]
    show (t.walks[i]?).bind _ = _
    rw [hc, List.getElem?_map, ← hyield.1]
    show (c.next t.store).1.map t.store.sight = _
    cases hn : (c.next t.store).1 with
    | none => rfl
    | some w => exact congrArg some (hsight w (hfound w hn))
  · obtain ⟨htarget', hspare'⟩ := hs.spared_next apply htarget i hold
    refine ⟨hs.step apply _, htarget', hspare.trans hspare', _, ?_, hpath', hyield.2⟩
    rw [step_next_of_some hc]
    show (t.walks.set i _)[i]? = _
    rw [List.getElem?_set_self hlt]

/-- A walk on course shows the rest of the recursive walk while it is left alone. -/
theorem OnCourse.shown (hterm : s₀.Unfolds v term) (es : List Event) :
    ∀ {t : Tour} {k : Nat}, OnCourse s₀ h v i k t → Undisturbed apply h i t es →
      t.shown apply i es
        = (List.range' k (es.countP (Event.advances i))).map fun n => ((s₀.walk v).map s₀.sight)[n]? := by
  induction es with
  | nil => exact fun _ _ => rfl
  | cons e es ih =>
    intro t k ho hund
    obtain ⟨hedit, habandon, hlive, hrest⟩ := hund
    rw [Tour.shown, List.countP_cons]
    cases he : e.advances i with
    | false =>
      rw [ih (ho.other he hedit habandon hlive) hrest]
      rfl
    | true =>
      cases e with
      | next j hold =>
        obtain rfl : j = i := by simpa [Event.advances] using he
        obtain ⟨hshow, hnext⟩ := ho.next apply hterm hold
        rw [ih hnext hrest, hshow]
        simp only [if_true, List.singleton_append]
        rw [List.range'_succ, List.map_cons]
      | _ => cases he

/-- **A walk is not disturbed by work elsewhere.**  Begun at a live handle after any events, it shows, step by
    step, what the recursive walk of the tree lists in the store where it began, and nothing from then on; the
    events in between may be whatever leaves the handle live and changes no tree through it. -/
theorem walk_undisturbed (apply : Operator.Interpretation) {before after : List Event} {t : Tour}
    (ht : empty.go apply before = t) (hv : t.store.target? h = some v)
    (hund : Undisturbed apply h t.walks.length (t.step apply (.begin h)) after) :
    (t.step apply (.begin h)).shown apply t.walks.length after
      = (List.range (after.countP (Event.advances t.walks.length))).map fun k =>
          ((t.store.walk v).map t.store.sight)[k]? := by
  have hs : t.Sane := ht ▸ sane_go apply before
  obtain ⟨x, hx⟩ := hs.balanced.handle_live h v hv
  obtain ⟨term, hterm⟩ := hs.balanced.unfolds v x hx
  rw [List.range_eq_range']
  exact (onCourse_begin hs hv).shown hterm after hund

/-- **Steps of walks and edits of other trees** leave a walk alone. -/
theorem Sane.undisturbed {es : List Event} (hes : ∀ e ∈ es, (∃ j hold, e = .next j hold)
      ∨ ∃ op g, e = .perform op ∧ op.Edits g ∧ h ≠ g) :
    ∀ {t : Tour}, t.Sane → t.store.target? h = some v → Undisturbed apply h i t es := by
  induction es with
  | nil => exact fun _ _ => trivial
  | cons e es ih =>
    intro t hs hv
    have hrest : ∀ e ∈ es, _ := fun e he => hes e (List.mem_cons_of_mem _ he)
    have hkeep : ¬ e.Edits h ∧ e ≠ .abandon i ∧ (t.step apply e).store.target? h = some v := by
      rcases hes e List.mem_cons_self with ⟨j, hold, rfl⟩ | ⟨op, g, rfl, hop, hne⟩
      · exact ⟨id, (fun heq => by cases heq), (hs.spared_next apply hv j hold).1⟩
      · exact ⟨fun hh => hne (hop.eq hh), (fun heq => by cases heq), (hs.target?_edit apply hop hne).trans hv⟩
    obtain ⟨hedit, habandon, hv'⟩ := hkeep
    refine ⟨hedit, habandon, ?_, ih hrest (hs.step apply e) hv'⟩
    rw [hv']
    exact Option.some_ne_none v

/-- A constant, its sum with itself, and a second handle for the sum. -/
def sharedSum : List Event :=
  [.perform (.constantLeaf (.integer 2)),
    .perform (.linked (.op ⟨.add, "add", none, some "+", some .add⟩) (some [0, 0])), .perform (.share 1)]

/-- A walk that goes on while the sum is linked to itself through its second handle. -/
def linkedMeanwhile : List Event :=
  [.next 0 false, .perform (.link 2 [.tree 0, .tree 2]), .next 0 true, .next 0 false, .next 0 false]

theorem walk_undisturbed_sharedSum :
    (empty.go Operator.apply sharedSum).store.target? 1 = some 1
      ∧ Undisturbed Operator.apply 1 0
          ((empty.go Operator.apply sharedSum).step Operator.apply (.begin 1)) linkedMeanwhile
      ∧ ((empty.go Operator.apply sharedSum).step Operator.apply (.begin 1)).shown Operator.apply 0
          linkedMeanwhile
        = [some (0, some (.const (.integer 2))), some (0, some (.const (.integer 2))),
            some (1, some (.op ⟨.add, "add", none, some "+", some .add⟩)), none] := by
  have hv : (empty.go Operator.apply sharedSum).store.target? 1 = some 1 := rfl
  have hbegin : ((empty.go Operator.apply sharedSum).step Operator.apply (.begin 1)).store.target? 1
      = some 1 := rfl
  have hund : Undisturbed Operator.apply 1 0
      ((empty.go Operator.apply sharedSum).step Operator.apply (.begin 1)) linkedMeanwhile := by
    refine Sane.undisturbed (fun e he => ?_) ((sane_go Operator.apply sharedSum).step _ _) hbegin
    simp only [linkedMeanwhile, List.mem_cons, List.not_mem_nil, or_false] at he
    rcases he with rfl | rfl | rfl | rfl | rfl
    · exact .inl ⟨0, false, rfl⟩
    · exact .inr ⟨_, 2, rfl, rfl, by decide⟩
    · exact .inl ⟨0, true, rfl⟩
    · exact .inl ⟨0, false, rfl⟩
    · exact .inl ⟨0, false, rfl⟩
  refine ⟨hv, hund, ?_⟩
  exact (walk_undisturbed Operator.apply rfl hv hund).trans rfl

end Tour

end ExprGraph

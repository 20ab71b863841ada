import ExprGraph.Proofs.Moves
/-!
  What stays while work goes on elsewhere.

  What a live handle reaches stays as it is, payloads and links included, as long as no tree is edited through
  that handle (`Steps.spares`).  A pinned vertex stays in the store, whatever is done to it
  (`Steps.keepsPins`); when other vertices are pinned in its place, those that nothing else keeps go, and
  nobody who holds a handle notices (`Balanced.repin`).
-/

namespace ExprGraph

namespace Store

variable {apply : Operator.Interpretation} {s s' s'' : Store} {loose : VertexId → Nat}
  {edited : Set Handle} {g h : Handle} {u v w : VertexId} {x : Vertex} {t : Term}

/-! ## What a vertex reaches -/

/-- A vertex with children is live. -/
theorem exists_vertex_of_mem_children (hw : w ∈ s.children v) : ∃ x, s.vertex? v = some x := by
  obtain ⟨i, hi⟩ := exists_at?_of_mem_children hw
  obtain ⟨x, hx, -⟩ := exists_vertex_of_at?_link hi
  exact ⟨x, hx⟩

/-- **What a vertex reaches is spared**: it is there afterwards with its payload and its links. -/
def Spared (s s' : Store) (v : VertexId) : Prop :=
  ∀ w x, s.Reaches v w → s.vertex? w = some x → ∃ n, s'.vertex? w = some { x with owners := n }

namespace Spared

theorem refl (s : Store) (v : VertexId) : Spared s s v := fun _ x _ hx => ⟨x.owners, hx⟩

theorem children_eq (hs : Spared s s' v) (hw : s.Reaches v w) (hx : s.vertex? w = some x) :
    s'.children w = s.children w := by
  obtain ⟨n, hn⟩ := hs w x hw hx
  rw [children_of_vertex? hn, children_of_vertex? hx]
  rfl

theorem operands_eq (hs : Spared s s' v) (hw : s.Reaches v w) (hx : s.vertex? w = some x) :
    s'.operands w = s.operands w := by
  obtain ⟨n, hn⟩ := hs w x hw hx
  rw [operands_of_vertex? hn, operands_of_vertex? hx]
  rfl

/-- The same is reached as before. -/
theorem reaches (hs : Spared s s' v) (hr : s.Reaches v w) : s'.Reaches v w := by
  induction hr with
  | refl => exact .refl
  | tail hu hw ih =>
    obtain ⟨x, hx⟩ := exists_vertex_of_mem_children hw
    refine ih.tail ?_
    rw [hs.children_eq hu hx]
    exact hw

theorem trans (h₁ : Spared s s' v) (h₂ : Spared s' s'' v) : Spared s s'' v := by
  intro w x hr hx
  obtain ⟨n, hn⟩ := h₁ w x hr hx
  obtain ⟨m, hm⟩ := h₂ w _ (h₁.reaches hr) hn
  exact ⟨m, hm⟩

/-- What lies below is spared too. -/
theorem below (hs : Spared s s' v) (hr : s.Reaches v w) : Spared s s' w := by
  intro u x hu hx
  exact hs u x (hr.trans hu) hx

/-- A spared vertex has the term it had. -/
theorem unfolds (hs : Spared s s' v) (ht : s.Unfolds v t) : s'.Unfolds v t := by
  refine ht.transport (s.Reaches v) (fun w x hw hx => ⟨hs w x hw hx, fun c hc => ?_⟩) .refl
  rw [← children_of_vertex? hx] at hc
  exact hw.tail hc

end Spared

/-- A store that grows spares everything. -/
theorem Grown.spared (hg : Grown s s') (v : VertexId) : Spared s s' v := by
  intro w x _ hx
  exact hg.vertex w x hx

/-- Changes through one handle spare what another one reaches. -/
theorem ChangesOnly.spared (hc : ChangesOnly s s' loose {.handle g}) (hne : h ≠ g)
    (hv : s.target? h = some v) : s'.target? h = some v ∧ Spared s s' v := by
  have hother : Place.handle h ∉ ({.handle g} : Set Place) := by simp [hne]
  refine ⟨(hc.handle h hother).trans hv, fun w x hr hx => ?_⟩
  have hheld : s.Held loose {.handle g} w := (Held.handle hother hv).reaches hr
  exact hc.same hheld hx fun i => by simp

/-- Changes through no place spare what any handle reaches. -/
theorem ChangesOnly.spared_of_empty (hc : ChangesOnly s s' loose ∅) (hv : s.target? h = some v) :
    s'.target? h = some v ∧ Spared s s' v := by
  have hnext : ChangesOnly s s' loose {.handle (h + 1)} := hc.mono (Set.empty_subset _)
  exact hnext.spared (Nat.ne_of_lt (Nat.lt_succ_self h)) hv

/-- **A step spares what a handle reaches**, unless the handle is edited or given back. -/
theorem Step.spares (hs : Step apply edited s s') (hb : s.Balanced loose) (hh : h ∉ edited)
    (hv : s.target? h = some v) :
    s'.target? h = none ∨ s'.target? h = some v ∧ Spared s s' v := by
  rcases hs.grown_or_changesOnly hb with hgrow | ⟨g, hchg, hg⟩
  · exact .inr ⟨(hgrow.target h (lt_size_of_target? hv)).trans hv, hgrow.spared v⟩
  · by_cases hgh : h = g
    · subst hgh
      rcases hg with hg | hg
      · exact absurd hg hh
      · exact .inl hg
    · exact .inr (hchg.spared hgh hv)

theorem Steps.spares (hs : Steps apply edited s s') (hb : s.Balanced loose) (hh : h ∉ edited)
    (hv : s.target? h = some v) :
    s'.target? h = none ∨ s'.target? h = some v ∧ Spared s s' v := by
  -- a handle that was given back on the way is not given out again
  have hrun : h < s'.handles.size ∧ (s'.target? h = none ∨ s'.target? h = some v ∧ Spared s s' v) := by
    induction hs with
    | refl => exact ⟨lt_size_of_target? hv, .inr ⟨hv, .refl s v⟩⟩
    | @tail s₁ s₂ hrest hstep ih =>
      have hb₁ := Steps.balanced hrest hb
      obtain ⟨hlt, hnone | ⟨hv₁, hspare⟩⟩ := ih
      · obtain ⟨hlt₂, hgone⟩ := hstep.target?_eq_none hb₁ hlt hnone
        exact ⟨hlt₂, .inl (hgone hh)⟩
      · have hlt₂ : h < s₂.handles.size := by
          rcases hstep.grown_or_changesOnly hb₁ with hgrow | ⟨g, hchg, -⟩
          · exact Nat.lt_of_lt_of_le hlt hgrow.size
          · rw [hchg.size]
            exact hlt
        refine ⟨hlt₂, ?_⟩
        rcases hstep.spares hb₁ hh hv₁ with hnone | ⟨hv₂, hspare₂⟩
        · exact .inl hnone
        · exact .inr ⟨hv₂, hspare.trans hspare₂⟩
  exact hrun.2

/-! ## What is pinned -/

/-- **The pins hold**: they are the same, and no pinned vertex has gone. -/
structure KeepsPins (s s' : Store) : Prop where
  pinned : s'.pinned = s.pinned
  live : ∀ v ∈ s.pinned, (∃ x, s.vertex? v = some x) → ∃ y, s'.vertex? v = some y

theorem KeepsPins.refl (s : Store) : KeepsPins s s := ⟨rfl, fun _ _ hx => hx⟩

theorem KeepsPins.trans (h₁ : KeepsPins s s') (h₂ : KeepsPins s' s'') : KeepsPins s s'' where
  pinned := h₂.pinned.trans h₁.pinned
  live v hv hx := h₂.live v (h₁.pinned ▸ hv) (h₁.live v hv hx)

theorem Grown.keepsPins (hg : Grown s s') : KeepsPins s s' where
  pinned := hg.pinned
  live v _ hx := by
    obtain ⟨x, hx⟩ := hx
    obtain ⟨n, hn⟩ := hg.vertex v x hx
    exact ⟨_, hn⟩

/-- **No move takes out a pinned vertex.** -/
theorem Move.keepsPins (hm : Move s s') : KeepsPins s s' := by
  cases hm with
  | addOwners vs => exact (Grown.addOwners s vs).keepsPins
  | insert hpos => exact (Grown.insert s _).keepsPins
  | rebind p w =>
    refine ⟨by cases p <;> rfl, ?_⟩
    rintro u - ⟨x, hx⟩
    exact ⟨x.rebound p w u, by rw [vertex?_rebind, hx]; rfl⟩
  | unbind h => exact ⟨rfl, fun _ _ hx => hx⟩
  | modify hf =>
    refine ⟨rfl, ?_⟩
    rintro u - ⟨x, hx⟩
    exact ⟨_, vertex?_modify_eq_some_iff.mpr ⟨x, hx, rfl⟩⟩
  | dropOwner _ _ =>
    refine ⟨rfl, ?_⟩
    rintro u - ⟨x, hx⟩
    exact ⟨_, by rw [vertex?_dropOwner, hx]; rfl⟩
  | @erase v x _ hpin =>
    refine ⟨rfl, ?_⟩
    rintro u hu ⟨y, hy⟩
    have hne : v ≠ u := by
      rintro rfl
      exact hpin hu
    exact ⟨y, by rw [vertex?_erase, if_neg hne, hy]⟩

theorem Moves.keepsPins (hm : Moves s s') : KeepsPins s s' := by
  induction hm with
  | refl => exact .refl s
  | tail _ hstep ih => exact ih.trans hstep.keepsPins

/-- **Steps leave pinned vertices in the store.** -/
theorem Steps.keepsPins (hs : Steps apply edited s s') : KeepsPins s s' := by
  induction hs with
  | refl => exact .refl s
  | tail _ hstep ih =>
    rcases hstep.grown_or_moves with hgrow | hmoves
    · exact ih.trans hgrow.keepsPins
    · exact ih.trans (Moves.keepsPins hmoves)

/-! ## Pinning other vertices -/

/-- The store with other pins; nothing goes. -/
def pinning (s : Store) (pins : List VertexId) : Store := { s with pinned := pins }

/-- The store after a vertex lost its pin: it goes unless it has an owner or another pin. -/
def unpin (s : Store) (v : VertexId) : Store :=
  match s.vertex? v with
  | some x => if x.owners = 0 ∧ v ∉ s.pinned then release (s.erase v) x.children else s
  | none => s

theorem repin_eq (s : Store) (pins : List VertexId) :
    s.repin pins = s.pinned.foldl unpin (s.pinning pins) :=
  rfl

/-- What holds with other pins, and when a vertex lost its pin, holds in the end. -/
theorem repin_induction {P : Store → Prop} {pins : List VertexId} (hs : P (s.pinning pins))
    (hunpin : ∀ {s' : Store} (v : VertexId), P s' → P (s'.unpin v)) : P (s.repin pins) := by
  rw [repin_eq]
  exact List.foldlRecOn s.pinned unpin hs fun _ h v _ => hunpin v h

theorem moves_unpin (s : Store) (v : VertexId) : Moves s (s.unpin v) := by
  unfold unpin
  split
  · next x hx =>
    split
    · next hgo => exact .head (.erase hx hgo.2) (moves_release _ _)
    · exact .refl
  · exact .refl

/-- Pins are not owners. -/
theorem Balanced.pinning (hb : s.Balanced loose) (pins : List VertexId) :
    (s.pinning pins).Balanced loose := by
  refine hb.recount (fun _ n => n) (fun u => ?_) hb.handle_live hb.loose_live fun u x hx => ?_
  · show s.vertex? u = _
    cases s.vertex? u <;> rfl
  · have hbound : (s.pinning pins).bound u = s.bound u := bound_congr rfl rfl (fun _ => rfl) u
    rw [hbound]
    exact hb.owners u x hx

/-- **A vertex that lost its pin** and goes leaves everything else as it was. -/
theorem Balanced.unpin (hb : s.Balanced loose) (v : VertexId) :
    (s.unpin v).Balanced loose ∧ ChangesOnly s (s.unpin v) loose ∅ := by
  have hsame : s.Balanced loose ∧ ChangesOnly s s loose ∅ := ⟨hb, .refl s loose ∅⟩
  unfold Store.unpin
  split
  · next x hx =>
    split
    · next hgo =>
      have hzero := hgo.1
      -- without owners it has no handle, no link and no loose owner
      have hown := hb.owners v x hx
      have hself : x.children.count v = 0 := by
        have hle := children_count_le_linkCount (v := v) hx
        have hbd : s.bound v = s.handleCount v + s.linkCount v := rfl
        omega
      have hb₁ : (s.erase v).Balanced fun u => loose u + x.children.count u :=
        hb.erase hx (by omega) (fun _ _ => rfl) (by omega)
      have h₁ : ChangesOnly s (s.erase v) loose ∅ :=
        changesOnly_erase hb (by omega) (by omega) (fun _ => Nat.le_refl _) ∅
      obtain ⟨hb₂, h₂⟩ := hb₁.release
      exact ⟨hb₂, h₁.trans h₂⟩
    · exact hsame
  · exact hsame

/-- **Other pins**: nothing changes for those who hold handles, and what is pinned now stays. -/
theorem Balanced.repin (hb : s.Balanced loose) (pins : List VertexId) :
    (s.repin pins).Balanced loose ∧ ChangesOnly s (s.repin pins) loose ∅
      ∧ (s.repin pins).pinned = pins
      ∧ ∀ v ∈ pins, (∃ x, s.vertex? v = some x) → ∃ y, (s.repin pins).vertex? v = some y := by
  have hpin : ChangesOnly s (s.pinning pins) loose ∅ :=
    .of_owners rfl (fun u x _ hx => ⟨x.owners, hx⟩) hb fun _ => Nat.le_refl _
  have hall : (s.repin pins).Balanced loose ∧ ChangesOnly s (s.repin pins) loose ∅
      ∧ KeepsPins (s.pinning pins) (s.repin pins) := by
    refine repin_induction (P := fun s' => s'.Balanced loose ∧ ChangesOnly s s' loose ∅
      ∧ KeepsPins (s.pinning pins) s') ⟨hb.pinning pins, hpin, .refl _⟩ ?_
    rintro s' v ⟨hb', hchg, hpins⟩
    obtain ⟨hb'', hchg'⟩ := hb'.unpin v
    exact ⟨hb'', hchg.trans hchg', hpins.trans (Moves.keepsPins (moves_unpin s' v))⟩
  obtain ⟨hb', hchg, hpins⟩ := hall
  exact ⟨hb', hchg, hpins.pinned, hpins.live⟩

end Store

end ExprGraph

import ExprGraph.Proofs.Steps
/-!
  The moves inside a step.

  Linking, folding and giving a handle back are made of a few moves (`Store.Move`), whatever the store is like.
  Two of them take something away: an owner of a vertex that has others or is pinned, and a vertex that is
  not pinned.  A rule about stores that each move keeps is therefore kept by each of these steps, failed ones
  included (`moves_link`, `moves_foldWith`, `moves_drop`).
-/

namespace ExprGraph

namespace Store

variable {apply : Operator.Interpretation} {s s' : Store} {p : Place} {v w : VertexId} {x : Vertex}
  {h : Handle}

/-- **One move.** -/
inductive Move : Store → Store → Prop where
  /-- vertices are taken hold of -/
  | addOwners {s : Store} (vs : List VertexId) : Move s (s.addOwners vs)
  /-- a vertex is put in that has owners already -/
  | insert {s : Store} {x : Vertex} (hpos : 0 < x.owners) : Move s (s.insert x).2
  /-- a place is bound elsewhere -/
  | rebind {s : Store} (p : Place) (w : VertexId) : Move s (s.rebind p w)
  /-- a handle is bound to nothing -/
  | unbind {s : Store} (h : Handle) : Move s (s.unbound h)
  /-- a vertex gets new contents -/
  | modify {s : Store} {v : VertexId} {f : Vertex → Vertex} (hf : ∀ x, (f x).owners = x.owners) :
      Move s (s.modify v f)
  /-- an owner is taken from a vertex that has another or is pinned -/
  | dropOwner {s : Store} {v : VertexId} {x : Vertex} (hx : s.vertex? v = some x)
      (hstay : ¬ (x.owners ≤ 1 ∧ v ∉ s.pinned)) : Move s (s.dropOwner v)
  /-- a vertex that is not pinned is taken out -/
  | erase {s : Store} {v : VertexId} {x : Vertex} (hx : s.vertex? v = some x) (hpin : v ∉ s.pinned) :
      Move s (s.erase v)

/-- **Moves, one after the other.** -/
abbrev Moves : Store → Store → Prop := Relation.ReflTransGen Move

/-! ## Releasing -/

theorem moves_release (s : Store) (work : List VertexId) : Moves s (s.release work) := by
  induction s, work using Store.release.induct with
  | case1 s =>
    rw [Store.release]
  | case2 s v rest hx ih =>
    rw [release_dead hx]
    exact ih
  | case3 s v rest x hx hlast ih =>
    rw [release_last hx hlast]
    exact .head (.erase hx hlast.2) ih
  | case4 s v rest x hx hstay ih =>
    rw [release_owned hx hstay]
    exact .head (.dropOwner hx hstay) ih

theorem moves_drop (s : Store) (h : Handle) : Moves s (s.drop h) := by
  cases ht : s.target? h with
  | none =>
    rw [drop_of_none ht]
  | some v =>
    rw [drop_eq ht]
    exact .head (.unbind h) (moves_release _ _)

/-! ## Copy on write -/

/-- The copy that a place gets comes with its owner, and the vertex that was copied keeps one. -/
theorem moves_makeSole (s : Store) (p : Place) : Moves s (s.makeSole p).2.store := by
  cases hp : s.at? p with
  | none =>
    simp only [Store.makeSole, hp]
    exact .refl
  | some v =>
    cases hx : s.vertex? v with
    | none =>
      simp only [Store.makeSole, hp, hx]
      exact .refl
    | some x =>
      by_cases hle : x.owners ≤ 1
      · rw [makeSole_of_le hp hx hle]
      · rw [makeSole_of_lt hp hx hle]
        have hold : (s.copyFor p x).vertex? v
            = some (Vertex.rebound p s.vertices.size v
                { x with owners := x.owners + x.children.count v }) := by
          rw [copyFor, vertex?_rebind, vertex?_withCopy hx]
          rfl
        refine .tail (.tail (.tail (.single (.addOwners x.children)) (.insert Nat.one_pos))
          (.rebind p s.vertices.size)) (.dropOwner hold fun hm => hle ?_)
        have hown := hm.1
        rw [Vertex.owners_rebound] at hown
        exact Nat.le_trans (Nat.le_add_right _ _) hown

theorem moves_overwrite (s : Store) (v : VertexId) (payload : Payload) (links : Option (List VertexId)) :
    Moves s (s.overwrite v payload links) := by
  have hmod : Move s (s.modify v fun x => { x with payload, links }) := .modify fun _ => rfl
  exact .head hmod (moves_release _ _)

theorem moves_replace (s : Store) (p : Place) (payload : Payload) :
    Moves s (s.replace p payload).store := by
  have hsole := moves_makeSole s p
  unfold Store.replace
  split
  · next v c hc =>
    rw [hc] at hsole
    exact hsole.trans (moves_overwrite _ _ _ _)
  · next c hc =>
    rw [hc] at hsole
    exact hsole

theorem moves_link {cs : List TreeLike} {c : Changed} (hc : s.link h cs = .ok c) : Moves s c.store := by
  unfold Store.link at hc
  obtain ⟨hs, -, hc⟩ := exists_of_bind_eq_ok hc
  obtain ⟨⟨u, x⟩, -, hc⟩ := exists_of_bind_eq_ok hc
  obtain ⟨-, -, hc⟩ := exists_of_bind_eq_ok hc
  obtain ⟨vs, -, hc⟩ := exists_of_bind_eq_ok hc
  have hsole := moves_makeSole (s.addOwners vs) (.handle h)
  split at hc
  · cases hc
  · next w c' hw =>
    obtain rfl := Except.ok.inj hc
    rw [hw] at hsole
    exact .head (.addOwners vs) (hsole.trans (moves_overwrite _ _ _ _))

/-! ## Folding -/

theorem moves_expand (s : Store) (p : Place) (count : Nat) : Moves s (s.expand p count).store := by
  have hsole := moves_makeSole s p
  unfold expand
  split <;> next hc =>
    rw [hc] at hsole
    exact hsole

theorem moves_collapse (apply : Operator.Interpretation) (s : Store) (p : Place) (f : Operator)
    (args : List Value) : Moves s (collapse apply s p f args).store := by
  unfold collapse
  split
  · exact .refl
  · exact moves_replace s p _

theorem moves_foldStep (apply : Operator.Interpretation) (s : Store) (t : Pending) :
    Moves s (foldStep apply s t).store := by
  unfold foldStep
  split
  · exact .refl
  · split
    · split
      · split
        · exact moves_collapse apply s _ _ _
        · exact .refl
      · split
        · exact .refl
        · exact moves_expand s _ _
    · exact .refl

theorem moves_foldFrom (apply : Operator.Interpretation) (bound : Nat) :
    ∀ (work : List Pending) (s : Store) (notes : List Note) (n : Nat),
      Moves s (foldFrom apply bound work s notes n).store := by
  induction bound with
  | zero =>
    intro work s notes n
    cases work <;> exact .refl
  | succ bound ih =>
    intro work s notes n
    cases work with
    | nil => exact .refl
    | cons t work =>
      have hstep := moves_foldStep apply s t
      rw [foldFrom]
      -- folding goes on after the step, or ends with its failure
      split
      · next hs =>
        rw [hs] at hstep
        exact hstep.trans (ih _ _ _ _)
      · next hs =>
        rw [hs] at hstep
        exact hstep

theorem moves_foldWith (apply : Operator.Interpretation) (s : Store) (h : Handle) :
    Moves s (s.foldWith apply h).store :=
  moves_foldFrom apply _ _ s [] 0

/-! ## Steps -/

/-- **A step grows the store or is made of moves.** -/
theorem Step.grown_or_moves {edited : Set Handle} (hs : Step apply edited s s') :
    Grown s s' ∨ Moves s s' := by
  cases hs with
  | make p => exact .inl (.make s p)
  | makeLinked hr => exact .inl (.makeLinked hr)
  | bind hx => exact .inl (.bind s _)
  | clone hr => exact .inl (.clone hr)
  | link _ hc => exact .inr (moves_link hc)
  | fold _ => exact .inr (moves_foldWith apply s _)
  | drop g => exact .inr (moves_drop s g)
  | reserve n => exact .inl (.reserve s n)

end Store

end ExprGraph

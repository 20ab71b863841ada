import ExprGraph.Proofs.Listing
/-!
  The two stacks of a walk.

  A walk can be carried out on two stacks that grow and shrink together, one for the way down and one for the
  positions along it.  A call then is a loop.  Each round looks at the ends of the stacks and does one of three
  things: it goes down to an operand, it yields the vertex and ends the call, or it goes back up
  (`Stacks.round`).  Nothing in this loop keeps the stacks together or the indices in range; both have to be shown.

  Main statement: between any two calls, and in every round of a call, the stacks fit together, no index is out
  of range, and what is still to be yielded is the part of the post-order listing that the stacks leave unvisited;
  each call ends, and comes to what a step of the cursor comes to (`Stacks.between_calls`).

    * state      the two stacks, ends first;
    * round      down, stop or up, as the position is below, at or past the number of operands;
    * invariant  each entry but the last one stands at the operand that comes next on the way
                 (`Cursor.Ordered`), and what is pending does not change within a call;
    * measure    that of the cursor: the length of the path on the way up, the height of a term on the way down.
-/

namespace ExprGraph

/-- **The two stacks of a walk**, their ends first. -/
structure Stacks where
  /-- the vertices from the one the walk stands on up to the root -/
  path : List VertexId
  /-- for each of them the operand to visit next -/
  positions : List Nat
  deriving DecidableEq

/-- What a round comes to. -/
inductive Round where
  /-- the call goes on -/
  | goesOn (k : Stacks)
  /-- the call ends and yields a vertex -/
  | yields (v : VertexId) (k : Stacks)
  /-- the call ends with nothing -/
  | exhausted (k : Stacks)
  /-- an entry or an operand was asked for that is not there -/
  | outOfRange
  deriving DecidableEq

namespace Stacks

/-- The end of a stack of positions moved on by one, if there is an end. -/
def moveOn : List Nat → List Nat
  | [] => []
  | i :: positions => (i + 1) :: positions

/-- **One round of a call.** -/
def round (s : Store) : Stacks → Round
  | ⟨[], positions⟩ => .exhausted ⟨[], positions⟩
  | ⟨_ :: _, []⟩ => .outOfRange
  | ⟨v :: path, i :: positions⟩ =>
    if i < (s.operands v).length then
      match (s.operands v)[i]? with
      | some w => .goesOn ⟨w :: v :: path, 0 :: i :: positions⟩
      | none => .outOfRange
    else if i = (s.operands v).length then .yields v ⟨v :: path, (i + 1) :: positions⟩
    else .goesOn ⟨path, moveOn positions⟩

/-- **A call**: rounds up to the first that does not go on. -/
inductive Call (s : Store) : Stacks → Round → Prop where
  /-- the last round -/
  | last {k : Stacks} (h : ∀ k', k.round s ≠ .goesOn k') : Call s k (k.round s)
  /-- a round that goes on -/
  | more {k k' : Stacks} {r : Round} (h : k.round s = .goesOn k') (hcall : Call s k' r) : Call s k r

/-- **Rounds of one call** lead from the first stacks to the second. -/
def Leads (s : Store) : Stacks → Stacks → Prop :=
  Relation.ReflTransGen fun k k' => k.round s = .goesOn k'

/-- **The stacks fit together.** -/
structure Fits (s : Store) (k : Stacks) : Prop where
  /-- they are equally long -/
  length_eq : k.positions.length = k.path.length
  /-- every entry but the last stands at an operand, and that is the entry after it -/
  inner : ∀ n v i, k.path[n + 1]? = some v → k.positions[n + 1]? = some i →
    i < (s.operands v).length ∧ (s.operands v)[i]? = k.path[n]?
  /-- the last entry is at most one past its operands -/
  last : ∀ v i, k.path.head? = some v → k.positions.head? = some i → i ≤ (s.operands v).length + 1

/-- **What the stacks leave unvisited**: below the last entry the operands from its position on, and the entry
    itself unless it is past them; then, upwards, each entry with the operands after the one it stands at. -/
def pending (s : Store) (k : Stacks) : List VertexId :=
  Cursor.pending s (List.zipWith Frame.mk k.path k.positions)

variable {s : Store} {k k' : Stacks} {r r' : Round}

/-- **A call comes to one thing.** -/
theorem Call.unique (h : Call s k r) (h' : Call s k r') : r = r' := by
  induction h with
  | last hlast =>
    cases h' with
    | last => rfl
    | more hround _ => exact absurd hround (hlast _)
  | more hround _ ih =>
    cases h' with
    | last hlast => exact absurd hround (hlast _)
    | more hround' hcall =>
      obtain rfl := Round.goesOn.inj (hround.symm.trans hround')
      exact ih hcall

end Stacks

namespace Cursor

variable {s : Store} {v w root : VertexId} {t : Term} {x : Vertex} {path : List Frame} {i j n : Nat}
  {k k' : Stacks} {c : Cursor}

/-! ## Paths as stacks -/

/-- The stacks of a path. -/
def stacksOf (path : List Frame) : Stacks := ⟨path.map Frame.vertex, path.map Frame.position⟩

/-- The stacks of a walk. -/
def asStacks (c : Cursor) : Stacks := stacksOf c.path

/-- What a step of a walk is as a round that ends a call. -/
def asRound : Option VertexId × Cursor → Round
  | (some v, c) => .yields v c.asStacks
  | (none, c) => .exhausted c.asStacks

/-- A path is read back from its stacks. -/
theorem zipWith_stacksOf (path : List Frame) :
    List.zipWith Frame.mk (stacksOf path).path (stacksOf path).positions = path := by
  rw [stacksOf, List.zipWith_map, List.zipWith_self]
  exact List.map_id path

theorem pending_stacksOf (s : Store) (path : List Frame) : (stacksOf path).pending s = pending s path := by
  rw [Stacks.pending, zipWith_stacksOf]

theorem stacksOf_injective {path path' : List Frame} (h : stacksOf path = stacksOf path') : path = path' := by
  rw [← zipWith_stacksOf path, h, zipWith_stacksOf]

/-- Down to an operand, -/
theorem round_down (hw : (s.operands v)[i]? = some w) :
    (stacksOf (⟨v, i⟩ :: path)).round s = .goesOn (stacksOf (⟨w, 0⟩ :: ⟨v, i⟩ :: path)) := by
  obtain ⟨hlt, -⟩ := List.getElem?_eq_some_iff.mp hw
  simp only [stacksOf, List.map_cons, Stacks.round, if_pos hlt, hw]

/-- a stop when there is none left, -/
theorem round_stop (s : Store) (v : VertexId) (path : List Frame) :
    (stacksOf (⟨v, (s.operands v).length⟩ :: path)).round s
      = .yields v (stacksOf (⟨v, (s.operands v).length + 1⟩ :: path)) := by
  simp only [stacksOf, List.map_cons, Stacks.round, if_neg (Nat.lt_irrefl _), if_true]

/-- up to the end of the walk, -/
theorem round_end (hi : (s.operands v).length < i) :
    (stacksOf [⟨v, i⟩]).round s = .goesOn (stacksOf []) := by
  simp only [stacksOf, List.map_cons, Stacks.round, if_neg (Nat.lt_asymm hi), if_neg (Nat.ne_of_gt hi)]
  rfl

/-- or up to the entry above, which goes on after the operand it stood at. -/
theorem round_up (hi : (s.operands v).length < i) :
    (stacksOf (⟨v, i⟩ :: ⟨w, j⟩ :: path)).round s = .goesOn (stacksOf (⟨w, j + 1⟩ :: path)) := by
  simp only [stacksOf, List.map_cons, Stacks.round, if_neg (Nat.lt_asymm hi), if_neg (Nat.ne_of_gt hi)]
  rfl

/-! ## Paths in order -/

/-- **A path in order**: each frame but the last stands at the operand that comes next on the way down, and the
    last is at most one past its operands. -/
structure Ordered (s : Store) (path : List Frame) : Prop where
  inner : path.IsChain fun f g => (s.operands g.vertex)[g.position]? = some f.vertex
  last : ∀ f ∈ path.head?, f.position ≤ (s.operands f.vertex).length + 1

/-- The last frame was not yielded yet, if there is one. -/
def Unyielded (s : Store) (path : List Frame) : Prop :=
  ∀ f ∈ path.head?, f.position ≤ (s.operands f.vertex).length

/-- **The stacks of a path in order fit together.** -/
theorem Ordered.fits (ho : Ordered s path) : (stacksOf path).Fits s where
  length_eq := by simp [stacksOf]
  inner n v i hv hi := by
    obtain ⟨g, hg, rfl⟩ := List.getElem?_map ▸ hv |> Option.map_eq_some_iff.mp
    have hpos : (path.map Frame.position)[n + 1]? = some g.position := by
      rw [List.getElem?_map, hg]
      rfl
    obtain rfl := Option.some.inj (hpos.symm.trans hi)
    obtain ⟨hlt, rfl⟩ := List.getElem?_eq_some_iff.mp hg
    have hlink := List.isChain_iff_getElem.mp ho.inner n hlt
    have hentry : (path.map Frame.vertex)[n]? = some path[n].vertex := by
      rw [List.getElem?_map, List.getElem?_eq_getElem (Nat.lt_of_succ_lt hlt)]
      rfl
    exact ⟨(List.getElem?_eq_some_iff.mp hlink).1, hlink.trans hentry.symm⟩
  last v i hv hi := by
    cases path with
    | nil => cases hv
    | cons f path =>
      obtain rfl := Option.some.inj hv
      obtain rfl := Option.some.inj hi
      exact ho.last f rfl

theorem ordered_nil (s : Store) : Ordered s [] := ⟨.nil, fun f hf => by cases hf⟩

theorem ordered_start (s : Store) (root : VertexId) : Ordered s (start root).path where
  inner := .singleton _
  last f hf := by
    obtain rfl := Option.some.inj hf
    exact Nat.zero_le _

/-- The last frame of a path in order may stand elsewhere among its operands. -/
theorem Ordered.move (ho : Ordered s (⟨v, i⟩ :: path)) (hj : j ≤ (s.operands v).length + 1) :
    Ordered s (⟨v, j⟩ :: path) where
  inner := by
    cases path with
    | nil => exact .singleton _
    | cons g path =>
      obtain ⟨hlink, hrest⟩ := List.isChain_cons_cons.mp ho.inner
      exact List.isChain_cons_cons.mpr ⟨hlink, hrest⟩
  last f hf := by
    obtain rfl := Option.some.inj hf
    exact hj

/-- Down to an operand, the order is kept, -/
theorem Ordered.down (ho : Ordered s (⟨v, i⟩ :: path)) (hw : (s.operands v)[i]? = some w) :
    Ordered s (⟨w, 0⟩ :: ⟨v, i⟩ :: path) where
  inner := List.isChain_cons_cons.mpr ⟨hw, ho.inner⟩
  last f hf := by
    obtain rfl := Option.some.inj hf
    exact Nat.zero_le _

/-- and up to the frame above as well: that one stood at an operand, so it is past them at most by one. -/
theorem Ordered.up (ho : Ordered s (⟨v, i⟩ :: ⟨w, j⟩ :: path)) :
    Ordered s (⟨w, j + 1⟩ :: path) ∧ j + 1 ≤ (s.operands w).length := by
  obtain ⟨hlink, hrest⟩ := List.isChain_cons_cons.mp ho.inner
  have hj : j + 1 ≤ (s.operands w).length := (List.getElem?_eq_some_iff.mp hlink).1
  have hlast : ∀ f ∈ (⟨w, j⟩ :: path).head?, f.position ≤ (s.operands f.vertex).length + 1 := by
    intro f hf
    obtain rfl := Option.some.inj hf
    exact Nat.le_succ_of_le (Nat.le_of_succ_le hj)
  exact ⟨Ordered.move ⟨hrest, hlast⟩ (Nat.le_succ_of_le hj), hj⟩

/-- An operand put on yields what was pending at its place. -/
theorem pending_down (hw : (s.operands v)[i]? = some w) (ht : s.Unfolds w t) :
    pending s (⟨w, 0⟩ :: ⟨v, i⟩ :: path) = pending s (⟨v, i⟩ :: path) := by
  show own s ⟨w, 0⟩ ++ (own s ⟨v, i + 1⟩ ++ above s path) = own s ⟨v, i⟩ ++ above s path
  rw [own_start ht, own_of_lt hw, List.append_assoc]

theorem unyielded_cons : Unyielded s (⟨v, i⟩ :: path) ↔ i ≤ (s.operands v).length := by
  constructor
  · exact fun h => h ⟨v, i⟩ rfl
  · intro h f hf
    obtain rfl := Option.some.inj hf
    exact h

/-- **A round that goes on keeps the order**, leaves the last frame unyielded, and leaves what is pending. -/
theorem Ordered.goesOn (ho : Ordered s path) (hg : Grounded s path) (h : (stacksOf path).round s = .goesOn k) :
    ∃ path', k = stacksOf path' ∧ Ordered s path' ∧ Grounded s path' ∧ Unyielded s path'
      ∧ pending s path' = pending s path := by
  cases path with
  | nil => cases h
  | cons f path =>
    obtain ⟨v, i⟩ := f
    rcases Nat.lt_trichotomy i (s.operands v).length with hlt | rfl | hgt
    · have hw := List.getElem?_eq_getElem hlt
      rw [round_down hw] at h
      obtain rfl := Round.goesOn.inj h
      obtain ⟨t, ht⟩ := hg ⟨v, i⟩ List.mem_cons_self
      obtain ⟨u, -, hwu, -⟩ := ht.operand (List.getElem_mem hlt)
      exact ⟨_, rfl, ho.down hw, hg.cons hwu 0, unyielded_cons.mpr (Nat.zero_le _), pending_down hw hwu⟩
    · rw [round_stop] at h
      cases h
    · cases path with
      | nil =>
        rw [round_end hgt] at h
        obtain rfl := Round.goesOn.inj h
        exact ⟨[], rfl, ordered_nil s, hg.tail, (fun f hf => by cases hf), (pending_end hgt).symm⟩
      | cons g path =>
        obtain ⟨u, j⟩ := g
        rw [round_up hgt] at h
        obtain rfl := Round.goesOn.inj h
        obtain ⟨hup, hj⟩ := ho.up
        obtain ⟨t, ht⟩ := hg ⟨u, j⟩ (List.mem_cons_of_mem _ List.mem_cons_self)
        exact ⟨_, rfl, hup, hg.tail.tail.cons ht _, unyielded_cons.mpr hj, (pending_up hgt u j path).symm⟩

/-- **Within a call** the order is kept and the same is pending; after a round the last frame is unyielded. -/
theorem Ordered.leads (ho : Ordered s path) (hg : Grounded s path) (h : (stacksOf path).Leads s k) :
    ∃ path', k = stacksOf path' ∧ Ordered s path' ∧ Grounded s path'
      ∧ (k = stacksOf path ∨ Unyielded s path') ∧ pending s path' = pending s path := by
  induction h with
  | refl => exact ⟨path, rfl, ho, hg, .inl rfl, rfl⟩
  | tail _ hround ih =>
    obtain ⟨path', rfl, ho', hg', -, hpend⟩ := ih
    obtain ⟨path'', hk, ho'', hg'', hun, hpend'⟩ := ho'.goesOn hg' hround
    exact ⟨path'', hk, ho'', hg'', .inr hun, hpend'.trans hpend⟩

/-- No round of a path is out of range. -/
theorem round_ne_outOfRange (path : List Frame) : (stacksOf path).round s ≠ .outOfRange := by
  cases path with
  | nil => exact fun h => by cases h
  | cons f path =>
    obtain ⟨v, i⟩ := f
    rcases Nat.lt_trichotomy i (s.operands v).length with hlt | rfl | hgt
    · rw [round_down (List.getElem?_eq_getElem hlt)]
      exact fun h => by cases h
    · rw [round_stop]
      exact fun h => by cases h
    · cases path with
      | nil =>
        rw [round_end hgt]
        exact fun h => by cases h
      | cons g path =>
        rw [round_up hgt]
        exact fun h => by cases h

/-! ## Calls as steps -/

/-- A round that stops ends the call. -/
theorem call_stop (s : Store) (v : VertexId) (path : List Frame) :
    Stacks.Call s (stacksOf (⟨v, (s.operands v).length⟩ :: path))
      (.yields v (stacksOf (⟨v, (s.operands v).length + 1⟩ :: path))) := by
  rw [← round_stop]
  refine .last fun k' h => ?_
  rw [round_stop] at h
  cases h

/-- **Rounds go down as the cursor does**, when it may go deep enough. -/
theorem call_descend {depth : Nat} (ht : s.Unfolds v t) (hd : t.height ≤ depth + 1) (path : List Frame) :
    Stacks.Call s (stacksOf (⟨v, 0⟩ :: path))
      (.yields (descend s depth v path).1 (descend s depth v path).2.asStacks) := by
  induction depth generalizing v t path with
  | zero =>
    -- a term of height one has no operands
    have hops : s.operands v = [] := by
      refine List.eq_nil_iff_forall_not_mem.mpr fun w hw => ?_
      obtain ⟨u, -, -, hlt⟩ := ht.operand hw
      have hpos := u.height_pos
      omega
    have hstop := call_stop s v path
    rw [hops] at hstop
    rw [descend, hops]
    exact hstop
  | succ depth ih =>
    rw [descend]
    split
    · next hops =>
      have hstop := call_stop s v path
      rw [hops] at hstop
      exact hstop
    · next w ws hops =>
      obtain ⟨u, -, hwu, hlt⟩ := ht.operand (w := w) (by rw [hops]; exact List.mem_cons_self)
      have hfirst : (s.operands v)[0]? = some w := by rw [hops]; rfl
      exact .more (round_down hfirst) (ih hwu (by omega) _)

theorem call_nil (s : Store) : Stacks.Call s (stacksOf []) (.exhausted (stacksOf [])) :=
  .last (k := stacksOf []) fun _ h => by cases h

/-- **A call comes to what a step of the cursor comes to.** -/
theorem call_next (hg : Grounded s path) : Stacks.Call s (stacksOf path) (asRound (next s ⟨path⟩)) := by
  induction path using advance.induct s with
  | case1 =>
    have hnext : next s ⟨[]⟩ = (none, ⟨[]⟩) := by rw [next, advance.eq_def]
    rw [hnext]
    exact call_nil s
  | case2 v i rest w hw =>
    obtain ⟨t, ht⟩ := hg ⟨v, i⟩ List.mem_cons_self
    obtain ⟨u, -, hwu, -⟩ := ht.operand (List.mem_of_getElem? hw)
    have hnext : next s ⟨⟨v, i⟩ :: rest⟩
        = (some (descend s s.vertices.size w (⟨v, i⟩ :: rest)).1,
          (descend s s.vertices.size w (⟨v, i⟩ :: rest)).2) := by
      rw [next, advance_down hw]
    rw [hnext]
    exact .more (round_down hw) (call_descend hwu (Nat.le_succ_of_le hwu.height_le_size) _)
  | case3 v rest hw =>
    have hnext : next s ⟨⟨v, (s.operands v).length⟩ :: rest⟩
        = (some v, ⟨⟨v, (s.operands v).length + 1⟩ :: rest⟩) := by
      rw [next, advance_stop]
    rw [hnext]
    exact call_stop s v rest
  | case4 v i hw hne =>
    have hlt : (s.operands v).length < i := by
      have hle := List.getElem?_eq_none_iff.mp hw
      omega
    have hnext : next s ⟨[⟨v, i⟩]⟩ = (none, ⟨[]⟩) := by rw [next, advance_end hlt]
    rw [hnext]
    exact .more (round_end hlt) (call_nil s)
  | case5 v i hw hne u j rest ih =>
    have hlt : (s.operands v).length < i := by
      have hle := List.getElem?_eq_none_iff.mp hw
      omega
    obtain ⟨t, ht⟩ := hg ⟨u, j⟩ (List.mem_cons_of_mem _ List.mem_cons_self)
    have hnext : next s ⟨⟨v, i⟩ :: ⟨u, j⟩ :: rest⟩ = next s ⟨⟨u, j + 1⟩ :: rest⟩ := by
      rw [next, next, advance_up hlt]
    rw [hnext]
    exact .more (round_up hlt) (ih (hg.tail.tail.cons ht (j + 1)))

/-- **What a call leaves behind**: a path in order that ends in the vertex yielded, one past its operands, or
    nothing. -/
theorem Ordered.call (ho : Ordered s path) (hg : Grounded s path) (h : Stacks.Call s (stacksOf path) r) :
    (∃ v rest, r = .yields v (stacksOf (⟨v, (s.operands v).length + 1⟩ :: rest))
      ∧ Ordered s (⟨v, (s.operands v).length + 1⟩ :: rest)) ∨ r = .exhausted (stacksOf []) := by
  generalize hk : stacksOf path = k at h
  induction h generalizing path with
  | @last k hlast =>
    subst hk
    cases path with
    | nil => exact .inr rfl
    | cons f path =>
      obtain ⟨v, i⟩ := f
      rcases Nat.lt_trichotomy i (s.operands v).length with hlt | rfl | hgt
      · exact absurd (round_down (List.getElem?_eq_getElem hlt)) (hlast _)
      · exact .inl ⟨v, path, round_stop s v path, ho.move (Nat.le_refl _)⟩
      · cases path with
        | nil => exact absurd (round_end hgt) (hlast _)
        | cons g path => exact absurd (round_up hgt) (hlast _)
  | more hround _ ih =>
    subst hk
    obtain ⟨path', rfl, ho', hg', -, -⟩ := ho.goesOn hg hround
    exact ih ho' hg' rfl

/-- **After a step that yields** the path is in order, and ends in the vertex yielded, one past its operands. -/
theorem Ordered.next (ho : Ordered s path) (hg : Grounded s path) (h : next s ⟨path⟩ = (some v, c)) :
    ∃ rest, c.path = ⟨v, (s.operands v).length + 1⟩ :: rest ∧ Ordered s c.path := by
  have hcall := call_next hg
  rw [h] at hcall
  rcases ho.call hg hcall with ⟨w, rest, hr, hrest⟩ | hr
  · obtain ⟨rfl, hstacks⟩ := Round.yields.inj hr
    have hpath := stacksOf_injective hstacks
    exact ⟨rest, hpath, hpath ▸ hrest⟩
  · cases hr

/-! ## After some calls -/

/-- The walk after a number of calls. -/
def after (s : Store) (c : Cursor) : Nat → Cursor
  | 0 => c
  | n + 1 => ((after s c n).next s).2

/-- **A walk after some calls**: so many vertices of the walk by recursion were yielded, and the path ends in the
    last of them. -/
structure Reached (s : Store) (root : VertexId) (n : Nat) : Prop where
  grounded : Grounded s (after s (start root) n).path
  ordered : Ordered s (after s (start root) n).path
  pending_eq : pending s (after s (start root) n).path = (s.walk root).drop n
  /-- at the beginning nothing was visited, and later the end of the path is one past its operands -/
  last : ∀ f ∈ (after s (start root) n).path.head?, (n = 0 ∧ f.position = 0)
    ∨ ∃ m, n = m + 1 ∧ ((after s (start root) m).next s).1 = some f.vertex
      ∧ f.position = (s.operands f.vertex).length + 1

theorem reached_start (ht : s.Unfolds root t) : Reached s root 0 where
  grounded := grounded_start ht
  ordered := ordered_start s root
  pending_eq := pending_start ht
  last f hf := by
    obtain rfl := Option.some.inj hf
    exact .inl ⟨rfl, rfl⟩

/-- **One more call.** -/
theorem Reached.next (h : Reached s root n) : Reached s root (n + 1)
    ∧ ((after s (start root) n).next s).1 = (s.walk root)[n]? := by
  rcases next_spec h.grounded with ⟨hnone, hpend⟩ | ⟨v, c', hsome, hyield, hground⟩
  · -- the walk is over, and all was yielded
    have hafter : after s (start root) (n + 1) = ⟨[]⟩ := congrArg Prod.snd (next_of_fst_none hnone)
    rw [h.pending_eq] at hpend
    have hle := List.drop_eq_nil_iff.mp hpend
    refine ⟨⟨?_, ?_, ?_, ?_⟩, hnone.trans (List.getElem?_eq_none hle).symm⟩
    · rw [hafter]
      exact fun f hf => absurd hf List.not_mem_nil
    · rw [hafter]
      exact ordered_nil s
    · rw [hafter, List.drop_eq_nil_of_le (Nat.le_succ_of_le hle)]
      rfl
    · rw [hafter]
      exact fun f hf => by cases hf
  · -- the first of what was pending is yielded, and the rest stays pending
    have hafter : after s (start root) (n + 1) = c' := congrArg Prod.snd hsome
    obtain ⟨rest, hrest, ho⟩ := h.ordered.next h.grounded hsome
    rw [h.pending_eq] at hyield
    have hlt : n < (s.walk root).length := by
      by_contra hge
      rw [List.drop_eq_nil_of_le (Nat.le_of_not_lt hge)] at hyield
      cases hyield
    rw [List.drop_eq_getElem_cons hlt] at hyield
    obtain ⟨rfl, hpend⟩ := List.cons.inj hyield
    refine ⟨⟨?_, ?_, ?_, ?_⟩, ?_⟩
    · rw [hafter]
      exact hground
    · rw [hafter]
      exact ho
    · rw [hafter]
      exact hpend
    · rw [hafter, hrest]
      rintro f hf
      obtain rfl := Option.some.inj hf
      exact .inr ⟨n, rfl, congrArg Prod.fst hsome, rfl⟩
    · rw [hsome, List.getElem?_eq_getElem hlt]

/-- **The last entry is past its operands just after it was yielded**, before the first round of the next call. -/
theorem Reached.past_iff {f : Frame} (h : Reached s root n)
    (hun : stacksOf (f :: path) = (after s (start root) n).asStacks ∨ Unyielded s (f :: path)) :
    f.position = (s.operands f.vertex).length + 1 ↔ stacksOf (f :: path) = (after s (start root) n).asStacks
      ∧ ∃ m, n = m + 1 ∧ ((after s (start root) m).next s).1 = some f.vertex := by
  have hhead : stacksOf (f :: path) = (after s (start root) n).asStacks →
      f ∈ (after s (start root) n).path.head? := by
    intro hsame
    rw [← stacksOf_injective hsame]
    rfl
  constructor
  · intro hpast
    have hsame : stacksOf (f :: path) = (after s (start root) n).asStacks := by
      refine hun.resolve_right fun hun => ?_
      have hle := hun f rfl
      omega
    refine ⟨hsame, ?_⟩
    rcases h.last f (hhead hsame) with ⟨-, hzero⟩ | ⟨m, hm, hyield, -⟩
    · omega
    · exact ⟨m, hm, hyield⟩
  · rintro ⟨hsame, m, hm, -⟩
    rcases h.last f (hhead hsame) with ⟨hzero, -⟩ | ⟨-, -, -, hpast⟩
    · omega
    · exact hpast

/-- **After any number of calls.** -/
theorem reached (ht : s.Unfolds root t) (n : Nat) : Reached s root n := by
  induction n with
  | zero => exact reached_start ht
  | succ n ih => exact ih.next.1

end Cursor

namespace Stacks

open Cursor (after start)

variable {s : Store} {root : VertexId} {x : Vertex}

/-- **Between calls and within them.**  Let a walk from a live vertex have had any number of calls, in a closed
    store without circles.  The next call on its two stacks ends and comes to what the next step of the cursor
    comes to.  In every round of that call, the first included, the stacks fit together and nothing is out of
    range; the last entry is one past its operands just between the calls, after it was yielded; and what the
    stacks leave unvisited is the rest of the post-order listing, which later calls yield one by one. -/
theorem between_calls (hc : s.Closed) (ha : s.Acyclic) (hx : s.vertex? root = some x) :
    ∃ vs, (∀ ws, s.Listing root ws ↔ ws = vs)
      ∧ ∀ n, (∀ r, Call s (after s (start root) n).asStacks r
            ↔ r = Cursor.asRound ((after s (start root) n).next s))
        ∧ ∀ k, Leads s (after s (start root) n).asStacks k →
          k.Fits s ∧ k.round s ≠ .outOfRange
          ∧ (∀ v i, k.path.head? = some v → k.positions.head? = some i →
            (i = (s.operands v).length + 1 ↔ k = (after s (start root) n).asStacks
              ∧ ∃ m, n = m + 1 ∧ ((after s (start root) m).next s).1 = some v))
          ∧ k.pending s = vs.drop n
          ∧ ∀ j, ((after s (start root) (n + j)).next s).1 = (k.pending s)[j]? := by
  obtain ⟨t, ht⟩ := hc.exists_unfolds ha hx
  refine ⟨s.walk root, fun ws => ⟨ht.listing_unique, ?_⟩, fun n => ⟨fun r => ⟨?_, ?_⟩, fun k hk => ?_⟩⟩
  · rintro rfl
    exact ht.listing
  · exact fun hcall => hcall.unique (Cursor.call_next (Cursor.reached ht n).grounded)
  · rintro rfl
    exact Cursor.call_next (Cursor.reached ht n).grounded
  · have hreached := Cursor.reached ht n
    obtain ⟨path, rfl, ho, hg, hun, hpend⟩ := hreached.ordered.leads hreached.grounded hk
    have hrest : (Cursor.stacksOf path).pending s = (s.walk root).drop n := by
      rw [Cursor.pending_stacksOf, hpend, hreached.pending_eq]
    refine ⟨ho.fits, Cursor.round_ne_outOfRange path, fun v i hv hi => ?_, hrest, fun j => ?_⟩
    · cases path with
      | nil => cases hv
      | cons f path =>
        obtain rfl := Option.some.inj hv
        obtain rfl := Option.some.inj hi
        exact hreached.past_iff hun
    · rw [hrest, List.getElem?_drop]
      exact (Cursor.reached ht (n + j)).next.2

end Stacks

namespace Session

/-- Three calls on the sum `2 * x + f() + 2 * x` have yielded the first product; the next round leaves it, and the
    sum stands at its second operand. -/
theorem between_calls_inertChild :
    (run Operator.apply inertChild).store.Closed ∧ (run Operator.apply inertChild).store.Acyclic
      ∧ (run Operator.apply inertChild).store.vertex? 4
        = some ⟨.op ⟨.add, "add", none, some "+", some .add⟩, some [3, 2, 3], 1⟩
      ∧ (Cursor.after (run Operator.apply inertChild).store (.start 4) 3).asStacks = ⟨[3, 4], [3, 0]⟩
      ∧ Stacks.Leads (run Operator.apply inertChild).store
          (Cursor.after (run Operator.apply inertChild).store (.start 4) 3).asStacks ⟨[4], [1]⟩
      ∧ Stacks.Fits (run Operator.apply inertChild).store ⟨[4], [1]⟩
      ∧ ∀ j, ((Cursor.after (run Operator.apply inertChild).store (.start 4) (3 + j)).next
          (run Operator.apply inertChild).store).1 = [2, 1, 0, 3, 4][j]? := by
  have hb := balanced_run Operator.apply inertChild
  have hlive : (run Operator.apply inertChild).store.vertex? 4
      = some ⟨.op ⟨.add, "add", none, some "+", some .add⟩, some [3, 2, 3], 1⟩ := rfl
  have hthird : (Cursor.after (run Operator.apply inertChild).store (.start 4) 3).asStacks
      = ⟨[3, 4], [3, 0]⟩ := by decide +kernel
  have hround : Stacks.round (run Operator.apply inertChild).store ⟨[3, 4], [3, 0]⟩
      = .goesOn ⟨[4], [1]⟩ := by decide +kernel
  have hleads : Stacks.Leads (run Operator.apply inertChild).store
      (Cursor.after (run Operator.apply inertChild).store (.start 4) 3).asStacks ⟨[4], [1]⟩ := by
    rw [hthird]
    exact .single hround
  have hrest : Stacks.pending (run Operator.apply inertChild).store ⟨[4], [1]⟩ = [2, 1, 0, 3, 4] := by
    decide +kernel
  obtain ⟨vs, -, hcalls⟩ := Stacks.between_calls hb.closed hb.acyclic hlive
  obtain ⟨hfits, -, -, -, hlater⟩ := (hcalls 3).2 ⟨[4], [1]⟩ hleads
  rw [hrest] at hlater
  exact ⟨hb.closed, hb.acyclic, hlive, hthird, hleads, hfits, hlater⟩

end Session

end ExprGraph

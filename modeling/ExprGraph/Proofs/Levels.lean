import ExprGraph.Proofs.Renderings
import ExprGraph.Script.Running
/-!
  The listing by level.

  Main statement: the breadth-first listing of a tree is its levels one after the other, and it has the same
  occurrences as the post-order listing (`Store.breadth_first_by_level`).

    * spec       a level is the operands of the level above it, from left to right (`Store.level`);
    * state      the queue, and the vertices done;
    * invariant  what is left of a level stands in front of the operands of what is done (`drain_level`);
    * measure    the number of occurrences below the queue.

  Levels and walks are compared for several roots at once, so one level down is a case of the same statement.
-/

namespace ExprGraph

/-- The terms a number of steps below some terms, from left to right. -/
def Term.level (roots : List Term) : Nat → List Term
  | 0 => roots
  | k + 1 => (Term.level roots k).flatMap Term.operands

namespace Store

variable {s : Store} {v w : VertexId} {t : Term} {vs ws : List VertexId} {ts : List Term}

/-- **The vertices a number of steps below some vertices**, from left to right: the operands of the level
    above. -/
def level (s : Store) (roots : List VertexId) : Nat → List VertexId
  | 0 => roots
  | k + 1 => (s.level roots k).flatMap s.operands

/-- A level further down is a level of the operands. -/
theorem level_operands (s : Store) (vs : List VertexId) (k : Nat) :
    s.level vs (k + 1) = s.level (vs.flatMap s.operands) k := by
  induction k with
  | zero => rfl
  | succ k ih => rw [level, ih, level]

/-- **The levels run along those of the terms.** -/
theorem unfolds_level (h : List.Forall₂ s.Unfolds vs ts) (k : Nat) :
    List.Forall₂ s.Unfolds (s.level vs k) (Term.level ts k) := by
  induction k with
  | zero => exact h
  | succ k ih =>
    refine Pointwise.flatMap (ih.imp fun w u hwu => ?_)
    obtain ⟨x, hx⟩ := hwu.exists_vertex
    rw [operands_of_vertex? hx]
    exact hwu.operands hx

/-- All vertices of a list unfold. -/
def AllUnfold (s : Store) (vs : List VertexId) : Prop := ∀ v ∈ vs, ∃ t, s.Unfolds v t

theorem AllUnfold.operands (hu : s.AllUnfold vs) : s.AllUnfold (vs.flatMap s.operands) := by
  intro w hw
  obtain ⟨v, hv, hwv⟩ := List.mem_flatMap.mp hw
  obtain ⟨t, ht⟩ := hu v hv
  obtain ⟨u, -, hwu, -⟩ := ht.operand hwv
  exact ⟨u, hwu⟩

/-! ## Depth -/

/-- The depth of a vertex by those of its operands. -/
theorem Unfolds.depth_eq (ht : s.Unfolds v t) :
    s.depth v = depthAbove ((s.operands v).map s.depth) := by
  obtain ⟨x, hx⟩ := ht.exists_vertex
  have hops : List.Forall₂ (Term.Derives DeepAs) t.operands (x.operands.map s.depth) := by
    rw [List.forall₂_map_right_iff]
    exact ((ht.operands hx).imp fun w u hwu => hwu.depth_iff.mpr rfl).flip
  rw [operands_of_vertex? hx]
  exact ht.depth_iff.mp (.intro hops ((deepAs_iff _ _ _).mpr rfl))

theorem lt_foldl_max_iff {ds : List Nat} {k : Nat} : k < ds.foldl max 0 ↔ ∃ d ∈ ds, k < d := by
  by_cases hsome : ds = []
  · simp [hsome]
  · obtain ⟨hmem, hmax⟩ := (foldl_max_eq_iff hsome).mp rfl
    constructor
    · exact fun hk => ⟨_, hmem, hk⟩
    · rintro ⟨d, hd, hk⟩
      exact Nat.lt_of_lt_of_le hk (hmax d hd)

/-- **A vertex reaches one step further down than its operands.** -/
theorem Unfolds.lt_depth_iff (ht : s.Unfolds v t) {k : Nat} :
    k + 1 < s.depth v ↔ ∃ w ∈ s.operands v, k < s.depth w := by
  rw [ht.depth_eq, depthAbove, Nat.succ_lt_succ_iff, lt_foldl_max_iff]
  simp only [List.mem_map, exists_exists_and_eq_and]

theorem Unfolds.depth_pos (ht : s.Unfolds v t) : 0 < s.depth v := by
  rw [ht.depth_eq]
  exact Nat.succ_pos _

/-- **A level has vertices exactly as long as one of the roots reaches there.** -/
theorem level_ne_nil_iff (hu : s.AllUnfold vs) (k : Nat) :
    s.level vs k ≠ [] ↔ ∃ v ∈ vs, k < s.depth v := by
  induction k generalizing vs with
  | zero =>
    show vs ≠ [] ↔ _
    constructor
    · intro hne
      obtain ⟨v, hv⟩ := List.exists_mem_of_ne_nil vs hne
      obtain ⟨t, ht⟩ := hu v hv
      exact ⟨v, hv, ht.depth_pos⟩
    · rintro ⟨v, hv, -⟩
      exact List.ne_nil_of_mem hv
  | succ k ih =>
    rw [level_operands, ih hu.operands]
    constructor
    · rintro ⟨w, hw, hk⟩
      obtain ⟨v, hv, hwv⟩ := List.mem_flatMap.mp hw
      obtain ⟨t, ht⟩ := hu v hv
      exact ⟨v, hv, ht.lt_depth_iff.mpr ⟨w, hwv, hk⟩⟩
    · rintro ⟨v, hv, hk⟩
      obtain ⟨t, ht⟩ := hu v hv
      obtain ⟨w, hwv, hkw⟩ := ht.lt_depth_iff.mp hk
      exact ⟨w, List.mem_flatMap.mpr ⟨v, hv, hwv⟩, hkw⟩

/-- The roots reach down no further than a depth. -/
def Shallow (s : Store) (vs : List VertexId) (d : Nat) : Prop := ∀ v ∈ vs, s.depth v ≤ d

theorem AllUnfold.eq_nil (hu : s.AllUnfold vs) (hd : s.Shallow vs 0) : vs = [] := by
  refine List.eq_nil_iff_forall_not_mem.mpr fun v hv => ?_
  obtain ⟨t, ht⟩ := hu v hv
  have hpos := ht.depth_pos
  have hle := hd v hv
  omega

theorem AllUnfold.shallow_operands {d : Nat} (hu : s.AllUnfold vs) (hd : s.Shallow vs (d + 1)) :
    s.Shallow (vs.flatMap s.operands) d := by
  intro w hw
  obtain ⟨v, hv, hwv⟩ := List.mem_flatMap.mp hw
  obtain ⟨t, ht⟩ := hu v hv
  by_contra hlt
  have hdeep : d + 1 < s.depth v := ht.lt_depth_iff.mpr ⟨w, hwv, Nat.lt_of_not_le hlt⟩
  exact absurd (hd v hv) (Nat.not_le_of_lt hdeep)

/-! ## Levels and walks -/

/-- The levels of some roots, down to a depth. -/
def levels (s : Store) (vs : List VertexId) (d : Nat) : List VertexId := (List.range d).flatMap (s.level vs)

/-- The roots come first, then the levels of their operands. -/
theorem levels_succ (s : Store) (vs : List VertexId) (d : Nat) :
    s.levels vs (d + 1) = vs ++ s.levels (vs.flatMap s.operands) d := by
  rw [levels, List.range_succ_eq_map, List.flatMap_cons, List.flatMap_map]
  simp only [level_operands]
  rfl

/-- Walks below some roots have the roots, and what the walks below their operands have. -/
theorem AllUnfold.walks_perm (hu : s.AllUnfold vs) :
    (vs.flatMap s.walk).Perm (vs ++ (vs.flatMap s.operands).flatMap s.walk) := by
  have hwalk : vs.flatMap s.walk = vs.flatMap fun v => (s.operands v).flatMap s.walk ++ [v] := by
    refine List.flatMap_congr fun v hv => ?_
    obtain ⟨t, ht⟩ := hu v hv
    exact ht.walk_eq
  have hroots : (vs.flatMap fun v => [v]) = vs := by simp
  have hapart := List.flatMap_append_perm vs (fun v => (s.operands v).flatMap s.walk) fun v => [v]
  rw [hroots, ← List.flatMap_assoc, ← hwalk] at hapart
  exact hapart.symm.trans List.perm_append_comm

/-- **Levels and walks have the same occurrences.** -/
theorem AllUnfold.levels_perm {d : Nat} (hu : s.AllUnfold vs) (hd : s.Shallow vs d) :
    (s.levels vs d).Perm (vs.flatMap s.walk) := by
  induction d generalizing vs with
  | zero =>
    rw [hu.eq_nil hd]
    exact .nil
  | succ d ih =>
    rw [levels_succ]
    exact ((ih hu.operands (hu.shallow_operands hd)).append_left vs).trans hu.walks_perm.symm

/-! ## The queue -/

/-- The vertices taken off a queue, when each puts its operands at the end. -/
def drain (s : Store) : Nat → List VertexId → List VertexId
  | 0, _ => []
  | _ + 1, [] => []
  | n + 1, v :: queue => v :: drain s n (queue ++ s.operands v)

/-- **The queue in two lists is one queue.** -/
theorem byLevelFrom_eq (n : Nat) (done front back : List VertexId) :
    byLevelFrom s n done front back = done.reverse ++ s.drain n (front ++ back.reverse) := by
  induction n generalizing done front back with
  | zero => exact (List.append_nil _).symm
  | succ n ih =>
    cases front with
    | cons v front =>
      rw [byLevelFrom, ih, List.reverse_append, List.reverse_reverse, List.reverse_cons, List.append_assoc,
        ← List.append_assoc front]
      rfl
    | nil =>
      rw [byLevelFrom, List.nil_append]
      split
      · next v front hback =>
        rw [ih, hback, List.reverse_reverse, List.reverse_cons, List.append_assoc]
        rfl
      · next hback =>
        rw [hback]
        exact (List.append_nil _).symm

/-- **What stands in front is taken off**, and its operands stand behind what was behind it. -/
theorem drain_level (n : Nat) (vs ws : List VertexId) :
    s.drain (vs.length + n) (vs ++ ws) = vs ++ s.drain n (ws ++ vs.flatMap s.operands) := by
  induction vs generalizing ws with
  | nil => simp
  | cons v vs ih =>
    rw [List.length_cons, Nat.add_right_comm, List.cons_append, drain, List.append_assoc, ih,
      List.flatMap_cons, List.append_assoc]
    rfl

/-- **A queue is drained level by level**, when there are as many steps as occurrences below it. -/
theorem AllUnfold.drain_eq {d n : Nat} (hu : s.AllUnfold vs) (hd : s.Shallow vs d)
    (hn : (vs.flatMap s.walk).length ≤ n) : s.drain n vs = s.levels vs d := by
  induction d generalizing vs n with
  | zero =>
    rw [hu.eq_nil hd]
    cases n <;> rfl
  | succ d ih =>
    rw [hu.walks_perm.length_eq, List.length_append] at hn
    obtain ⟨m, rfl⟩ := Nat.exists_eq_add_of_le (show vs.length ≤ n by omega)
    have hstep := drain_level (s := s) m vs []
    rw [List.append_nil, List.nil_append] at hstep
    rw [hstep, levels_succ, ih hu.operands (hu.shallow_operands hd) (by omega)]

/-- **The size of a tree** is the length of its walk. -/
theorem Unfolds.treeSize_eq (ht : s.Unfolds v t) : s.treeSize v = (s.walk v).length := by
  have hcount : ∀ (us : List Term) (n : Nat), us.foldl (fun n _ => n + 1) n = n + us.length := by
    intro us
    induction us with
    | nil => exact fun _ => rfl
    | cons u us ih =>
      intro n
      rw [List.foldl_cons, ih, List.length_cons]
      omega
  rw [treeSize, ht.fold_eq (g := fun n _ => n + 1) (fun _ _ _ _ _ _ => rfl), hcount, Nat.zero_add,
    ht.walk_postOrder.length_eq]

/-- **The breadth-first listing is level by level.**  In a closed store without circles, the breadth-first
    listing of the tree of a handle is the levels of the tree one after the other:

    * the first level is the root, and each level the operands of the one above, along the term;
    * as many levels have vertices as the tree is deep;
    * it has the occurrences of the post-order listing in another order;
    * the queue is empty when as many vertices were taken off as the tree has; more steps change nothing. -/
theorem breadth_first_by_level (hc : s.Closed) (ha : s.Acyclic) {h : Handle} (hh : s.target? h = some v) :
    ∃ t bs ps, s.termAt? h = some t
      ∧ Script.Workbench.listing s v "breadth_first" = .ok bs
      ∧ Script.Workbench.listing s v "post_order" = .ok ps
      ∧ bs = (List.range (s.depth v)).flatMap (s.level [v])
      ∧ (∀ k, List.Forall₂ s.Unfolds (s.level [v] k) (Term.level [t] k))
      ∧ (∀ k, s.level [v] k ≠ [] ↔ k < s.depth v)
      ∧ bs.Perm ps ∧ bs.length = s.treeSize v ∧ (∀ w, bs.count w = ps.count w)
      ∧ ∀ n, s.treeSize v ≤ n → byLevelFrom s n [] [v] [] = bs := by
  obtain ⟨x, hx⟩ := hc.handle h v hh
  obtain ⟨t, ht⟩ := hc.exists_unfolds ha hx
  have hroot : s.AllUnfold [v] := by
    intro w hw
    rw [List.mem_singleton.mp hw]
    exact ⟨t, ht⟩
  have hdepth : s.Shallow [v] (s.depth v) := by
    intro w hw
    rw [List.mem_singleton.mp hw]
  have hwalk : [v].flatMap s.walk = s.walk v := List.flatMap_singleton s.walk v
  have hdrain : ∀ n, s.treeSize v ≤ n → byLevelFrom s n [] [v] [] = s.levels [v] (s.depth v) := by
    intro n hn
    rw [byLevelFrom_eq, List.reverse_nil, List.nil_append, List.append_nil]
    refine hroot.drain_eq hdepth ?_
    rw [hwalk, ← ht.treeSize_eq]
    exact hn
  have hlevels : s.byLevel v = s.levels [v] (s.depth v) := by
    refine hdrain s.walkBound ?_
    rw [ht.treeSize_eq]
    exact ht.length_walk_le_walkBound
  have hperm : (s.levels [v] (s.depth v)).Perm (s.walk v) := hwalk ▸ hroot.levels_perm hdepth
  refine ⟨t, _, _, termAt?_eq_some_iff.mpr ⟨v, hh, ht⟩, congrArg _ hlevels, congrArg _ ht.postOrder_eq, rfl,
    unfolds_level (.cons ht .nil), fun k => ?_, hperm, hperm.length_eq.trans ht.treeSize_eq.symm,
    fun w => hperm.count_eq w, hdrain⟩
  rw [level_ne_nil_iff hroot]
  simp

end Store

namespace Session

/-- The root, its four operands, and `x` below the two occurrences of the negation; the child of the constant is
    in no level. -/
theorem levels_mixed :
    (run Operator.apply mixed).store.Closed ∧ (run Operator.apply mixed).store.Acyclic
      ∧ (run Operator.apply mixed).store.target? 4 = some 4
      ∧ (List.range 3).flatMap ((run Operator.apply mixed).store.level [4]) = [4, 3, 2, 3, 1, 0, 0]
      ∧ [4, 3, 2, 3, 1, 0, 0].Perm [0, 3, 2, 0, 3, 1, 4]
      ∧ (∀ k, (run Operator.apply mixed).store.level [4] k ≠ [] ↔ k < 3) := by
  have hb := balanced_run Operator.apply mixed
  have hh : (run Operator.apply mixed).store.target? 4 = some 4 := rfl
  have hdepth : (run Operator.apply mixed).store.depth 4 = 3 := by decide +kernel
  have hlevel : (run Operator.apply mixed).store.byLevel 4 = [4, 3, 2, 3, 1, 0, 0] := by decide +kernel
  have hpost : (run Operator.apply mixed).store.postOrder 4 = [0, 3, 2, 0, 3, 1, 4] := by decide +kernel
  obtain ⟨t, bs, ps, -, hbs, hps, hlevels, -, hdeep, hperm, -⟩ :=
    Store.breadth_first_by_level hb.closed hb.acyclic hh
  obtain rfl : [4, 3, 2, 3, 1, 0, 0] = bs := hlevel ▸ Except.ok.inj hbs
  obtain rfl : [0, 3, 2, 0, 3, 1, 4] = ps := hpost ▸ Except.ok.inj hps
  rw [hdepth] at hlevels hdeep
  exact ⟨hb.closed, hb.acyclic, hh, hlevels.symm, hperm, hdeep⟩

end Session

end ExprGraph

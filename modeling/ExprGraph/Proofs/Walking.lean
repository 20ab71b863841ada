import ExprGraph.Proofs.Unfolding
import ExprGraph.Walk.Visiting
import Mathlib.Algebra.GroupWithZero.Nat
/-!
  The post-order walk.

  `s.walk v` lists the vertices below `v` in post-order by recursion along the operands.  The cursor, which
  goes one step at a time and holds only a path, yields the same vertices in the same order
  (`Cursor.next_of_pending`), and no bound cuts it short (`length_walk_le`).

    * state      the path of the cursor;
    * invariant  what the path still has to yield is the rest of the walk (`Cursor.pending`);
    * measure    the number of vertices still to yield.
-/

namespace ExprGraph

namespace Pointwise

variable {α β γ δ : Type} {R : γ → δ → Prop}

/-- Lists put together from related lists are related. -/
theorem flatMap {f : α → List γ} {g : β → List δ} {as : List α} {bs : List β}
    (h : List.Forall₂ (fun a b => List.Forall₂ R (f a) (g b)) as bs) :
    List.Forall₂ R (as.flatMap f) (bs.flatMap g) := by
  induction h with
  | nil => exact .nil
  | cons hab _ ih =>
    rw [List.flatMap_cons, List.flatMap_cons]
    exact List.rel_append hab ih

/-- What is put together from equal lists is equal. -/
theorem flatMap_congr {f : α → List γ} {g : β → List γ} {as : List α} {bs : List β}
    (h : List.Forall₂ (fun a b => f a = g b) as bs) : as.flatMap f = bs.flatMap g := by
  induction h with
  | nil => rfl
  | cons hab _ ih => rw [List.flatMap_cons, List.flatMap_cons, hab, ih]

end Pointwise

namespace Store

variable {s : Store} {v w : VertexId} {x : Vertex} {t : Term}

/-! ## The walk by recursion -/

/-- The vertices below a vertex in post-order, down to a depth. -/
def walkTo (s : Store) : Nat → VertexId → List VertexId
  | 0, _ => []
  | depth + 1, v => (s.operands v).flatMap (s.walkTo depth) ++ [v]

/-- **The vertices below a vertex in post-order**, once for each way that leads to them. -/
def walk (s : Store) (v : VertexId) : List VertexId := s.walkTo s.vertices.size v

/-- The operands of a vertex that unfolds unfold into lower terms. -/
theorem Unfolds.operand (ht : s.Unfolds v t) (hw : w ∈ s.operands v) :
    ∃ u ∈ t.operands, s.Unfolds w u ∧ u.height < t.height := by
  obtain ⟨x, hx⟩ := ht.exists_vertex
  rw [operands_of_vertex? hx] at hw
  obtain ⟨u, hu, hwu⟩ := Pointwise.exists_right (ht.operands hx) hw
  exact ⟨u, hu, hwu, Term.height_lt (Term.mem_children_of_mem_operands hu)⟩

/-- More depth than the term is high makes no difference. -/
theorem Unfolds.walkTo_eq {m n : Nat} (ht : s.Unfolds v t) (hm : t.height ≤ m) (hn : t.height ≤ n) :
    s.walkTo m v = s.walkTo n v := by
  induction t generalizing v m n with
  | step t ih =>
    have hpos := t.height_pos
    obtain ⟨m, rfl⟩ := Nat.exists_eq_succ_of_ne_zero (show m ≠ 0 by omega)
    obtain ⟨n, rfl⟩ := Nat.exists_eq_succ_of_ne_zero (show n ≠ 0 by omega)
    rw [walkTo, walkTo]
    congr 1
    refine List.flatMap_congr fun w hw => ?_
    obtain ⟨u, hu, hwu, hlt⟩ := ht.operand hw
    exact ih u (Term.mem_children_of_mem_operands hu) hwu (by omega) (by omega)

/-- **The walk below a vertex**: those of its operands, then the vertex. -/
theorem Unfolds.walk_eq (ht : s.Unfolds v t) :
    s.walk v = (s.operands v).flatMap s.walk ++ [v] := by
  have hle := ht.height_le_size
  have hstep : s.walk v = s.walkTo (s.vertices.size + 1) v := ht.walkTo_eq hle (by omega)
  rw [hstep, walkTo]
  rfl

/-- **The walk runs along the occurrences of the term.** -/
theorem Unfolds.walk_postOrder (ht : s.Unfolds v t) :
    List.Forall₂ s.Unfolds (s.walk v) t.postOrder := by
  induction t generalizing v with
  | step t ih =>
    obtain ⟨x, hx⟩ := ht.exists_vertex
    rw [ht.walk_eq, Term.postOrder_eq, operands_of_vertex? hx]
    refine List.rel_append (Pointwise.flatMap ?_) (.cons ht .nil)
    refine Pointwise.imp_mem (ht.operands hx) fun w _ u hu hwu => ?_
    exact ih u (Term.mem_children_of_mem_operands hu) hwu

/-- All vertices of the walk are live. -/
theorem Unfolds.live_of_mem_walk (ht : s.Unfolds v t) (hw : w ∈ s.walk v) :
    ∃ x, s.vertex? w = some x := by
  obtain ⟨u, -, hwu⟩ := Pointwise.exists_right ht.walk_postOrder hw
  exact hwu.exists_vertex

/-! ## Its length -/

/-- No vertex has more children than the store is wide. -/
theorem length_children_le_width (v : VertexId) : (s.children v).length ≤ s.width := by
  cases hx : s.vertex? v with
  | none =>
    rw [children_of_none hx]
    exact Nat.zero_le _
  | some x =>
    rw [children_of_vertex? hx]
    refine le_foldl_vertices (fun n y => ?_) hx fun _ => Nat.le_max_right _ _
    cases y with
    | none => exact Nat.le_refl n
    | some y => exact Nat.le_max_left _ _

theorem length_operands_le_width (v : VertexId) : (s.operands v).length ≤ s.width := by
  refine Nat.le_trans ?_ (length_children_le_width v)
  unfold operands children
  split
  · next x _ =>
    rw [Vertex.operands_eq]
    split
    · exact Nat.le_refl _
    · exact Nat.zero_le _
  · exact Nat.le_refl _

theorem length_flatMap_le {α β : Type} (f : α → List β) {n : Nat} :
    ∀ {as : List α}, (∀ a ∈ as, (f a).length ≤ n) → (as.flatMap f).length ≤ as.length * n
  | [], _ => Nat.zero_le _
  | a :: as, h => by
    have hhead := h a List.mem_cons_self
    have htail := length_flatMap_le f fun b hb => h b (List.mem_cons_of_mem a hb)
    rw [List.flatMap_cons, List.length_append, List.length_cons, Nat.succ_mul]
    omega

/-- **A walk is no longer than its bound.** -/
theorem Unfolds.length_walk_le (ht : s.Unfolds v t) : (s.walk v).length ≤ (s.width + 1) ^ t.height := by
  induction t generalizing v with
  | step t ih =>
    obtain ⟨n, hn⟩ := Nat.exists_eq_succ_of_ne_zero (Nat.ne_of_gt t.height_pos)
    have hbelow : ∀ w ∈ s.operands v, (s.walk w).length ≤ (s.width + 1) ^ n := by
      intro w hw
      obtain ⟨u, hu, hwu, hlt⟩ := ht.operand hw
      refine Nat.le_trans (ih u (Term.mem_children_of_mem_operands hu) hwu) ?_
      exact Nat.pow_le_pow_right (Nat.succ_pos _) (by omega)
    have hlen := length_flatMap_le s.walk hbelow
    have hwidth := Nat.mul_le_mul_right ((s.width + 1) ^ n) (length_operands_le_width (s := s) v)
    have hone : 0 < (s.width + 1) ^ n := Nat.pow_pos (Nat.succ_pos _)
    rw [ht.walk_eq, List.length_append, List.length_singleton, hn, Nat.pow_succ,
      Nat.mul_comm ((s.width + 1) ^ n), Nat.succ_mul]
    omega

theorem Unfolds.length_walk_le_walkBound (ht : s.Unfolds v t) : (s.walk v).length ≤ s.walkBound :=
  Nat.le_trans ht.length_walk_le (Nat.pow_le_pow_right (Nat.succ_pos _) ht.height_le_size)

end Store

/-! ## The walk by cursor -/

namespace Cursor

variable {s : Store} {v w : VertexId} {t : Term}

/-- All vertices of a path unfold. -/
def Grounded (s : Store) (path : List Frame) : Prop := ∀ f ∈ path, ∃ t, s.Unfolds f.vertex t

/-- What is still to be yielded at a frame and below its remaining operands. -/
def own (s : Store) (f : Frame) : List VertexId :=
  if f.position ≤ (s.operands f.vertex).length then
    ((s.operands f.vertex).drop f.position).flatMap s.walk ++ [f.vertex]
  else []

/-- What is still to be yielded above the end of a path, each frame going on after its current operand. -/
def above (s : Store) (path : List Frame) : List VertexId :=
  path.flatMap fun f => own s ⟨f.vertex, f.position + 1⟩

/-- **What is still to be yielded on a path.** -/
def pending (s : Store) : List Frame → List VertexId
  | [] => []
  | f :: rest => own s f ++ above s rest

theorem own_start (ht : s.Unfolds v t) : own s ⟨v, 0⟩ = s.walk v := by
  rw [ht.walk_eq, own, if_pos (Nat.zero_le _), List.drop_zero]

theorem own_of_lt {i : Nat} (hi : (s.operands v)[i]? = some w) :
    own s ⟨v, i⟩ = s.walk w ++ own s ⟨v, i + 1⟩ := by
  obtain ⟨hlt, hget⟩ := List.getElem?_eq_some_iff.mp hi
  have hnext : i + 1 ≤ (s.operands v).length := hlt
  simp only [own]
  rw [if_pos (Nat.le_of_lt hlt), if_pos hnext, List.drop_eq_getElem_cons hlt, List.flatMap_cons, hget,
    List.append_assoc]

theorem own_at_end : own s ⟨v, (s.operands v).length⟩ = [v] := by
  simp [own]

theorem own_past_end {i : Nat} (hi : (s.operands v).length < i) : own s ⟨v, i⟩ = [] := by
  rw [own, if_neg (by simpa using hi)]

/-- Past its operands a frame has nothing to yield: the walk ends, -/
theorem pending_end {i : Nat} (hi : (s.operands v).length < i) : pending s [⟨v, i⟩] = [] := by
  show own s ⟨v, i⟩ ++ above s [] = []
  rw [own_past_end hi]
  rfl

/-- or the frame above goes on. -/
theorem pending_up {i : Nat} (hi : (s.operands v).length < i) (u : VertexId) (j : Nat) (rest : List Frame) :
    pending s (⟨v, i⟩ :: ⟨u, j⟩ :: rest) = pending s (⟨u, j + 1⟩ :: rest) := by
  show own s ⟨v, i⟩ ++ (own s ⟨u, j + 1⟩ ++ above s rest) = own s ⟨u, j + 1⟩ ++ above s rest
  rw [own_past_end hi]
  rfl

/-- A frame may be put on a grounded path when its vertex unfolds. -/
theorem Grounded.cons {path : List Frame} (hg : Grounded s path) (ht : s.Unfolds v t) (i : Nat) :
    Grounded s (⟨v, i⟩ :: path) := by
  intro f hf
  rcases List.mem_cons.mp hf with rfl | hf
  · exact ⟨t, ht⟩
  · exact hg f hf

theorem Grounded.tail {f : Frame} {path : List Frame} (hg : Grounded s (f :: path)) : Grounded s path :=
  fun f' hf => hg f' (List.mem_cons_of_mem f hf)

theorem walk_of_leaf (ht : s.Unfolds v t) (hops : s.operands v = []) : s.walk v = [v] := by
  rw [ht.walk_eq, hops]
  rfl

/-- **Going down** yields the first vertex of the walk below and leaves the others pending. -/
theorem descend_spec {depth : Nat} {path : List Frame} (ht : s.Unfolds v t)
    (hd : t.height ≤ depth + 1) (hg : Grounded s path) :
    (descend s depth v path).1 :: pending s (descend s depth v path).2.path
        = s.walk v ++ above s path
      ∧ Grounded s (descend s depth v path).2.path := by
  induction depth generalizing v t path with
  | zero =>
    -- a term of height one has no operands
    have hops : s.operands v = [] := by
      refine List.eq_nil_iff_forall_not_mem.mpr fun w hw => ?_
      obtain ⟨u, -, -, hlt⟩ := ht.operand hw
      have hpos := u.height_pos
      omega
    rw [descend]
    refine ⟨?_, hg.cons ht _⟩
    show v :: (own s ⟨v, (s.operands v).length + 1⟩ ++ above s path) = _
    rw [own_past_end (Nat.lt_succ_self _), walk_of_leaf ht hops]
    rfl
  | succ depth ih =>
    rw [descend]
    split
    · next hops =>
      refine ⟨?_, hg.cons ht _⟩
      show v :: (own s ⟨v, 1⟩ ++ above s path) = _
      rw [own_past_end (by rw [hops]; exact Nat.one_pos), walk_of_leaf ht hops]
      rfl
    · next w ws hops =>
      obtain ⟨u, -, hwu, hlt⟩ := ht.operand (w := w) (by rw [hops]; exact List.mem_cons_self)
      obtain ⟨hyield, hground⟩ := ih hwu (by omega) (hg.cons ht 0)
      refine ⟨hyield.trans ?_, hground⟩
      have hfirst : (s.operands v)[0]? = some w := by rw [hops]; rfl
      rw [← own_start ht, own_of_lt hfirst]
      show s.walk w ++ (own s ⟨v, 0 + 1⟩ ++ above s path) = _
      rw [List.append_assoc]

theorem advance_down {i : Nat} (hi : (s.operands v)[i]? = some w) (rest : List Frame) :
    advance s (⟨v, i⟩ :: rest) = some (descend s s.vertices.size w (⟨v, i⟩ :: rest)) := by
  rw [advance.eq_def]
  simp only [hi]

theorem advance_stop (s : Store) (v : VertexId) (rest : List Frame) :
    advance s (⟨v, (s.operands v).length⟩ :: rest)
      = some (v, ⟨⟨v, (s.operands v).length + 1⟩ :: rest⟩) := by
  rw [advance.eq_def]
  simp only [List.getElem?_eq_none (Nat.le_refl (s.operands v).length), if_true]

theorem advance_end {i : Nat} (hi : (s.operands v).length < i) : advance s [⟨v, i⟩] = none := by
  rw [advance.eq_def]
  simp only [List.getElem?_eq_none (Nat.le_of_lt hi), if_neg (Nat.ne_of_gt hi)]

theorem advance_up {i : Nat} (hi : (s.operands v).length < i) (u : VertexId) (j : Nat)
    (rest : List Frame) :
    advance s (⟨v, i⟩ :: ⟨u, j⟩ :: rest) = advance s (⟨u, j + 1⟩ :: rest) := by
  rw [advance.eq_def]
  simp only [List.getElem?_eq_none (Nat.le_of_lt hi), if_neg (Nat.ne_of_gt hi)]

/-- **One step of a path** yields the first pending vertex, if there is one. -/
theorem advance_spec {path : List Frame} (hg : Grounded s path) :
    (advance s path = none ∧ pending s path = []) ∨
    ∃ v c, advance s path = some (v, c) ∧ v :: pending s c.path = pending s path
      ∧ Grounded s c.path := by
  induction path using advance.induct s with
  | case1 => exact .inl ⟨by rw [advance.eq_def], rfl⟩
  | case2 v i rest w hw =>
    obtain ⟨t, ht⟩ := hg ⟨v, i⟩ List.mem_cons_self
    obtain ⟨u, -, hwu, -⟩ := ht.operand (List.mem_of_getElem? hw)
    obtain ⟨hyield, hground⟩ := descend_spec hwu (Nat.le_succ_of_le hwu.height_le_size) hg
    refine .inr ⟨_, _, advance_down hw rest, hyield.trans ?_, hground⟩
    show s.walk w ++ (own s ⟨v, i + 1⟩ ++ above s rest) = own s ⟨v, i⟩ ++ above s rest
    rw [own_of_lt hw, List.append_assoc]
  | case3 v rest hw =>
    refine .inr ⟨_, _, advance_stop s v rest, ?_, ?_⟩
    · show v :: (own s ⟨v, (s.operands v).length + 1⟩ ++ above s rest)
        = own s ⟨v, (s.operands v).length⟩ ++ above s rest
      rw [own_past_end (Nat.lt_succ_self _), own_at_end]
      rfl
    · obtain ⟨t, ht⟩ := hg ⟨v, (s.operands v).length⟩ List.mem_cons_self
      exact hg.tail.cons ht _
  | case4 v i hw hne =>
    -- the path ends at its topmost frame
    have hlt : (s.operands v).length < i := by
      have hle := List.getElem?_eq_none_iff.mp hw
      omega
    exact .inl ⟨advance_end hlt, pending_end hlt⟩
  | case5 v i hw hne u j rest ih =>
    -- nothing is left at this frame, and the one above goes on after it
    have hlt : (s.operands v).length < i := by
      have hle := List.getElem?_eq_none_iff.mp hw
      omega
    obtain ⟨t, ht⟩ := hg ⟨u, j⟩ (List.mem_cons_of_mem _ List.mem_cons_self)
    rw [advance_up hlt, pending_up hlt]
    exact ih (hg.tail.tail.cons ht (j + 1))

/-- **A walk yields its pending vertices one by one.** -/
theorem next_spec {c : Cursor} (hg : Grounded s c.path) :
    ((c.next s).1 = none ∧ pending s c.path = []) ∨
    ∃ v c', c.next s = (some v, c') ∧ v :: pending s c'.path = pending s c.path
      ∧ Grounded s c'.path := by
  rcases advance_spec hg with ⟨hnone, hpend⟩ | ⟨v, c', hsome, hyield, hground⟩
  · exact .inl ⟨by rw [next, hnone], hpend⟩
  · exact .inr ⟨v, c', by rw [next, hsome], hyield, hground⟩

/-- A walk that has nothing to yield stands nowhere afterwards. -/
theorem next_of_fst_none {c : Cursor} (h : (c.next s).1 = none) : c.next s = (none, ⟨[]⟩) := by
  unfold next at h ⊢
  split
  · next heq =>
    rw [heq] at h
    cases h
  · rfl

theorem grounded_start (ht : s.Unfolds v t) : Grounded s (start v).path := by
  intro f hf
  obtain rfl := List.mem_singleton.mp hf
  exact ⟨t, ht⟩

theorem pending_start (ht : s.Unfolds v t) : pending s (start v).path = s.walk v := by
  show own s ⟨v, 0⟩ ++ above s [] = s.walk v
  rw [own_start ht]
  exact List.append_nil _

end Cursor

/-! ## Visiting -/

namespace Store

variable {s : Store} {v w : VertexId} {x : Vertex} {t : Term} {ε σ : Type}

/-- Carries a state to one vertex, unless the vertex is not live. -/
def visitOne (s : Store) (f : σ → VertexId → Vertex → Except ε σ) (state : σ) (v : VertexId) :
    Except ε σ :=
  match s.vertex? v with
  | none => .ok state
  | some x => f state v x

/-- Carrying a state along a cursor is carrying it along as many of the pending vertices as the bound allows. -/
theorem visitFrom_eq_foldlM_take (f : σ → VertexId → Vertex → Except ε σ) (bound : Nat) {state : σ}
    {c : Cursor} (hg : Cursor.Grounded s c.path) :
    visitFrom s f bound state c = ((Cursor.pending s c.path).take bound).foldlM (s.visitOne f) state := by
  induction bound generalizing state c with
  | zero => rfl
  | succ bound ih =>
    rcases Cursor.next_spec hg with ⟨hnone, hpend⟩ | ⟨v, c', hsome, hyield, hground⟩
    · rw [visitFrom, hpend]
      split
      · rfl
      · next heq => exact absurd (hnone.symm.trans (congrArg Prod.fst heq)) (by simp)
    · rw [visitFrom, hsome, ← hyield, List.take_succ_cons, List.foldlM_cons]
      simp only [visitOne]
      cases s.vertex? v with
      | none => exact ih hground
      | some x =>
        simp only
        cases f state v x with
        | error e => rfl
        | ok state => exact ih hground

/-- When the bound allows, it is carried along all of them. -/
theorem visitFrom_eq_foldlM (f : σ → VertexId → Vertex → Except ε σ) {bound : Nat} {state : σ}
    {c : Cursor} (hg : Cursor.Grounded s c.path) (hb : (Cursor.pending s c.path).length ≤ bound) :
    visitFrom s f bound state c = (Cursor.pending s c.path).foldlM (s.visitOne f) state := by
  rw [visitFrom_eq_foldlM_take f bound hg, List.take_of_length_le hb]

/-- **Visiting a tree** carries a state along its walk. -/
theorem Unfolds.visit_eq_foldlM (ht : s.Unfolds v t) (f : σ → VertexId → Vertex → Except ε σ)
    (state : σ) : s.visit v f state = (s.walk v).foldlM (s.visitOne f) state := by
  rw [visit, visitFrom_eq_foldlM f (Cursor.grounded_start ht), Cursor.pending_start ht]
  rw [Cursor.pending_start ht]
  exact ht.length_walk_le_walkBound

/-- **The listed vertices are those of the walk.** -/
theorem Unfolds.postOrder_eq (ht : s.Unfolds v t) : s.postOrder v = s.walk v := by
  have hrun : ∀ (vs done : List VertexId), (∀ w ∈ vs, ∃ x, s.vertex? w = some x) →
      vs.foldlM (s.visitOne fun ws w (_ : Vertex) => (.ok (w :: ws) : Except Empty (List VertexId))) done
        = .ok (vs.reverse ++ done) := by
    intro vs
    induction vs with
    | nil => exact fun _ _ => rfl
    | cons w vs ih =>
      intro done hlive
      obtain ⟨x, hx⟩ := hlive w List.mem_cons_self
      rw [List.foldlM_cons, visitOne, hx]
      show List.foldlM _ (w :: done) vs = _
      rw [ih _ fun u hu => hlive u (List.mem_cons_of_mem _ hu), List.reverse_cons, List.append_assoc]
      rfl
  rw [postOrder, fold, ht.visit_eq_foldlM, hrun _ _ fun w hw => ht.live_of_mem_walk hw]
  simp [certain]

/-- **Carrying a state to the end of a walk** carries it along the occurrences of the term, when each vertex
    changes it as its term does. -/
theorem Unfolds.fold_eq {f : σ → VertexId → Vertex → σ} {g : σ → Term → σ} (ht : s.Unfolds v t)
    (hfg : ∀ state w x u, s.vertex? w = some x → s.Unfolds w u → f state w x = g state u) (state : σ) :
    s.fold v f state = t.postOrder.foldl g state := by
  have hrun : ∀ (vs : List VertexId) (us : List Term) (state : σ), List.Forall₂ s.Unfolds vs us →
      vs.foldlM (s.visitOne fun state w x => (.ok (f state w x) : Except Empty σ)) state
        = .ok (us.foldl g state) := by
    intro vs us state hvs
    induction hvs generalizing state with
    | nil => rfl
    | @cons w u vs us hwu _ ih =>
      obtain ⟨x, hx⟩ := hwu.exists_vertex
      rw [List.foldlM_cons, visitOne, hx, List.foldl_cons, ← hfg state w x u hx hwu]
      exact ih _
  rw [fold, ht.visit_eq_foldlM, hrun _ _ _ ht.walk_postOrder]
  rfl

end Store

end ExprGraph

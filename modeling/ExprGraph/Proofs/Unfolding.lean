import ExprGraph.Proofs.Lookup
import ExprGraph.Proofs.Pointwise
import ExprGraph.Proofs.Term
import Mathlib.Data.Fintype.EquivFin
import Mathlib.Logic.Relation
/-!
  Unfolding a vertex into a term.

  `s.Unfolds v t` says that the part of the store below the vertex `v` is the term `t`: the payload of the
  vertex, whether it was linked, and the terms of its children in order.  A vertex has at most one term
  (`Unfolds.unique`), and every live vertex has one when the links of live vertices lead to live ones and
  never in a circle (`Closed.exists_unfolds`).  Different heights need different vertices, so no term is
  higher than the store is large (`Unfolds.height_le_size`), and a search to that depth finds it
  (`term?_eq_some_iff`).
-/

namespace ExprGraph

namespace Store

mutual

/-- **The vertex unfolds into the term.** -/
def Unfolds (s : Store) (v : VertexId) : Term → Prop
  | .bare p => ∃ n, s.vertex? v = some ⟨p, none, n⟩
  | .linked p ts => ∃ vs n, s.vertex? v = some ⟨p, some vs, n⟩ ∧ s.UnfoldsAll vs ts

/-- Each vertex of the list unfolds into the term at its place. -/
def UnfoldsAll (s : Store) (vs : List VertexId) : List Term → Prop
  | [] => vs = []
  | t :: ts => ∃ w ws, vs = w :: ws ∧ s.Unfolds w t ∧ s.UnfoldsAll ws ts

end

variable {s s' : Store} {v w : VertexId} {x : Vertex} {t u : Term}

theorem unfoldsAll_iff {vs : List VertexId} {ts : List Term} :
    s.UnfoldsAll vs ts ↔ List.Forall₂ s.Unfolds vs ts := by
  induction ts generalizing vs with
  | nil => exact List.forall₂_nil_right_iff.symm
  | cons t ts ih =>
    constructor
    · rintro ⟨w, ws, rfl, hw, hws⟩
      exact .cons hw (ih.mp hws)
    · intro h
      cases h with
      | cons hw hws => exact ⟨_, _, rfl, hw, ih.mpr hws⟩

/-- **One level of unfolding**: the vertex is live and has the payload of the term, and its links unfold
    into those of the term. -/
theorem unfolds_iff :
    s.Unfolds v t ↔ ∃ x, s.vertex? v = some x ∧ x.payload = t.payload
      ∧ Option.Rel (List.Forall₂ s.Unfolds) x.links t.links := by
  cases t with
  | bare p =>
    constructor
    · rintro ⟨n, h⟩
      exact ⟨_, h, rfl, .none⟩
    · rintro ⟨⟨q, ls, n⟩, h, rfl, hr⟩
      cases ls with
      | none => exact ⟨n, h⟩
      | some vs => cases hr
  | linked p ts =>
    constructor
    · rintro ⟨vs, n, h, hvs⟩
      exact ⟨_, h, rfl, .some (unfoldsAll_iff.mp hvs)⟩
    · rintro ⟨⟨q, ls, n⟩, h, rfl, hr⟩
      cases hr with
      | some hvs => exact ⟨_, n, h, unfoldsAll_iff.mpr hvs⟩

/-- A live vertex whose children all unfold unfolds itself. -/
theorem exists_unfolds_of_children (hx : s.vertex? v = some x)
    (hc : ∀ w ∈ x.children, ∃ c, s.Unfolds w c) : ∃ t, s.Unfolds v t := by
  obtain ⟨ts, hts⟩ := Pointwise.exists_of_forall hc
  refine ⟨.make x.payload (x.links.map fun _ => ts), unfolds_iff.mpr ⟨x, hx, by simp, ?_⟩⟩
  rw [Term.links_make]
  refine Pointwise.rel_of_getD (by simp) ?_
  revert hts
  unfold Vertex.children
  cases x.links with
  | none => exact fun _ => .nil
  | some vs => exact id

/-- The children of a live vertex that unfolds into a term unfold into the children of the term. -/
theorem Unfolds.children (h : s.Unfolds v t) (hx : s.vertex? v = some x) :
    x.payload = t.payload ∧ Option.Rel (List.Forall₂ s.Unfolds) x.links t.links
      ∧ List.Forall₂ s.Unfolds x.children t.children := by
  obtain ⟨y, hy, hp, hr⟩ := unfolds_iff.mp h
  obtain rfl : x = y := Option.some.inj (hx.symm.trans hy)
  exact ⟨hp, hr, Pointwise.getD_nil hr⟩

theorem Unfolds.exists_vertex (h : s.Unfolds v t) : ∃ x, s.vertex? v = some x := by
  obtain ⟨x, hx, -⟩ := unfolds_iff.mp h
  exact ⟨x, hx⟩

/-- The operands of a vertex unfold into the operands of its term. -/
theorem Unfolds.operands (h : s.Unfolds v t) (hx : s.vertex? v = some x) :
    List.Forall₂ s.Unfolds x.operands t.operands := by
  obtain ⟨hp, -, hc⟩ := h.children hx
  rw [Vertex.operands_eq, Term.operands, hp]
  split
  · exact hc
  · exact .nil

/-- A vertex has operands exactly when its term has. -/
theorem Unfolds.operands_eq_nil_iff (h : s.Unfolds v t) (hx : s.vertex? v = some x) :
    x.operands = [] ↔ t.operands = [] := by
  rw [← List.length_eq_zero_iff, (h.operands hx).length_eq, List.length_eq_zero_iff]

/-- **A vertex has at most one term.** -/
theorem Unfolds.unique (ht : s.Unfolds v t) (hu : s.Unfolds v u) : t = u := by
  induction t generalizing v u with
  | step t ih =>
    obtain ⟨x, hx, hp, hr⟩ := unfolds_iff.mp ht
    obtain ⟨hq, hr', -⟩ := hu.children hx
    refine Term.eq_of_payload_of_links (hp.symm.trans hq) (Pointwise.links_eq_of_unique hr hr' ?_)
    exact fun c hc w d hwc hwd => ih c hc hwc hwd

/-- **A change outside a set closed under children leaves the terms in the set alone**: there the vertices
    may change in their owners only. -/
theorem Unfolds.transport (K : VertexId → Prop)
    (hK : ∀ w x, K w → s.vertex? w = some x →
      (∃ n, s'.vertex? w = some { x with owners := n }) ∧ ∀ c ∈ x.children, K c)
    (hv : K v) (ht : s.Unfolds v t) : s'.Unfolds v t := by
  induction t generalizing v with
  | step t ih =>
    obtain ⟨x, hx, hp, hr⟩ := unfolds_iff.mp ht
    obtain ⟨⟨n, hn⟩, hc⟩ := hK v x hv hx
    refine unfolds_iff.mpr ⟨_, hn, hp, ?_⟩
    refine Pointwise.links_imp_mem hr fun c hcx u hu hcu => ih u hu (hc c hcx) hcu

/-! ## Reaching -/

/-- The second vertex lies below the first, or is the first. -/
def Reaches (s : Store) : VertexId → VertexId → Prop :=
  Relation.ReflTransGen fun v w => w ∈ s.children v

/-- What lies below a vertex with a term has a term, which is no higher. -/
theorem Unfolds.of_reaches (hr : s.Reaches v w) (ht : s.Unfolds v t) :
    ∃ u, s.Unfolds w u ∧ u.height ≤ t.height := by
  induction hr with
  | refl => exact ⟨t, ht, Nat.le_refl _⟩
  | tail _ hc ih =>
    obtain ⟨u, hu, hle⟩ := ih
    obtain ⟨x, hx⟩ := hu.exists_vertex
    rw [children_of_vertex? hx] at hc
    obtain ⟨c, hcu, hwc⟩ := Pointwise.exists_right (hu.children hx).2.2 hc
    exact ⟨c, hwc, Nat.le_trans (Nat.le_of_lt (Term.height_lt hcu)) hle⟩

/-- **No way down comes back**: a child does not reach its parent. -/
theorem Unfolds.not_reaches_of_child (ht : s.Unfolds v t) (hw : w ∈ s.children v) :
    ¬ s.Reaches w v := by
  intro hr
  obtain ⟨x, hx⟩ := ht.exists_vertex
  rw [children_of_vertex? hx] at hw
  obtain ⟨c, hct, hwc⟩ := Pointwise.exists_right (ht.children hx).2.2 hw
  obtain ⟨u, hu, hle⟩ := hwc.of_reaches hr
  obtain rfl := hu.unique ht
  have hlt := Term.height_lt hct
  omega

/-! ## Height -/

/-- Below a vertex there are vertices whose terms have every smaller height. -/
theorem Unfolds.exists_of_le_height (ht : s.Unfolds v t) {k : Nat} (hpos : 0 < k)
    (hk : k ≤ t.height) : ∃ w u, s.Unfolds w u ∧ u.height = k := by
  induction t generalizing v with
  | step t ih =>
    rcases Nat.lt_or_eq_of_le hk with hlt | heq
    · rw [Term.height_eq] at hlt
      obtain ⟨c, hct, hkc⟩ := Term.exists_mem_of_le_heightAll hpos (Nat.le_of_lt_succ hlt)
      obtain ⟨x, hx⟩ := ht.exists_vertex
      obtain ⟨w, -, hwc⟩ := Pointwise.exists_left (ht.children hx).2.2 hct
      exact ih c hct hwc hkc
    · exact ⟨v, t, ht, heq.symm⟩

/-- **A term is at most as high as the store is large**, since vertices with terms of different heights
    differ. -/
theorem Unfolds.height_le_size (ht : s.Unfolds v t) : t.height ≤ s.vertices.size := by
  have hex : ∀ i : Fin t.height, ∃ w : Fin s.vertices.size, ∃ u, s.Unfolds w u ∧ u.height = i + 1 := by
    intro i
    obtain ⟨w, u, hu, huk⟩ := ht.exists_of_le_height (Nat.succ_pos i) i.isLt
    obtain ⟨x, hx⟩ := hu.exists_vertex
    exact ⟨⟨w, lt_size_of_vertex? hx⟩, u, hu, huk⟩
  choose f hf using hex
  -- a vertex has one term, so vertices chosen for different heights differ
  have hinj : Function.Injective f := by
    intro i j hij
    obtain ⟨u, hu, hui⟩ := hf i
    obtain ⟨c, hc, hcj⟩ := hf j
    rw [hij] at hu
    obtain rfl := hu.unique hc
    exact Fin.ext (by omega)
  simpa using Fintype.card_le_of_injective f hinj

/-! ## Stores without circles -/

/-- Handles are bound to live vertices, and links lead to live vertices. -/
structure Closed (s : Store) : Prop where
  handle : ∀ h v, s.target? h = some v → ∃ x, s.vertex? v = some x
  link : ∀ v w, w ∈ s.children v → ∃ x, s.vertex? w = some x

/-- **No circles**: no vertex lies strictly below itself, by whatever links. -/
def Acyclic (s : Store) : Prop :=
  ∀ v, ¬ Relation.TransGen (fun v w => w ∈ s.children v) v v

/-- **In a closed store without circles every live vertex unfolds into a term.** -/
theorem Closed.exists_unfolds (hc : s.Closed) (ha : s.Acyclic) (hx : s.vertex? v = some x) :
    ∃ t, s.Unfolds v t := by
  -- induction from the bottom up, along the finite relation of lying strictly below
  let below : Fin s.vertices.size → Fin s.vertices.size → Prop :=
    fun v w => Relation.TransGen (fun v w => w ∈ s.children v) w.val v.val
  have : IsTrans _ below := ⟨fun u v w huv hvw => hvw.trans huv⟩
  have : Std.Irrefl below := ⟨fun v => ha v⟩
  have hwf : WellFounded below := Finite.wellFounded_of_trans_of_irrefl below
  suffices h : ∀ i : Fin s.vertices.size, ∀ x, s.vertex? i = some x → ∃ t, s.Unfolds i t from
    h ⟨v, lt_size_of_vertex? hx⟩ x hx
  intro i
  induction i using hwf.induction with
  | h i ih =>
    intro x hx
    have hchild : ∀ w ∈ x.children, ∃ t, s.Unfolds w t := by
      intro w hw
      rw [← children_of_vertex? hx] at hw
      obtain ⟨y, hy⟩ := hc.link i w hw
      exact ih ⟨w, lt_size_of_vertex? hy⟩ (.single hw) y hy
    exact exists_unfolds_of_children hx hchild

/-- Conversely, where all live vertices unfold there are no circles. -/
theorem acyclic_of_unfolds (h : ∀ v x, s.vertex? v = some x → ∃ t, s.Unfolds v t) : s.Acyclic := by
  intro v hv
  obtain ⟨w, hvw, hwv⟩ := Relation.TransGen.head'_iff.mp hv
  cases hx : s.vertex? v with
  | none =>
    rw [children_of_none hx] at hvw
    exact absurd hvw List.not_mem_nil
  | some x =>
    obtain ⟨t, ht⟩ := h v x hx
    exact ht.not_reaches_of_child hvw hwv

/-- A store with a sum of a constant and itself: one vertex is linked twice, and has a handle of its own. -/
def doubled : Store :=
  ⟨#[some ⟨.const (.integer 2), none, 3⟩, some ⟨.op ⟨.add, "add", none, some "+", some .add⟩, some [0, 0], 1⟩],
    #[some 1, some 0], [], 0⟩

/-- The term of the sum. -/
def doubledTerm : Term :=
  .linked (.op ⟨.add, "add", none, some "+", some .add⟩) [.bare (.const (.integer 2)), .bare (.const (.integer 2))]

theorem unfolds_doubledTerm : doubled.Unfolds 1 doubledTerm := by
  have hleaf : doubled.Unfolds 0 (.bare (.const (.integer 2))) := ⟨3, rfl⟩
  exact ⟨[0, 0], 1, rfl, unfoldsAll_iff.mpr (.cons hleaf (.cons hleaf .nil))⟩

theorem unfolds_doubled {v : VertexId} {x : Vertex} (hx : doubled.vertex? v = some x) :
    ∃ t, doubled.Unfolds v t := by
  match v with
  | 0 => exact ⟨.bare _, 3, rfl⟩
  | 1 => exact ⟨_, unfolds_doubledTerm⟩
  | n + 2 => exact absurd (lt_size_of_vertex? hx) (by simp [doubled])

theorem closed_doubled : doubled.Closed where
  handle h v ht := by
    match h with
    | 0 => obtain rfl := Option.some.inj ht; exact ⟨_, rfl⟩
    | 1 => obtain rfl := Option.some.inj ht; exact ⟨_, rfl⟩
    | n + 2 => exact absurd (lt_size_of_target? ht) (by simp [doubled])
  link v w hw := by
    match v with
    | 0 => exact absurd hw List.not_mem_nil
    | 1 =>
      obtain rfl : w = 0 := by simpa [children, vertex?, doubled, Vertex.children] using hw
      exact ⟨_, rfl⟩
    | n + 2 => exact absurd hw List.not_mem_nil

theorem acyclic_doubled : doubled.Acyclic := acyclic_of_unfolds fun _ _ hx => unfolds_doubled hx

/-! ## The term of a vertex, computed -/

/-- The term of a vertex, if it is at most so high. -/
def unfoldTo (s : Store) : Nat → VertexId → Option Term
  | 0, _ => none
  | depth + 1, v =>
    match s.vertex? v with
    | none => none
    | some ⟨p, none, _⟩ => some (.bare p)
    | some ⟨p, some vs, _⟩ => (vs.mapM (s.unfoldTo depth)).map (.linked p)

theorem unfolds_of_unfoldTo {depth : Nat} (h : s.unfoldTo depth v = some t) : s.Unfolds v t := by
  induction depth generalizing v t with
  | zero => exact absurd h (by simp [unfoldTo])
  | succ depth ih =>
    rw [unfoldTo] at h
    split at h
    · exact absurd h (by simp)
    · next p n hx =>
      obtain rfl := Option.some.inj h
      exact ⟨n, hx⟩
    · next p vs n hx =>
      obtain ⟨ts, hts, rfl⟩ := Option.map_eq_some_iff.mp h
      have hrel := Pointwise.mapM_eq_some_iff.mp hts
      exact ⟨vs, n, hx, unfoldsAll_iff.mpr (hrel.imp fun w u hwu => ih hwu)⟩

/-- Enough depth finds the term. -/
theorem Unfolds.unfoldTo_eq {depth : Nat} (ht : s.Unfolds v t) (hd : t.height ≤ depth) :
    s.unfoldTo depth v = some t := by
  induction depth generalizing v t with
  | zero => exact absurd (Term.height_pos t) (by omega)
  | succ depth ih =>
    cases t with
    | bare p =>
      obtain ⟨n, hx⟩ := ht
      simp only [unfoldTo, hx]
    | linked p ts =>
      obtain ⟨vs, n, hx, hvs⟩ := ht
      have hts : vs.mapM (s.unfoldTo depth) = some ts := by
        refine Pointwise.mapM_eq_some_iff.mpr (Pointwise.imp_mem (unfoldsAll_iff.mp hvs) ?_)
        intro w _ u hu hwu
        have hlt : u.height < (Term.linked p ts).height := Term.height_lt hu
        exact ih hwu (by omega)
      simp only [unfoldTo, hx, hts, Option.map_some]

/-- **The term of a vertex**, if it has one. -/
def term? (s : Store) (v : VertexId) : Option Term := s.unfoldTo s.vertices.size v

/-- **The term of a handle**, if it is live. -/
def termAt? (s : Store) (h : Handle) : Option Term := (s.target? h).bind s.term?

theorem term?_eq_some_iff : s.term? v = some t ↔ s.Unfolds v t :=
  ⟨unfolds_of_unfoldTo, fun h => h.unfoldTo_eq h.height_le_size⟩

theorem termAt?_eq_some_iff {h : Handle} :
    s.termAt? h = some t ↔ ∃ v, s.target? h = some v ∧ s.Unfolds v t := by
  simp only [termAt?, Option.bind_eq_some_iff, term?_eq_some_iff]

/-- The vertex of a handle unfolds into the term of the handle. -/
theorem unfolds_of_termAt? {h : Handle} (hh : s.target? h = some v) (ht : s.termAt? h = some t) :
    s.Unfolds v t := by
  obtain ⟨w, hw, hwt⟩ := termAt?_eq_some_iff.mp ht
  obtain rfl := Option.some.inj (hh.symm.trans hw)
  exact hwt

end Store

end ExprGraph

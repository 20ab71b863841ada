import ExprGraph.Proofs.Folding
/-!
  What folding comes across, whatever the owner counts are.

  Main statement: folding a tree complains of an operator without operands only when one occurs in the tree,
  and when one occurs it does not come to its end (`Store.foldWith_traced`); and it calls an operator only on as
  many values as the operator has operands somewhere in the tree, never on none (`Store.foldWith_congr`).

  Where owners are missing from the counts, a vertex may change or go although another place still leads to it,
  and the tree is not folded as its term is.  But whatever is found at a place is either what was there at the
  beginning, perhaps a copy of it, or the constant it was folded to.

    * state      the store, and the places still to be folded;
    * origin     the term that each vertex stands for (`Store.Traced`);
    * step       the vertex of a place is copied, or an operator on constants becomes a constant;
    * invariant  every place on the stack has a term that occurs in the tree, and while an operator without
                 operands is still to be met, some place on the stack leads to it (`Pending.Lacks`).
-/

namespace ExprGraph

/-! ## Terms all of whose operators have operands -/

namespace Term

variable {t u : Term}

/-- **Every operator that occurs in the term has operands.** -/
def Supplied (t : Term) : Prop := ∀ u ∈ t.postOrder, u.payload.isOperator = true → u.operands ≠ []

theorem supplied_iff :
    t.Supplied ↔ (t.payload.isOperator = true → t.operands ≠ []) ∧ ∀ u ∈ t.operands, u.Supplied := by
  constructor
  · intro h
    refine ⟨h t t.self_mem_postOrder, fun u hu c hc => ?_⟩
    exact h c (mem_postOrder_of_operand hu hc)
  · rintro ⟨hroot, hops⟩ c hc
    rw [postOrder_eq] at hc
    rcases List.mem_append.mp hc with hc | hc
    · obtain ⟨u, hu, hcu⟩ := List.mem_flatMap.mp hc
      exact hops u hu c hcu
    · rw [List.mem_singleton.mp hc]
      exact hroot

theorem supplied_of_leaf (h : t.payload.isOperator = false) : t.Supplied := by
  rw [supplied_iff, h, operands_of_not_isOperator h]
  constructor
  · intro hf
    cases hf
  · intro u hu
    cases hu

/-- Some operand of an operator is to blame, if not the operator itself. -/
theorem exists_operand_of_not_supplied (h : ¬ t.Supplied) (hne : t.operands ≠ []) :
    ∃ u ∈ t.operands, ¬ u.Supplied := by
  by_contra hall
  refine h (supplied_iff.mpr ⟨fun _ => hne, fun u hu => ?_⟩)
  by_contra hu'
  exact hall ⟨u, hu, hu'⟩

/-- **Two interpretations agree on the calls of a term**: on those that an operator in it can make, on as
    many values as it has operands there, and at least one. -/
def CallsAgree (apply apply' : Operator.Interpretation) (t : Term) : Prop :=
  ∀ u ∈ t.postOrder, ∀ f args, u.payload = .op f → args ≠ [] → args.length = u.operands.length →
    apply f args = apply' f args

end Term

/-! ## What a vertex stands for -/

/-- **A vertex stands for a term**: it has its payload, and children that stand for its children, or it is a
    leaf in the place of a term whose operators all have operands. -/
inductive Vertex.StandsFor (origin : VertexId → Term) (x : Vertex) (t : Term) : Prop
  | kept (hp : x.payload = t.payload) (hl : x.links.map (List.map origin) = t.links)
  | folded (hp : x.payload.isOperator = false) (hl : x.links = none) (ht : t.Supplied)

namespace Vertex.StandsFor

variable {origin origin' : VertexId → Term} {x y : Vertex} {t : Term}

/-- Owners do not matter. -/
theorem of_same (h : x.StandsFor origin t) (hp : y.payload = x.payload) (hl : y.links = x.links) :
    y.StandsFor origin t := by
  cases h with
  | kept hp' hl' => exact .kept (hp.trans hp') (hl ▸ hl')
  | folded hp' hl' ht => exact .folded (hp ▸ hp') (hl.trans hl') ht

/-- Only the children matter. -/
theorem congr (h : x.StandsFor origin t) (horigin : ∀ w ∈ x.children, origin' w = origin w) :
    x.StandsFor origin' t := by
  cases h with
  | folded hp hl ht => exact .folded hp hl ht
  | kept hp hl =>
    refine .kept hp (Eq.trans ?_ hl)
    unfold Vertex.children at horigin
    cases hx : x.links with
    | none => rfl
    | some vs =>
      rw [hx] at horigin
      exact congrArg some (List.map_congr_left horigin)

/-- A vertex that has a child stands for a term with its payload, and its children for the children of the
    term. -/
theorem children_eq (h : x.StandsFor origin t) {w : VertexId} (hw : w ∈ x.children) :
    x.payload = t.payload ∧ t.children = x.children.map origin := by
  unfold Vertex.children at hw
  cases h with
  | folded hp hl ht =>
    rw [hl] at hw
    cases hw
  | kept hp hl =>
    refine ⟨hp, ?_⟩
    unfold Term.children Vertex.children
    rw [← hl]
    cases x.links <;> rfl

/-- An operator stands for a term with its payload, and its operands for the operands of the term. -/
theorem operator (h : x.StandsFor origin t) (hop : x.payload.isOperator = true) :
    x.payload = t.payload ∧ t.operands = x.operands.map origin := by
  cases h with
  | folded hp hl ht =>
    rw [hp] at hop
    cases hop
  | kept hp hl =>
    refine ⟨hp, ?_⟩
    rw [Term.operands, ← hp, Vertex.operands_eq, if_pos hop, if_pos hop]
    unfold Term.children Vertex.children
    rw [← hl]
    cases x.links <;> rfl

/-- A leaf stands for a term whose operators all have operands. -/
theorem supplied (h : x.StandsFor origin t) (hop : x.payload.isOperator = false) : t.Supplied := by
  cases h with
  | folded hp hl ht => exact ht
  | kept hp hl => exact Term.supplied_of_leaf (hp ▸ hop)

end Vertex.StandsFor

/-! ## Places -/

namespace Place

/-- The place is the given handle, or a link of a vertex below the given number. -/
def Known (h : Handle) (size : Nat) : Place → Prop
  | .handle g => g = h
  | .link v _ => v < size

/-- The term of a place: that of the tree for its handle, a child of the term of the parent for a link. -/
def term? (root : Term) (origin : VertexId → Term) : Place → Option Term
  | .handle _ => some root
  | .link v i => (origin v).children[i]?

end Place

/-- **An operator without operands is to be met from a place** that is not ready. -/
def Pending.Lacks (root : Term) (origin : VertexId → Term) (q : Pending) : Prop :=
  q.ready = false ∧ ∃ u, q.place.term? root origin = some u ∧ ¬ u.Supplied

namespace Store

variable {apply apply' : Operator.Interpretation} {s s' : Store} {h : Handle} {root t u : Term}
  {origin origin' : VertexId → Term} {p : Place} {v w : VertexId} {x : Vertex} {q : Pending}

/-- **A store whose vertices stand for terms**, as seen from one handle. -/
structure Traced (s : Store) (h : Handle) (root : Term) (origin : VertexId → Term) : Prop where
  vertex : ∀ v x, s.vertex? v = some x → x.StandsFor origin (origin v)
  child_lt : ∀ v x, s.vertex? v = some x → ∀ w ∈ x.children, w < s.vertices.size
  target : ∀ v, s.target? h = some v → v < s.vertices.size ∧ origin v = root

/-- At the beginning every vertex stands for its own term. -/
theorem exists_traced (hc : s.Closed) (ha : s.Acyclic) (hh : s.target? h = some v)
    (ht : s.Unfolds v root) : ∃ origin, s.Traced h root origin := by
  have hterm : ∀ w, ∃ t, (∃ x, s.vertex? w = some x) → s.Unfolds w t := by
    intro w
    by_cases hw : ∃ x, s.vertex? w = some x
    · obtain ⟨x, hx⟩ := hw
      obtain ⟨t, ht⟩ := hc.exists_unfolds ha hx
      exact ⟨t, fun _ => ht⟩
    · exact ⟨root, fun hlive => absurd hlive hw⟩
  choose origin horigin using hterm
  have hchild : ∀ w x, s.vertex? w = some x → ∀ c ∈ x.children, ∃ y, s.vertex? c = some y := by
    intro w x hx c hc'
    rw [← children_of_vertex? hx] at hc'
    exact hc.link w c hc'
  refine ⟨origin, ?_, ?_, ?_⟩
  · intro w x hx
    obtain ⟨hp, hrel, -⟩ := (horigin w ⟨x, hx⟩).children hx
    refine .kept hp ?_
    -- the terms of the children are the ones chosen for them
    have hown : Option.Rel (List.Forall₂ s.Unfolds) x.links (x.links.map (List.map origin)) := by
      have hlive := hchild w x hx
      unfold Vertex.children at hlive
      cases hl : x.links with
      | none => exact .none
      | some vs =>
        rw [hl] at hlive
        refine .some (List.forall₂_map_right_iff.mpr (List.forall₂_same.mpr ?_))
        intro c hcv
        exact horigin c (hlive c hcv)
    exact Pointwise.links_eq_of_unique hown hrel fun _ _ _ _ hb hc => hb.unique hc
  · intro w x hx c hcx
    obtain ⟨y, hy⟩ := hchild w x hx c hcx
    exact lt_size_of_vertex? hy
  · intro w hw
    obtain rfl := Option.some.inj (hw.symm.trans hh)
    obtain ⟨x, hx⟩ := ht.exists_vertex
    exact ⟨lt_size_of_vertex? hx, (horigin w ⟨x, hx⟩).unique ht⟩

namespace Traced

/-! ## Owners and vertices that go -/

/-- Vertices may go, and owners may change. -/
theorem thin (hs : s.Traced h root origin) (ht : Thinned s s') (hhandles : s'.handles = s.handles) :
    s'.Traced h root origin := by
  constructor
  · intro v y hy
    obtain ⟨x, hx, hp, hl⟩ := ht.vertex v y hy
    exact (hs.vertex v x hx).of_same hp hl
  · intro v y hy w hw
    obtain ⟨x, hx, -, hl⟩ := ht.vertex v y hy
    have hwx : w ∈ x.children := by
      rw [Vertex.children, ← hl]
      exact hw
    rw [ht.size]
    exact hs.child_lt v x hx w hwx
  · intro v hv
    rw [ht.size]
    exact hs.target v ((target?_congr hhandles h).symm.trans hv)

/-! ## Changes of vertices -/

/-- A new vertex may stand for any term that its links fit. -/
theorem insert (hs : s.Traced h root origin) (hx : x.StandsFor origin u)
    (hlt : ∀ w ∈ x.children, w < s.vertices.size) :
    (s.insert x).2.Traced h root (Function.update origin s.vertices.size u) := by
  have hold : ∀ w, w < s.vertices.size → Function.update origin s.vertices.size u w = origin w := by
    intro w hw
    exact Function.update_of_ne (Nat.ne_of_lt hw) _ _
  have hsize : ∀ w, w < s.vertices.size → w < (s.insert x).2.vertices.size := by
    intro w hw
    rw [size_insert]
    exact Nat.lt_succ_of_lt hw
  constructor
  · intro w y hy
    rw [vertex?_insert] at hy
    split at hy
    · next hw =>
      obtain rfl := Option.some.inj hy
      rw [hw, Function.update_self]
      exact hx.congr fun c hc => hold c (hlt c hc)
    · rw [hold w (lt_size_of_vertex? hy)]
      exact (hs.vertex w y hy).congr fun c hc => hold c (hs.child_lt w y hy c hc)
  · intro w y hy c hc
    rw [vertex?_insert] at hy
    split at hy
    · obtain rfl := Option.some.inj hy
      exact hsize c (hlt c hc)
    · exact hsize c (hs.child_lt w y hy c hc)
  · intro w hw
    obtain ⟨hlt, hroot⟩ := hs.target w hw
    exact ⟨hsize w hlt, (hold w hlt).trans hroot⟩

/-- Where all operators of a term have operands, a leaf may stand for it. -/
theorem overwrite {payload : Payload} (hs : s.Traced h root origin)
    (hleaf : payload.isOperator = false) (hv : (origin v).Supplied) :
    (s.overwrite v payload none).Traced h root origin := by
  refine thin ?_ (.release _ _) (handles_release _ _)
  constructor
  · intro w y hy
    obtain ⟨x, hx, rfl⟩ := vertex?_modify_eq_some_iff.mp hy
    split
    · next hvw => exact .folded hleaf rfl (hvw ▸ hv)
    · exact hs.vertex w x hx
  · intro w y hy c hc
    obtain ⟨x, hx, rfl⟩ := vertex?_modify_eq_some_iff.mp hy
    rw [size_modify]
    split at hc
    · cases hc
    · exact hs.child_lt w x hx c hc
  · intro w hw
    rw [size_modify]
    exact hs.target w hw

/-! ## Places -/

/-- What is found at a place stands for the term of the place. -/
theorem origin_of_at? (hs : s.Traced h root origin) (hk : p.Known h s.vertices.size)
    (hu : p.term? root origin = some u) (hp : s.at? p = some v) :
    v < s.vertices.size ∧ origin v = u := by
  cases p with
  | handle g =>
    obtain rfl : g = h := hk
    obtain rfl := Option.some.inj hu
    exact hs.target v hp
  | link a i =>
    obtain ⟨y, hy, hyi⟩ := exists_vertex_of_at?_link hp
    have hmem := List.mem_of_getElem? hyi
    refine ⟨hs.child_lt a y hy v hmem, ?_⟩
    have hchild : (origin a).children[i]? = some u := hu
    rw [((hs.vertex a y hy).children_eq hmem).2, List.getElem?_map, hyi] at hchild
    exact Option.some.inj hchild

/-- A place may be bound to another vertex that stands for its term. -/
theorem rebind (hs : s.Traced h root origin) (hk : p.Known h s.vertices.size)
    (hu : p.term? root origin = some u) (hp : s.at? p = some v) (hw : w < s.vertices.size)
    (hwu : origin w = u) : (s.rebind p w).Traced h root origin := by
  cases p with
  | handle g =>
    obtain rfl : g = h := hk
    obtain rfl := Option.some.inj hu
    refine ⟨hs.vertex, hs.child_lt, ?_⟩
    intro a ha
    rw [target?_rebind_handle hp, if_pos rfl] at ha
    obtain rfl := Option.some.inj ha
    exact ⟨hw, hwu⟩
  | link b i =>
    have hvu := (hs.origin_of_at? hk hu hp).2
    obtain ⟨z, hz, hzi⟩ := exists_vertex_of_at?_link hp
    have hset : ∀ a y, s.vertex? a = some y → b = a →
        (y.links.map fun vs => vs.set i w).map (List.map origin) = y.links.map (List.map origin) := by
      rintro a y hy rfl
      obtain rfl := Option.some.inj (hy.symm.trans hz)
      unfold Vertex.children at hzi
      cases hl : y.links with
      | none => rfl
      | some vs =>
        rw [hl] at hzi
        refine congrArg some ?_
        -- the link changes to a vertex that stands for the same term
        have hsame : (vs.map origin)[i]? = some (origin w) := by
          rw [List.getElem?_map, show vs[i]? = some v from hzi, hwu, ← hvu]
          rfl
        obtain ⟨hi, hget⟩ := List.getElem?_eq_some_iff.mp hsame
        show (vs.set i w).map origin = vs.map origin
        rw [List.map_set, ← hget, List.set_getElem_self]
    constructor
    · intro a y hy
      obtain ⟨z, hz, rfl⟩ := vertex?_modify_eq_some_iff.mp hy
      split
      · next hba =>
        cases hs.vertex a z hz with
        | kept hpay hl => exact .kept hpay ((hset a z hz hba).trans hl)
        | folded hpay hl ht => exact .folded hpay (by simp only [hl, Option.map_none]) ht
      · exact hs.vertex a z hz
    · intro a y hy c hc
      obtain ⟨z, hz, rfl⟩ := vertex?_modify_eq_some_iff.mp hy
      rw [size_rebind]
      split at hc
      · have hcz : c ∈ z.children.set i w := by
          unfold Vertex.children at hc ⊢
          cases hl : z.links with
          | none =>
            simp only [hl] at hc
            cases hc
          | some vs =>
            simp only [hl] at hc
            exact hc
        rcases List.mem_or_eq_of_mem_set hcz with hcz | rfl
        · exact hs.child_lt a z hz c hcz
        · exact hw
      · exact hs.child_lt a z hz c hc
    · intro a ha
      rw [size_rebind]
      exact hs.target a ha

end Traced

/-! ## Later stores -/

/-- A store after some folding: vertices may be new, and the others stand for the terms they stood for. -/
structure Later (s : Store) (origin : VertexId → Term) (s' : Store) (origin' : VertexId → Term) : Prop where
  size : s.vertices.size ≤ s'.vertices.size
  origin : ∀ w, w < s.vertices.size → origin' w = origin w

theorem Later.refl (s : Store) (origin : VertexId → Term) : Later s origin s origin :=
  ⟨Nat.le_refl _, fun _ _ => rfl⟩

/-- **A place that may be on the stack**: it leads to an occurrence, which has operands once it is ready. -/
structure Due (s : Store) (h : Handle) (root : Term) (origin : VertexId → Term) (q : Pending) (u : Term) :
    Prop where
  known : q.place.Known h s.vertices.size
  term : q.place.term? root origin = some u
  occurs : u ∈ root.postOrder
  ready : q.ready = true → u.operands ≠ []

theorem Later.known (hl : Later s origin s' origin') (hk : p.Known h s.vertices.size) :
    p.Known h s'.vertices.size := by
  cases p with
  | handle g => exact hk
  | link v i => exact Nat.lt_of_lt_of_le hk hl.size

theorem Later.term? (hl : Later s origin s' origin') (hk : p.Known h s.vertices.size) :
    p.term? root origin' = p.term? root origin := by
  cases p with
  | handle g => rfl
  | link v i =>
    show (origin' v).children[i]? = (origin v).children[i]?
    rw [hl.origin v hk]

theorem Later.due (hl : Later s origin s' origin') (hd : Due s h root origin q u) :
    Due s' h root origin' q u where
  known := hl.known hd.known
  term := (hl.term? hd.known).trans hd.term
  occurs := hd.occurs
  ready := hd.ready

/-! ## Copy on write -/

/-- **A place made sole** leads to a vertex that stands for its term. -/
theorem Traced.makeSole (hs : s.Traced h root origin) (hk : p.Known h s.vertices.size)
    (hu : p.term? root origin = some u) (hp : s.at? p = some v) (hx : s.vertex? v = some x) :
    ∃ origin' w, (s.makeSole p).1 = some w ∧ Later s origin (s.makeSole p).2.store origin'
      ∧ (s.makeSole p).2.store.Traced h root origin'
      ∧ w < (s.makeSole p).2.store.vertices.size ∧ origin' w = u := by
  obtain ⟨hv, hvu⟩ := hs.origin_of_at? hk hu hp
  by_cases hle : x.owners ≤ 1
  · rw [makeSole_of_le hp hx hle]
    exact ⟨origin, v, rfl, .refl s origin, hs, hv, hvu⟩
  · rw [makeSole_of_lt hp hx hle]
    have hcopy : ({ x with owners := 1 } : Vertex).StandsFor origin u :=
      (hvu ▸ hs.vertex v x hx).of_same rfl rfl
    have hheld := hs.thin (.addOwners s x.children) (handles_addOwners s x.children)
    have hins := hheld.insert hcopy (by
      rw [size_addOwners]
      exact hs.child_lt v x hx)
    rw [size_addOwners] at hins
    have hsize : (s.withCopy x).vertices.size = s.vertices.size + 1 := by
      rw [withCopy, size_insert, size_addOwners]
    have hlater : Later s origin (s.withCopy x) (Function.update origin s.vertices.size u) := by
      constructor
      · rw [hsize]
        exact Nat.le_succ _
      · intro w hw
        exact Function.update_of_ne (Nat.ne_of_lt hw) _ _
    have hnew : s.vertices.size < (s.withCopy x).vertices.size := by
      rw [hsize]
      exact Nat.lt_succ_self _
    have hself : Function.update origin s.vertices.size u s.vertices.size = u := Function.update_self _ _ _
    have hbound : (s.copyFor p x).Traced h root (Function.update origin s.vertices.size u) :=
      hins.rebind (hlater.known hk) ((hlater.term? hk).trans hu) (at?_withCopy hp) hnew hself
    have hlast : ((s.copyFor p x).dropOwner v).vertices.size = (s.withCopy x).vertices.size := by
      rw [Store.dropOwner, size_modify, copyFor, size_rebind]
    refine ⟨_, s.vertices.size, rfl, ⟨?_, hlater.origin⟩, hbound.thin (.dropOwner _ v) rfl, ?_, hself⟩
    · rw [hlast]
      exact hlater.size
    · rw [hlast]
      exact hnew

/-- **A place given a leaf** for a term whose operators all have operands. -/
theorem Traced.replace (payload : Payload) (hs : s.Traced h root origin)
    (hk : p.Known h s.vertices.size) (hu : p.term? root origin = some u) (hp : s.at? p = some v)
    (hx : s.vertex? v = some x) (hleaf : payload.isOperator = false) (hsup : u.Supplied) :
    ∃ origin', Later s origin (s.replace p payload).store origin'
      ∧ (s.replace p payload).store.Traced h root origin' := by
  obtain ⟨origin', w, hw, hlater, htraced, -, hwu⟩ := hs.makeSole hk hu hp hx
  unfold Store.replace
  split
  · next a c hc =>
    rw [hc] at hw hlater htraced
    obtain rfl := Option.some.inj hw
    refine ⟨origin', ⟨?_, hlater.origin⟩, htraced.overwrite hleaf (hwu.symm ▸ hsup)⟩
    rw [Store.overwrite, (Thinned.release _ _).size, size_modify]
    exact hlater.size
  · next c hc =>
    rw [hc] at hw
    cases hw

/-! ## One step -/

/-- **What folding can complain of**: an operator without operands where one occurs, whatever an operator
    complains of, and what only a store with wrong counts can show. -/
inductive FoldFault (apply : Operator.Interpretation) (root : Term) : Fault → Prop
  | stale : FoldFault apply root .staleHandle
  | circular : FoldFault apply root .circular
  | noOperands (name : String) (h : ¬ root.Supplied) : FoldFault apply root (.noOperands name)
  | raised {e : Fault} (f : Operator) (args : List Value) (h : apply f args = .error e) :
      FoldFault apply root e

/-- **What a step comes to**: a failure, or places for the stack, among them one for what the place of the step
    lacked. -/
inductive StepTraces (apply : Operator.Interpretation) (s : Store) (h : Handle) (root : Term)
    (origin : VertexId → Term) (q : Pending) (r : FoldStep) : Prop
  | failed {e : Fault} (hr : r.next = .error e) (he : FoldFault apply root e)
  | went {next : List Pending} {origin' : VertexId → Term} (hr : r.next = .ok next)
      (later : Later s origin r.store origin') (traced : r.store.Traced h root origin')
      (due : ∀ q' ∈ next, ∃ u, Due r.store h root origin' q' u)
      (lacks : q.Lacks root origin → ∃ q' ∈ next, q'.Lacks root origin')

/-- A step that leaves everything as it was, at a place that lacks nothing. -/
theorem StepTraces.idle (hs : s.Traced h root origin) (hq : ¬ q.Lacks root origin) :
    StepTraces apply s h root origin q ⟨s, [], 0, .ok []⟩ := by
  refine .went rfl (.refl s origin) hs ?_ ?_
  · intro q' hq'
    cases hq'
  · intro hlack
    exact absurd hlack hq

/-- Operands that are constants stand for terms whose operators all have operands. -/
theorem Traced.supplied_of_constants (hs : s.Traced h root origin) {vs : List VertexId}
    {args : List Value} (hc : s.constants vs = some args) {w : VertexId} (hw : w ∈ vs) :
    (origin w).Supplied := by
  obtain ⟨a, -, ha⟩ := Pointwise.exists_right (Pointwise.mapM_eq_some_iff.mp hc) hw
  obtain ⟨y, hy, hya⟩ := Option.bind_eq_some_iff.mp ha
  refine (hs.vertex w y hy).supplied ?_
  cases hp : y.payload with
  | const v => rfl
  | op f | var name =>
    rw [hp] at hya
    cases hya

/-- An operator taken for its place has its operands put on the stack. -/
theorem Traced.expand (hs : s.Traced h root origin) (hd : Due s h root origin ⟨p, false⟩ u)
    (hp : s.at? p = some v) (hx : s.vertex? v = some x) (hlen : u.operands.length = x.operands.length)
    (hop : u.payload.isOperator = true) (hne : u.operands ≠ []) :
    StepTraces apply s h root origin ⟨p, false⟩ (s.expand p x.operands.length) := by
  obtain ⟨origin', w, hw, hlater, htraced, hlt, hwu⟩ := hs.makeSole hd.known hd.term hp hx
  have hchildren : u.operands = u.children := if_pos hop
  have hterm : ∀ i, Place.term? root origin' (.link w i) = u.operands[i]? := by
    intro i
    show (origin' w).children[i]? = _
    rw [hwu, hchildren]
  unfold Store.expand
  split
  · next c hc =>
    rw [hc] at hw
    cases hw
  · next a c hc =>
    rw [hc] at hw hlater htraced hlt
    obtain rfl := Option.some.inj hw
    refine .went rfl hlater htraced ?_ ?_
    · intro q hq
      rcases List.mem_append.mp hq with hq | hq
      · obtain ⟨i, hi, rfl⟩ := List.mem_map.mp hq
        have hiu : i < u.operands.length := by
          rw [hlen]
          exact List.mem_range.mp hi
        refine ⟨u.operands[i], hlt, (hterm i).trans (List.getElem?_eq_getElem hiu), ?_, ?_⟩
        · exact Term.mem_postOrder_trans hd.occurs
            (Term.mem_postOrder_of_operand (List.getElem_mem hiu) (Term.self_mem_postOrder _))
        · intro hready
          cases hready
      · rw [List.mem_singleton.mp hq]
        exact ⟨u, hlater.known hd.known, (hlater.term? hd.known).trans hd.term, hd.occurs, fun _ => hne⟩
    · rintro ⟨-, u', hu', hlack⟩
      obtain rfl := Option.some.inj (hu'.symm.trans hd.term)
      -- what the operator lacks, one of its operands lacks
      obtain ⟨c, hc, hclack⟩ := Term.exists_operand_of_not_supplied hlack hne
      obtain ⟨i, hi⟩ := List.mem_iff_getElem?.mp hc
      have hir : i < x.operands.length := by
        rw [← hlen]
        exact (List.getElem?_eq_some_iff.mp hi).1
      refine ⟨⟨.link a i, false⟩, List.mem_append_left _ ?_, rfl, c, (hterm i).trans hi, hclack⟩
      exact List.mem_map.mpr ⟨i, List.mem_range.mpr hir, rfl⟩

/-- **One step of folding.** -/
theorem Traced.foldStep (apply : Operator.Interpretation) (hs : s.Traced h root origin)
    (hd : Due s h root origin q u) :
    StepTraces apply s h root origin q (foldStep apply s q) := by
  obtain ⟨p, ready⟩ := q
  cases hat : (s.at? p).bind s.vertex? with
  | none =>
    refine .failed ?_ .stale
    simp only [Store.foldStep, hat]
  | some x =>
    obtain ⟨v, hp, hx⟩ := Option.bind_eq_some_iff.mp hat
    have hst := hs.vertex v x hx
    rw [(hs.origin_of_at? hd.known hd.term hp).2] at hst
    -- a ready place lacks nothing any more
    cases hop : x.payload.isOperator with
    | false =>
      rw [foldStep_leaf hp hx hop]
      refine .idle hs ?_
      rintro ⟨-, u', hu', hlack⟩
      obtain rfl := Option.some.inj (hu'.symm.trans hd.term)
      exact hlack (hst.supplied hop)
    | true =>
      obtain ⟨f, hf⟩ := Payload.isOperator_iff.mp hop
      obtain ⟨hpay, hops⟩ := hst.operator hop
      have hopu : u.payload.isOperator = true := hpay ▸ hop
      cases ready with
      | false =>
        by_cases he : x.operands = []
        · rw [foldStep_empty apply hp hx hf he]
          refine .failed rfl (.noOperands f.name ?_)
          intro hsup
          refine hsup u hd.occurs hopu ?_
          rw [hops, he]
          rfl
        · rw [foldStep_expand apply hp hx hf he]
          have hlen : u.operands.length = x.operands.length := by rw [hops, List.length_map]
          refine hs.expand hd hp hx hlen hopu ?_
          intro hnil
          rw [hnil] at hlen
          exact he (List.length_eq_zero_iff.mp hlen.symm)
      | true =>
        have hready : ¬ Pending.Lacks root origin ⟨p, true⟩ := by
          rintro ⟨hfalse, -⟩
          cases hfalse
        rw [foldStep_ready apply hp hx hf]
        split
        · next args hargs =>
          have hsup : u.Supplied := by
            refine Term.supplied_iff.mpr ⟨fun _ => hd.ready rfl, ?_⟩
            intro c hc
            rw [hops] at hc
            obtain ⟨w, hw, rfl⟩ := List.mem_map.mp hc
            exact hs.supplied_of_constants hargs hw
          unfold collapse
          cases hr : apply f args with
          | error e => exact .failed rfl (.raised f args hr)
          | ok r =>
            obtain ⟨origin', hlater, htraced⟩ :=
              hs.replace (.const r) hd.known hd.term hp hx rfl hsup
            refine .went rfl hlater htraced ?_ ?_
            · intro q' hq'
              cases hq'
            · intro hlack
              exact absurd hlack hready
        · exact .idle hs hready

/-! ## The whole stack -/

/-- The places put on the stack by a step join those that were below. -/
theorem due_append {next work : List Pending} (hl : Later s origin s' origin')
    (hnext : ∀ q ∈ next, ∃ u, Due s' h root origin' q u)
    (hwork : ∀ q ∈ work, ∃ u, Due s h root origin q u) :
    ∀ q ∈ next ++ work, ∃ u, Due s' h root origin' q u := by
  intro q hq
  rcases List.mem_append.mp hq with hq | hq
  · exact hnext q hq
  · obtain ⟨u, hu⟩ := hwork q hq
    exact ⟨u, hl.due hu⟩

/-- **Folding what is on the stack** fails for one of these reasons, and while some place lacks operands it
    does not come to its end. -/
theorem Traced.foldFrom (apply : Operator.Interpretation) (bound : Nat) (work : List Pending)
    (notes : List Note) (folded : Nat) (hs : s.Traced h root origin)
    (hd : ∀ q ∈ work, ∃ u, Due s h root origin q u) :
    (∀ e, (foldFrom apply bound work s notes folded).outcome = .error e → FoldFault apply root e)
      ∧ ((∃ q ∈ work, q.Lacks root origin) →
        ∀ n, (foldFrom apply bound work s notes folded).outcome ≠ .ok n) := by
  induction bound generalizing s origin work notes folded with
  | zero =>
    cases work with
    | nil =>
      refine ⟨fun e he => ?_, ?_⟩
      · cases he
      · rintro ⟨q, hq, -⟩
        cases hq
    | cons q work =>
      constructor
      · intro e he
        obtain rfl : Fault.circular = e := Except.error.inj he
        exact .circular
      · intro _ n hn
        cases hn
  | succ bound ih =>
    cases work with
    | nil =>
      refine ⟨fun e he => ?_, ?_⟩
      · cases he
      · rintro ⟨q, hq, -⟩
        cases hq
    | cons q work =>
      obtain ⟨u, hu⟩ := hd q List.mem_cons_self
      rw [Store.foldFrom]
      cases hs.foldStep apply hu with
      | @failed e hr he =>
        split
        · next hstep =>
          rw [hstep] at hr
          cases hr
        · next s' more n e' hstep =>
          rw [hstep] at hr
          obtain rfl : e' = e := Except.error.inj hr
          constructor
          · intro d hde
            obtain rfl : e' = d := Except.error.inj hde
            exact he
          · intro _ m hm
            cases hm
      | @went next origin' hr later traced due lacks =>
        split
        · next s' more n next' hstep =>
          rw [hstep] at hr later traced due
          obtain rfl : next' = next := Except.ok.inj hr
          obtain ⟨herr, hok⟩ := ih (next' ++ work) (more.reverse ++ notes) (folded + n) traced
            (due_append later due fun q' hq' => hd q' (List.mem_cons_of_mem q hq'))
          refine ⟨herr, ?_⟩
          rintro ⟨q', hq', hlack⟩
          refine hok ?_
          rcases List.mem_cons.mp hq' with rfl | hq'
          · obtain ⟨q'', hq'', hlack'⟩ := lacks hlack
            exact ⟨q'', List.mem_append_left _ hq'', hlack'⟩
          · obtain ⟨u', hu'⟩ := hd q' (List.mem_cons_of_mem q hq')
            obtain ⟨hready, c, hc, hcl⟩ := hlack
            exact ⟨q', List.mem_append_right _ hq', hready, c, (later.term? hu'.known).trans hc, hcl⟩
        · next hstep =>
          rw [hstep] at hr
          cases hr

/-! ## What operators are called on -/

/-- One step of folding calls an operator on the values of its operands. -/
theorem Traced.foldStep_congr (hagree : root.CallsAgree apply apply') (hs : s.Traced h root origin)
    (hd : Due s h root origin q u) : Store.foldStep apply s q = Store.foldStep apply' s q := by
  unfold Store.foldStep
  split
  · rfl
  · next x hat =>
    obtain ⟨v, hp, hx⟩ := Option.bind_eq_some_iff.mp hat
    have hst := hs.vertex v x hx
    rw [(hs.origin_of_at? hd.known hd.term hp).2] at hst
    split
    · next f hf =>
      obtain ⟨hpay, hops⟩ := hst.operator (Payload.isOperator_iff.mpr ⟨f, hf⟩)
      split
      · next hready =>
        split
        · next args hargs =>
          have hlen : args.length = u.operands.length := by
            rw [hops, List.length_map, ← (Pointwise.mapM_eq_some_iff.mp hargs).length_eq]
          have hcall : apply f args = apply' f args := by
            refine hagree u hd.occurs f args (hpay.symm.trans hf) ?_ hlen
            rintro rfl
            exact hd.ready hready (List.length_eq_zero_iff.mp hlen.symm)
          rw [collapse, collapse, hcall]
        · rfl
      · rfl
    · rfl

theorem Traced.foldFrom_congr (hagree : root.CallsAgree apply apply') (bound : Nat)
    (work : List Pending) (notes : List Note) (folded : Nat) (hs : s.Traced h root origin)
    (hd : ∀ q ∈ work, ∃ u, Due s h root origin q u) :
    Store.foldFrom apply bound work s notes folded = Store.foldFrom apply' bound work s notes folded := by
  induction bound generalizing s origin work notes folded with
  | zero => cases work <;> rfl
  | succ bound ih =>
    cases work with
    | nil => rfl
    | cons q work =>
      obtain ⟨u, hu⟩ := hd q List.mem_cons_self
      rw [Store.foldFrom, Store.foldFrom, ← hs.foldStep_congr hagree hu]
      split
      · next s' more n next hstep =>
        cases hs.foldStep apply hu with
        | failed hr he =>
          rw [hstep] at hr
          cases hr
        | went hr later traced due lacks =>
          rw [hstep] at hr later traced due
          obtain rfl := Except.ok.inj hr
          exact ih _ _ _ traced
            (due_append later due fun q' hq' => hd q' (List.mem_cons_of_mem q hq'))
      · rfl

/-! ## Folding a tree -/

/-- At the beginning the handle is all there is to do. -/
theorem due_start (s : Store) (h : Handle) (t : Term) (origin : VertexId → Term) :
    ∀ q ∈ [(⟨.handle h, false⟩ : Pending)], ∃ u, Due s h t origin q u := by
  intro q hq
  rw [List.mem_singleton.mp hq]
  refine ⟨t, rfl, rfl, t.self_mem_postOrder, ?_⟩
  intro hready
  cases hready

/-- **Folding a tree and operators without operands**: it complains of one only when one occurs, and comes
    to its end only when none does. -/
theorem foldWith_traced (apply : Operator.Interpretation) (hc : s.Closed) (ha : s.Acyclic)
    (hh : s.target? h = some v) (ht : s.Unfolds v t) :
    (∀ e, (s.foldWith apply h).outcome = .error e → FoldFault apply t e)
      ∧ ∀ n, (s.foldWith apply h).outcome = .ok n → t.Supplied := by
  obtain ⟨origin, hs⟩ := exists_traced hc ha hh ht
  obtain ⟨herr, hok⟩ := hs.foldFrom apply (2 * s.walkBound) _ [] 0 (due_start s h t origin)
  refine ⟨herr, ?_⟩
  intro n hn
  by_contra hlack
  exact hok ⟨_, List.mem_cons_self, rfl, t, rfl, hlack⟩ n hn

/-- **Folding a tree calls operators on the values of their operands**, on no others. -/
theorem foldWith_congr (hc : s.Closed) (ha : s.Acyclic) (hh : s.target? h = some v)
    (ht : s.Unfolds v t) (hagree : t.CallsAgree apply apply') :
    s.foldWith apply h = s.foldWith apply' h := by
  obtain ⟨origin, hs⟩ := exists_traced hc ha hh ht
  exact hs.foldFrom_congr hagree (2 * s.walkBound) _ [] 0 (due_start s h t origin)

end Store

end ExprGraph

import ExprGraph.Proofs.Regions
import ExprGraph.Proofs.Staying
/-!
  Folding unshares the operators.

  Main statement: when folding the tree of a place comes to its end, every operator that is left in the tree
  has one owner (`unshares`).

    * state      the store, and the operands of a vertex still to be folded;
    * step       one operand is folded; it gets unshared, and the ones before it stay so (`Unshared.beside`);
    * invariant  the operands folded so far are unshared (`unshared_operands`).

  What has to be shown in the step: an operator with one owner is reached in one way, namely by the link it was
  folded through.  Then the other operands do not reach it, and folding them stays in the region of what
  they reach (`Runs.within`).
-/

namespace ExprGraph

namespace Store

variable {apply : Operator.Interpretation} {s s' : Store} {loose : VertexId → Nat} {p : Place}
  {a b u v w : VertexId} {x : Vertex} {t : Term} {n c c' i j : Nat}

/-! ## Vertices a tree is evaluated from -/

/-- **The second vertex is reached from the first by operand links.** -/
def Uses (s : Store) : VertexId → VertexId → Prop :=
  Relation.ReflTransGen fun v w => w ∈ s.operands v

theorem Uses.reaches (h : s.Uses v w) : s.Reaches v w := by
  induction h with
  | refl => exact .refl
  | tail _ hw ih => exact ih.tail (mem_children_of_mem_operands hw)

/-- Operands are those of an operator. -/
theorem isOperator_of_mem_operands (hx : s.vertex? v = some x) (hw : w ∈ s.operands v) :
    x.payload.isOperator = true := by
  rw [operands_of_vertex? hx, Vertex.operands_eq] at hw
  by_contra hleaf
  rw [if_neg hleaf] at hw
  cases hw

/-- The operands of a vertex are bound to its links. -/
theorem exists_at?_of_mem_operands (hw : w ∈ s.operands v) : ∃ i, s.at? (.link v i) = some w :=
  exists_at?_of_mem_children (mem_children_of_mem_operands hw)

/-- What a vertex uses unfolds into what occurs in its term. -/
theorem Unfolds.of_uses (h : s.Uses v w) (ht : s.Unfolds v t) : ∃ d ∈ t.postOrder, s.Unfolds w d := by
  induction h with
  | refl => exact ⟨t, t.self_mem_postOrder, ht⟩
  | tail _ hw ih =>
    obtain ⟨d, hd, hud⟩ := ih
    obtain ⟨e, he, hwe, -⟩ := hud.operand hw
    exact ⟨e, Term.mem_postOrder_trans hd (Term.mem_postOrder_of_operand he e.self_mem_postOrder), hwe⟩

/-- What occurs in the term of a vertex is used by it. -/
theorem Unfolds.exists_uses {d : Term} (ht : s.Unfolds v t) (hd : d ∈ t.postOrder) :
    ∃ w, s.Uses v w ∧ s.Unfolds w d := by
  induction t generalizing v with
  | step t ih =>
    rw [Term.postOrder_eq] at hd
    rcases List.mem_append.mp hd with hd | hd
    · obtain ⟨e, he, hde⟩ := List.mem_flatMap.mp hd
      obtain ⟨x, hx⟩ := ht.exists_vertex
      obtain ⟨u, hu, hue⟩ := Pointwise.exists_left (ht.operands hx) he
      obtain ⟨w, hw, hwd⟩ := ih e (Term.mem_children_of_mem_operands he) hue hde
      rw [← operands_of_vertex? hx] at hu
      exact ⟨w, .head hu hw, hwd⟩
    · obtain rfl := List.mem_singleton.mp hd
      exact ⟨v, .refl, ht⟩

/-- A spared vertex uses nothing new. -/
theorem Spared.of_uses (hs : Spared s s' v) (ht : s.Unfolds v t) (h : s'.Uses v w) : s.Uses v w := by
  induction h with
  | refl => exact .refl
  | @tail u w _ hw ih =>
    obtain ⟨d, -, hud⟩ := ht.of_uses ih
    obtain ⟨x, hx⟩ := hud.exists_vertex
    rw [hs.operands_eq ih.reaches hx] at hw
    exact ih.tail hw

/-! ## Held past a place -/

/-- What a held vertex reaches is held, unless it reaches a parent of the places to avoid. -/
theorem Held.reaches_past {avoid : Set Place} (hv : s.Held loose avoid v)
    (hne : ∀ u i, .link u i ∈ avoid → ¬ s.Reaches v u) (hr : s.Reaches v w) : s.Held loose avoid w := by
  induction hr with
  | refl => exact hv
  | tail hu hw ih =>
    obtain ⟨i, hi⟩ := exists_at?_of_mem_children hw
    exact .link ih (fun hm => hne _ i hm hu) hi

/-- **A vertex with one owner, a link, is held only where its parent is.** -/
theorem Balanced.held_parent {avoid : Set Place} (hb : s.Balanced loose) (hx : s.vertex? v = some x)
    (hle : x.owners ≤ 1) (hat : s.at? (.link u i) = some v) (hv : s.Held loose avoid v) :
    s.Held loose avoid u := by
  have hown := hb.owners v x hx
  have hpos := bound_pos hat
  cases hv with
  | handle _ ht =>
    have htwo := two_le_bound_of_handle_link ht hat
    omega
  | loose hl => omega
  | @link u' _ k hu' _ hk =>
    by_cases hsame : Place.link u' k = .link u i
    · obtain ⟨rfl, -⟩ := Place.link.inj hsame
      exact hu'
    · have htwo := two_le_bound hk hat hsame
      omega

/-! ## Unshared trees -/

/-- **The operators that a vertex uses have one owner.** -/
def Unshared (s : Store) (v : VertexId) : Prop :=
  ∀ a x, s.Uses v a → s.vertex? a = some x → x.payload.isOperator = true → x.owners ≤ 1

/-- **An unshared operator is reached through the place of its tree alone.** -/
theorem Unshared.not_held (hun : s.Unshared v) (hb : s.Balanced loose) (hp : s.at? p = some v)
    (ha : s.Uses v a) (hx : s.vertex? a = some x) (hop : x.payload.isOperator = true) :
    ¬ s.Held loose {p} a := by
  -- up along the operand links, each vertex on the way being an operator
  induction ha generalizing x with
  | refl => exact hb.sole_of_owners_le_one hp hx (hun v x .refl hx hop)
  | @tail u a hu hmem ih =>
    intro hheld
    obtain ⟨i, hi⟩ := exists_at?_of_mem_operands hmem
    obtain ⟨y, hy, -⟩ := exists_vertex_of_at?_link hi
    have hle := hun a x (.tail hu hmem) hx hop
    exact ih hy (isOperator_of_mem_operands hy hmem) (hb.held_parent hx hle hi hheld)

/-- What some vertices reach, and the new vertices. -/
def below (s : Store) (roots : List VertexId) : Set VertexId :=
  {a | (∃ r ∈ roots, s.Reaches r a) ∨ s.vertices.size ≤ a}

theorem region_below (s : Store) (roots : List VertexId) : s.Region (s.below roots) where
  fresh _ ha := .inr ha
  closed a ha c hc := by
    rcases ha with ⟨r, hr, hra⟩ | hge
    · exact .inl ⟨r, hr, hra.tail hc⟩
    · obtain ⟨y, hy⟩ := exists_vertex_of_mem_children hc
      exact absurd hge (Nat.not_le_of_lt (lt_size_of_vertex? hy))

/-- A place leads into what its vertex reaches. -/
theorem leadsInto_below (hp : s.at? p = some a) : s.LeadsInto (s.below [a]) p := by
  intro b hb
  obtain rfl := Option.some.inj (hp.symm.trans hb)
  exact .inl ⟨a, List.mem_cons_self, .refl⟩

/-- A live vertex that the roots do not reach is outside. -/
theorem notMem_below {roots : List VertexId} (hx : s.vertex? a = some x) (h : ∀ r ∈ roots, ¬ s.Reaches r a) :
    a ∉ s.below roots := by
  rintro (⟨r, hr, hra⟩ | hge)
  · exact h r hr hra
  · exact absurd hge (Nat.not_le_of_lt (lt_size_of_vertex? hx))

/-- **Folding one operand leaves another one unshared.** -/
theorem Unshared.beside {r : Except Fault Nat} (hun : s.Unshared a) (hb : s.Balanced loose)
    (hi : s.Anchored loose (.link v i)) (hj : s.Anchored loose (.link v j)) (hij : i ≠ j)
    (hat : s.at? (.link v i) = some a) (hbt : s.at? (.link v j) = some b)
    (hc : ChangesOnly s s' loose {.link v j}) (hrun : Runs apply [⟨.link v j, false⟩] s s' r c) :
    s'.Unshared a := by
  obtain ⟨y, hy, -⟩ := exists_vertex_of_at?_link hat
  obtain ⟨t, ht⟩ := hb.unfolds v y hy
  have hnot : ∀ {d}, d ∈ s.children v → ¬ s.Reaches d v := fun hd => ht.not_reaches_of_child hd
  have ha : s.Held loose {.link v j} a := .link hj (by simp [hij]) hat
  have hbh : s.Held loose {.link v i} b := .link hi (by simp [hij.symm]) hbt
  -- what the unshared operand reaches is spared
  have hspared : Spared s s' a := by
    intro u x hu hx
    have hne : ∀ w k, Place.link w k ∈ ({.link v j} : Set Place) → ¬ s.Reaches a w := by
      intro w k hm
      obtain ⟨rfl, -⟩ := Place.link.inj (Set.mem_singleton_iff.mp hm)
      exact hnot (mem_children_of_at? hat)
    refine hc.same (ha.reaches_past hne hu) hx fun k hm => ?_
    exact hne u k hm hu
  have hwithin : Within (s.below [b]) s s' := by
    refine hrun.within (s.region_below [b]) fun q hq => ?_
    obtain rfl := List.mem_singleton.mp hq
    exact leadsInto_below hbt
  obtain ⟨z, hz⟩ := hb.at? hat
  obtain ⟨ta, hta⟩ := hb.unfolds a z hz
  intro u x hu hx hop
  have huse : s.Uses a u := hspared.of_uses hta hu
  obtain ⟨d, -, hud⟩ := hta.of_uses huse
  obtain ⟨x₀, hx₀⟩ := hud.exists_vertex
  obtain ⟨m, hm⟩ := hspared u x₀ huse.reaches hx₀
  obtain rfl := Option.some.inj (hm.symm.trans hx)
  -- the operand being folded does not reach it, so it gets no other owner
  have hout : u ∉ s.below [b] := by
    refine notMem_below hx₀ fun r hr hru => ?_
    obtain rfl := List.mem_singleton.mp hr
    refine hun.not_held hb hat huse hx₀ hop (hbh.reaches_past (fun w k hm => ?_) hru)
    obtain ⟨rfl, -⟩ := Place.link.inj (Set.mem_singleton_iff.mp hm)
    exact hnot (mem_children_of_at? hbt)
  obtain ⟨x₁, hx₁, hle⟩ := hwithin.owners u _ hout hx
  obtain rfl := Option.some.inj (hx₀.symm.trans hx₁)
  exact Nat.le_trans hle (hun u _ huse hx₀ hop)

/-! ## The runs of a term -/

/-- **A run leads to one store** with one result, in however many steps. -/
theorem Runs.unique {pend : List Pending} {s₁ s₂ : Store} {r r' : Except Fault Nat}
    (h : Runs apply pend s s₁ r c) (h' : Runs apply pend s s₂ r' c') : s₁ = s₂ ∧ r = r' := by
  obtain ⟨more, h⟩ := h
  obtain ⟨more', h'⟩ := h'
  have hrun := h c' [] [] 0
  have hrun' := h' c [] [] 0
  rw [Nat.add_comm] at hrun'
  have hsame := hrun.symm.trans hrun'
  -- with nothing left on the stack, the rest of folding ends at once
  have hend : ∀ (k : Nat) (s : Store) (notes : List Note) (r : Except Fault Nat),
      (foldOn apply k [] s notes 0 r).store = s ∧ (foldOn apply k [] s notes 0 r).outcome = r := by
    intro k s notes r
    cases r with
    | error e => exact ⟨rfl, rfl⟩
    | ok n =>
      rw [foldOn, Nat.zero_add]
      cases k <;> exact ⟨rfl, rfl⟩
  constructor
  · have hstore := congrArg Folded.store hsame
    rwa [(hend _ _ _ _).1, (hend _ _ _ _).1] at hstore
  · have hout := congrArg Folded.outcome hsame
    rwa [(hend _ _ _ _).2, (hend _ _ _ _).2] at hout

/-- Folding the tree of a place to its end leaves it unshared. -/
def Unshares (apply : Operator.Interpretation) (t : Term) : Prop :=
  ∀ ⦃s s' : Store⦄ ⦃loose : VertexId → Nat⦄ ⦃p : Place⦄ ⦃v w : VertexId⦄ ⦃n c : Nat⦄, s.Balanced loose →
    s.Anchored loose p → s.at? p = some v → s.Unfolds v t → Runs apply [⟨p, false⟩] s s' (.ok n) c →
    s'.at? p = some w → s'.Unshared w

/-- **The operands before stay unshared** while one is folded, whatever that comes to. -/
theorem unshared_before {payload : Payload} {ds ts : List Term} {d : Term} {r : Except Fault Nat}
    (hb : s.Balanced loose) (ha : s.Anchored loose p) (hp : s.at? p = some v) (hv : ¬ s.Held loose {p} v)
    (ht : s.Unfolds v (.linked payload (ds ++ t :: ts)))
    (hun : ∀ i a, i < ds.length → s.at? (.link v i) = some a → s.Unshared a)
    (hedit : Edited s s' loose (.link v ds.length) w d)
    (hrun : Runs apply [⟨.link v ds.length, false⟩] s s' r c) :
    ∀ i a, i < ds.length → s'.at? (.link v i) = some a → s'.Unshared a := by
  have hlink := fun k => ha.link hp hv k
  obtain ⟨b, hbt, -⟩ := ht.exists_at?_link
  intro i a hlt hat
  have hne : Place.link v i ∉ ({.link v ds.length} : Set Place) := by simp [Nat.ne_of_lt hlt]
  have hold : s.at? (.link v i) = some a :=
    (hedit.changes.link v i (hlink ds.length) hne).symm.trans hat
  exact (hun i a hlt hold).beside hb (hlink i) (hlink ds.length) (Nat.ne_of_lt hlt) hold hbt
    hedit.changes hrun

/-- **One operand more is unshared** once it is folded: those before it stay so. -/
theorem Unshares.next {payload : Payload} {ds ts : List Term} {d : Term} (hu : Unshares apply t)
    (hb : s.Balanced loose) (ha : s.Anchored loose p) (hp : s.at? p = some v) (hv : ¬ s.Held loose {p} v)
    (ht : s.Unfolds v (.linked payload (ds ++ t :: ts)))
    (hun : ∀ i a, i < ds.length → s.at? (.link v i) = some a → s.Unshared a)
    (hedit : Edited s s' loose (.link v ds.length) w d)
    (hrun : Runs apply [⟨.link v ds.length, false⟩] s s' (.ok n) c) :
    ∀ i a, i < (ds ++ [d]).length → s'.at? (.link v i) = some a → s'.Unshared a := by
  have hbefore := unshared_before hb ha hp hv ht hun hedit hrun
  obtain ⟨b, hbt, htb⟩ := ht.exists_at?_link
  intro i a hi hat
  rw [List.length_append, List.length_singleton] at hi
  rcases Nat.lt_or_eq_of_le (Nat.le_of_lt_succ hi) with hlt | rfl
  · exact hbefore i a hlt hat
  · exact hu hb (ha.link hp hv ds.length) hbt htb hrun hat

/-- **The operands of a vertex from left to right**: those before the `i`-th are unshared. -/
theorem unshared_operands {payload : Payload} {ts us : List Term} (ih : ∀ u ∈ ts, Unshares apply u) :
    ∀ {ds : List Term} {s : Store} {n c : Nat}, s.Balanced loose → s.Anchored loose p → s.at? p = some v →
      ¬ s.Held loose {p} v → s.Unfolds v (.linked payload (ds ++ ts)) →
      (∀ i a, i < ds.length → s.at? (.link v i) = some a → s.Unshared a) →
      Term.foldAll apply ts = (us, .ok n) →
      Runs apply ((List.range' ds.length ts.length).map fun i => ⟨.link v i, false⟩) s s' (.ok n) c →
      ∀ i a, s'.at? (.link v i) = some a → s'.Unshared a := by
  induction ts generalizing us with
  | nil =>
    intro ds s n c hb ha hp hv ht hun hall hrun i a hat
    obtain ⟨rfl, -⟩ := hrun.unique (.nil s)
    refine hun i a ?_ hat
    obtain ⟨x, hx⟩ := ht.exists_vertex
    have hlen := (ht.children hx).2.2.length_eq
    rw [at?_link, children_of_vertex? hx] at hat
    obtain ⟨hlt, -⟩ := List.getElem?_eq_some_iff.mp hat
    have hterm : (Term.linked payload (ds ++ [])).children = ds := List.append_nil ds
    rw [hterm] at hlen
    omega
  | cons t ts ihs =>
    intro ds s n c hb ha hp hv ht hun hall hrun
    obtain ⟨s₁, w₁, hedit, hparent, hhead⟩ := FoldsAs.operand (foldsAs t) hb ha hp hv ht
    rw [Term.foldAll] at hall
    cases hfold : t.fold apply with
    | mk d r =>
      rw [hfold] at hedit hparent hhead hall
      cases r with
      | error e => cases hall
      | ok m =>
        cases hrest : Term.foldAll apply ts with
        | mk ds' r' =>
          rw [hrest] at hall
          cases r' with
          | error e => cases hall
          | ok m' =>
            cases hall
            have ht₁ : s₁.Unfolds v (.linked payload ((ds ++ [d]) ++ ts)) := by
              rw [List.append_assoc]
              exact hparent.unfolds
            have ha₁ := hparent.changes.anchored ha
            have hv₁ : ¬ s₁.Held loose {p} v := fun hm => hv (hparent.changes.of_held hm)
            have hun₁ := (ih t List.mem_cons_self).next hb ha hp hv ht hun hedit hhead
            -- the run of the list is that of the first operand and that of the others
            obtain ⟨s₂, -, htail⟩ := foldAll_run (fun u _ => foldsAs u) hparent.balanced ha₁ hparent.at? hv₁ ht₁
            have hsplit := hhead.append htail
            rw [hrest] at htail
            rw [List.length_append, List.length_singleton] at hsplit
            rw [List.length_cons, List.range'_succ, List.map_cons] at hrun
            obtain ⟨rfl, -⟩ := hsplit.unique hrun
            exact ihs (fun u hu => ih u (List.mem_cons_of_mem t hu)) hparent.balanced ha₁ hparent.at? hv₁ ht₁
              hun₁ hrest htail

/-- A leaf uses nothing but itself. -/
theorem unshared_of_leaf (hx : s.vertex? v = some x) (hl : x.payload.isOperator = false) : s.Unshared v := by
  intro a y ha hy hop
  rcases Relation.ReflTransGen.cases_head ha with rfl | ⟨u, hu, -⟩
  · obtain rfl := Option.some.inj (hx.symm.trans hy)
    rw [hl] at hop
    cases hop
  · rw [isOperator_of_mem_operands hx hu] at hl
    cases hl

/-- An operator with one owner over unshared operands. -/
theorem unshared_of_operands (hx : s.vertex? v = some x) (hle : x.owners ≤ 1)
    (h : ∀ i a, s.at? (.link v i) = some a → s.Unshared a) : s.Unshared v := by
  intro a y ha hy hop
  rcases Relation.ReflTransGen.cases_head ha with rfl | ⟨u, hu, hua⟩
  · obtain rfl := Option.some.inj (hx.symm.trans hy)
    exact hle
  · obtain ⟨i, hi⟩ := exists_at?_of_mem_operands hu
    exact h i u hi a y hua hy hop

/-- A vertex taken for a place has one owner. -/
theorem owners_makeSole {notes : List Note} (h : s.makeSole p = (some w, ⟨s', notes⟩))
    (hx : s'.vertex? w = some x) : x.owners ≤ 1 := by
  cases hp : s.at? p with
  | none =>
    simp only [Store.makeSole, hp] at h
    cases h
  | some v =>
    cases hy : s.vertex? v with
    | none =>
      simp only [Store.makeSole, hp, hy] at h
      cases h
    | some y =>
      by_cases hle : y.owners ≤ 1
      · rw [makeSole_of_le hp hy hle] at h
        cases h
        obtain rfl := Option.some.inj (hy.symm.trans hx)
        exact hle
      · rw [makeSole_of_lt hp hy hle] at h
        cases h
        rw [vertex?_dropOwner, copyFor, vertex?_rebind, vertex?_withCopy_self] at hx
        obtain rfl := Option.some.inj hx
        show (Vertex.rebound _ _ _ _).owners - _ ≤ 1
        rw [Vertex.owners_rebound]
        exact Nat.sub_le _ _

/-- Folding its operands gives a vertex no other owner. -/
theorem owners_operands_run {r : Except Fault Nat} {is : List Nat} {y : Vertex} (ht : s.Unfolds v t)
    (hx : s.vertex? v = some x) (hle : x.owners ≤ 1) (hy : s'.vertex? v = some y)
    (hrun : Runs apply (is.map fun i => ⟨.link v i, false⟩) s s' r c) : y.owners ≤ 1 := by
  have hwithin : Within (s.below (s.children v)) s s' := by
    refine hrun.within (s.region_below _) fun q hq => ?_
    obtain ⟨i, -, rfl⟩ := List.mem_map.mp hq
    intro d hd
    exact .inl ⟨d, mem_children_of_at? hd, .refl⟩
  obtain ⟨z, hz, hyz⟩ := hwithin.owners v y (notMem_below hx fun d hd => ht.not_reaches_of_child hd) hy
  obtain rfl := Option.some.inj (hx.symm.trans hz)
  exact Nat.le_trans hyz hle

/-- **An operator that is left is unshared**: it was taken for its place, its operands were folded, and that
    was all. -/
theorem unshared_of_left {f : Operator} {us : List Term} (ih : ∀ u ∈ t.operands, Unshares apply u)
    (hb : s.Balanced loose) (ha : s.Anchored loose p) (hp : s.at? p = some v) (ht : s.Unfolds v t)
    (hf : t.payload = .op f) (he : t.operands ≠ []) (hall : Term.foldAll apply t.operands = (us, .ok n))
    (hc : Term.constants us = none) {r : Except Fault Nat} (hrun : Runs apply [⟨p, false⟩] s s' r c)
    (hw : s'.at? p = some w) : s'.Unshared w := by
  obtain ⟨w₁, s₁, notes, hsole, hexpand, hedit₁, hw₁, ht₁⟩ := hb.take apply hp ht hf he
  have ha₁ := hedit₁.changes.anchored ha
  obtain ⟨s₂, hedit₂, hrun₂⟩ := foldAll_run (fun u _ => foldsAs u) hedit₁.balanced ha₁ hedit₁.at? hw₁ ht₁
  rw [hall] at hedit₂ hrun₂
  have hready := hedit₂.unfolds.foldStep_ready apply hedit₂.at? rfl
  have hus : (Term.linked (.op f) ([] ++ us)).operands = us := rfl
  rw [hus, hc] at hready
  obtain ⟨rfl, -⟩ := (Runs.step hexpand (hrun₂.append (.step hready (.nil s₂)))).unique hrun
  obtain rfl := Option.some.inj (hedit₂.at?.symm.trans hw)
  obtain ⟨x₁, hx₁⟩ := ht₁.exists_vertex
  obtain ⟨x₂, hx₂⟩ := hedit₂.unfolds.exists_vertex
  have hone := owners_operands_run ht₁ hx₁ (owners_makeSole hsole hx₁) hx₂ hrun₂
  refine unshared_of_operands hx₂ hone ?_
  exact unshared_operands ih hedit₁.balanced ha₁ hedit₁.at? hw₁ ht₁
    (fun i a hi => absurd hi (Nat.not_lt_zero i)) hall hrun₂

/-- **Folding the tree of a place to its end leaves it unshared.** -/
theorem unshares (t : Term) : Unshares apply t := by
  induction t with
  | step t ih =>
    intro s s' loose p v w n c hb ha hp ht hrun hw
    obtain ⟨s₀, w₀, hedit, hrun₀⟩ := foldsAs t hb ha hp ht
    obtain ⟨rfl, hok⟩ := hrun₀.unique hrun
    obtain rfl := Option.some.inj (hedit.at?.symm.trans hw)
    obtain ⟨y, hy⟩ := hedit.unfolds.exists_vertex
    have hpay := (hedit.unfolds.children hy).1
    cases hf : t.payload with
    | var name | const a =>
      have hleaf : t.payload.isOperator = false := by rw [hf]; rfl
      rw [Term.fold_of_leaf hleaf] at hpay
      exact unshared_of_leaf hy (hpay ▸ hleaf)
    | op f =>
      by_cases he : t.operands = []
      · rw [Term.fold_of_no_operands hf he] at hok
        cases hok
      cases hall : Term.foldAll apply t.operands with
      | mk us r =>
        cases r with
        | error e =>
          rw [Term.fold_of_error hf he hall] at hok
          cases hok
        | ok m =>
          rw [Term.fold_of_ok hf he hall] at hok hpay
          cases hc : Term.constants us with
          | some args =>
            -- a constant is left, which uses nothing
            cases hr : apply f args with
            | error e =>
              rw [Term.collapse_of_error hc hr] at hok
              cases hok
            | ok a =>
              rw [Term.collapse_of_ok hc hr] at hpay
              exact unshared_of_leaf hy (by rw [hpay]; rfl)
          | none =>
            have ih' : ∀ u ∈ t.operands, Unshares apply u :=
              fun u hu => ih u (Term.mem_children_of_mem_operands hu)
            exact unshared_of_left ih' hb ha hp ht hf he hall hc hrun hw

end Store

end ExprGraph

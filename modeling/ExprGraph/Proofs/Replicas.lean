import ExprGraph.Proofs.Steps
import ExprGraph.Proofs.ValueSemantics
import Mathlib.Data.Set.Function
/-!
  A deep copy is another graph of the same shape.

  Main statement: the copy of a tree has one new vertex for each vertex below the root, with links and sharing
  as they were, and nothing else in the store changes (`Store.clone_replicates`).

    * spec       a bijection between what lies below the two roots, and what it keeps (`Replica`);
    * state      the table of copies made so far, and the store with the copies in it;
    * invariant  the vertices copied so far have copies of their own, linked as they are and owned by each
                 other's links alone (`Replicating`);
    * step       the copy of one vertex, whose children have copies (`Replicating.step`).

  `Copied` says what the copy means, as a term; this module says how it lies in the store.
-/

namespace ExprGraph

/-! ## Copied payloads -/

namespace Payload

/-- **What a copied payload has in common with the old one**: everything, but for functions that are not their
    own copies. -/
structure Keeps (p q : Payload) : Prop where
  kind : q.kind = p.kind
  display : q.display = p.display
  value : q.value? = p.value?
  operator : ∀ f, p = .op f → ∃ g, q = .op { f with function := g }
  plain : p.nextCopy = 0 → q = p

theorem deepCopy_of_plain {p : Payload} (fresh : Nat) (h : p.nextCopy = 0) : p.deepCopy fresh = p := by
  cases p with
  | op f =>
    obtain ⟨function, name, arity, symbol, counterpart⟩ := f
    cases function with
    | partialSum copy => cases h
    | _ => rfl
  | var name => rfl
  | const v => rfl

theorem keeps_deepCopy (p : Payload) (fresh : Nat) : p.Keeps (p.deepCopy fresh) where
  kind := by cases p <;> rfl
  display := by cases p <;> rfl
  value := by cases p <;> rfl
  operator := by
    rintro f rfl
    exact ⟨_, rfl⟩
  plain := deepCopy_of_plain fresh

end Payload

namespace Store

variable {s s' : Store} {h : Handle} {v w : VertexId} {x : Vertex} {fresh : Nat} {vs : List VertexId}
  {copies : Array (Option VertexId)}

/-- **A replica of a tree**, beside everything else that was in the store.  The list has the vertices of the tree,
    and the function says which vertex is the copy of which. -/
structure Replica (s s' : Store) (v : VertexId) (us : List VertexId) (copy : VertexId → VertexId) : Prop where
  /-- the vertices of the tree, inert children included, each listed once -/
  nodup : us.Nodup
  mem_iff : ∀ u, u ∈ us ↔ s.Reaches v u
  /-- their copies are the vertices below the copy of the root -/
  bijective : Set.BijOn copy {u | s.Reaches v u} {a | s'.Reaches (copy v) a}
  /-- each vertex was copied once, into a number not in use before -/
  size : s'.vertices.size = s.vertices.size + us.length
  fresh : ∀ u ∈ us, s.vertices.size ≤ copy u
  /-- no vertex lies below both roots -/
  disjoint : ∀ a, s'.Reaches v a → ¬ s'.Reaches (copy v) a
  /-- a copy has the payload, the links and, within the copy, the owners -/
  vertex : ∀ u x, s.Reaches v u → s.vertex? u = some x → ∃ y, s'.vertex? (copy u) = some y
    ∧ y.payload = x.payload.deepCopy s.nextCopy ∧ x.payload.Keeps y.payload
    ∧ y.links = x.links.map (List.map copy)
    ∧ y.owners = ((us.map copy).flatMap s'.children).count (copy u) + if u = v then 1 else 0
  /-- the old vertices are as they were, owners and all -/
  old : ∀ u < s.vertices.size, s'.vertex? u = s.vertex? u

/-! ## One copy -/

/-- The copy a table has of a vertex. -/
def copyIn (copies : Array (Option VertexId)) (u : VertexId) : VertexId := (copies[u]?.join).getD u

theorem copyIn_set (hlt : v < copies.size) (u : VertexId) :
    copyIn (copies.setIfInBounds v (some w)) u = if u = v then w else copyIn copies u := by
  unfold copyIn
  rw [Array.getElem?_setIfInBounds]
  by_cases huv : u = v
  · rw [if_pos huv, if_pos huv.symm, if_pos hlt]
    rfl
  · rw [if_neg huv, if_neg fun e => huv e.symm]

theorem copyIn_set_self (hlt : v < copies.size) : copyIn (copies.setIfInBounds v (some w)) v = w := by
  rw [copyIn_set hlt, if_pos rfl]

/-- What copying one vertex does: the copies of its children get owners, and the new vertex has none yet. -/
theorem cloneVertex_eq (hx : s.vertex? v = some x) :
    cloneVertex fresh (copies, s) v = (copies.setIfInBounds v (some s.vertices.size),
      ((s.addOwners (x.children.map (copyIn copies))).insert
        ⟨x.payload.deepCopy fresh, x.links.map (List.map (copyIn copies)), 0⟩).2) := by
  have hlinks : (x.links.map (List.map (copyIn copies))).getD [] = x.children.map (copyIn copies) := by
    unfold Vertex.children
    cases x.links <;> rfl
  rw [← hlinks]
  simp only [cloneVertex, hx]
  rw [fst_insert, size_addOwners]
  rfl

/-- The copies that the links of some copies lead to, each as often as they do. -/
def copiedLinks (s : Store) (copies : Array (Option VertexId)) (vs : List VertexId) : List VertexId :=
  vs.flatMap fun a => (s.children a).map (copyIn copies)

/-- **What holds after some vertices were copied.** -/
structure Replicating (s : Store) (fresh : Nat) (vs : List VertexId) (copies : Array (Option VertexId))
    (s' : Store) : Prop where
  table : copies.size = s.vertices.size
  size : s'.vertices.size = s.vertices.size + vs.length
  handles : s'.handles = s.handles
  old : ∀ u < s.vertices.size, s'.vertex? u = s.vertex? u
  range : ∀ u ∈ vs, s.vertices.size ≤ copyIn copies u ∧ copyIn copies u < s'.vertices.size
  injective : ∀ u ∈ vs, ∀ w ∈ vs, copyIn copies u = copyIn copies w → u = w
  vertex : ∀ u ∈ vs, ∀ x, s.vertex? u = some x → s'.vertex? (copyIn copies u)
    = some ⟨x.payload.deepCopy fresh, x.links.map (List.map (copyIn copies)),
      (s.copiedLinks copies vs).count (copyIn copies u)⟩

theorem replicating_nil (s : Store) (fresh : Nat) :
    Replicating s fresh [] (Array.replicate s.vertices.size none) s where
  table := Array.size_replicate
  size := rfl
  handles := rfl
  old _ _ := rfl
  range _ hu := absurd hu List.not_mem_nil
  injective _ hu := absurd hu List.not_mem_nil
  vertex _ hu := absurd hu List.not_mem_nil

/-- Vertices that gain no owner stay as they are. -/
theorem vertex?_addOwners_of_not_mem (hw : w ∉ vs) : (s.addOwners vs).vertex? w = s.vertex? w := by
  rw [vertex?_addOwners, List.count_eq_zero.mpr hw]
  cases s.vertex? w <;> rfl

/-- A copy in the table stays there when another vertex is copied. -/
theorem copyIn_set_of_mem {u : VertexId} (hlt : v < copies.size) (hv : v ∉ vs) (hu : u ∈ vs) :
    copyIn (copies.setIfInBounds v (some w)) u = copyIn copies u := by
  have hne : u ≠ v := fun e => hv (e ▸ hu)
  rw [copyIn_set hlt, if_neg hne]

/-- The links of one more copy come in front of those there are. -/
theorem copiedLinks_set (hf : s.ChildrenFirst vs) (hx : s.vertex? v = some x)
    (hmem : ∀ w ∈ x.children, w ∈ vs) (hv : v ∉ vs) (hlt : v < copies.size) (w : VertexId) :
    s.copiedLinks (copies.setIfInBounds v (some w)) (v :: vs)
      = x.children.map (copyIn copies) ++ s.copiedLinks copies vs := by
  rw [copiedLinks, List.flatMap_cons, children_of_vertex? hx]
  congr 1
  · exact List.map_congr_left fun u hu => copyIn_set_of_mem hlt hv (hmem u hu)
  · refine List.flatMap_congr fun a ha => ?_
    exact List.map_congr_left fun u hu => copyIn_set_of_mem hlt hv (hf.child ha hu)

/-- Links to vertices copied before are copied as they were. -/
theorem map_copyIn_set {y : Vertex} (hmem : ∀ u ∈ y.children, u ∈ vs) (hlt : v < copies.size) (hv : v ∉ vs)
    (w : VertexId) : y.links.map (List.map (copyIn (copies.setIfInBounds v (some w))))
      = y.links.map (List.map (copyIn copies)) := by
  refine Option.map_congr fun ws hws => List.map_congr_left fun u hu => copyIn_set_of_mem hlt hv (hmem u ?_)
  rw [Vertex.children, hws]
  exact hu

/-- Links lead to copies alone. -/
theorem Replicating.link_range (hr : Replicating s fresh vs copies s') (hf : s.ChildrenFirst vs)
    {ws : List VertexId} (hmem : ∀ w ∈ ws, w ∈ vs) {a : VertexId}
    (ha : a ∈ ws.map (copyIn copies) ++ s.copiedLinks copies vs) :
    s.vertices.size ≤ a ∧ a < s'.vertices.size := by
  rcases List.mem_append.mp ha with ha | ha
  · obtain ⟨u, hu, rfl⟩ := List.mem_map.mp ha
    exact hr.range u (hmem u hu)
  · obtain ⟨b, hb, ha⟩ := List.mem_flatMap.mp ha
    obtain ⟨u, hu, rfl⟩ := List.mem_map.mp ha
    exact hr.range u (hf.child hb hu)

/-- The new copy is none of the earlier ones. -/
theorem Replicating.injective_set (hr : Replicating s fresh vs copies s') (hlt : v < copies.size) (hv : v ∉ vs) :
    ∀ u ∈ v :: vs, ∀ w ∈ v :: vs, copyIn (copies.setIfInBounds v (some s'.vertices.size)) u
      = copyIn (copies.setIfInBounds v (some s'.vertices.size)) w → u = w := by
  have hother : ∀ u ∈ vs, copyIn (copies.setIfInBounds v (some s'.vertices.size)) u ≠ s'.vertices.size := by
    intro u hu
    rw [copyIn_set_of_mem hlt hv hu]
    exact Nat.ne_of_lt (hr.range u hu).2
  intro u hu w hw heq
  rcases List.mem_cons.mp hu with rfl | hin <;> rcases List.mem_cons.mp hw with rfl | hin'
  · rfl
  · exact absurd (heq.symm.trans (copyIn_set_self hlt)) (hother w hin')
  · exact absurd (heq.trans (copyIn_set_self hlt)) (hother u hin)
  · rw [copyIn_set_of_mem hlt hv hin, copyIn_set_of_mem hlt hv hin'] at heq
    exact hr.injective u hin w hin' heq

/-- **One vertex is copied**, after its children. -/
theorem Replicating.step (hr : Replicating s fresh vs copies s') (hf : s.ChildrenFirst vs)
    (hx : s.vertex? v = some x) (hmem : ∀ w ∈ x.children, w ∈ vs) (hv : v ∉ vs) :
    Replicating s fresh (v :: vs) (cloneVertex fresh (copies, s') v).1
      (cloneVertex fresh (copies, s') v).2 := by
  have hvlt := lt_size_of_vertex? hx
  have hlt : v < copies.size := hr.table ▸ hvlt
  have hsize := hr.size
  rw [cloneVertex_eq ((hr.old v hvlt).trans hx)]
  constructor
  case table => rw [Array.size_setIfInBounds, hr.table]
  case size =>
    rw [size_insert, size_addOwners, hr.size, List.length_cons]
    omega
  case handles => rw [handles_insert, handles_addOwners, hr.handles]
  case injective => exact hr.injective_set hlt hv
  case old =>
    intro u hu
    have hne : u ≠ (s'.addOwners (x.children.map (copyIn copies))).vertices.size := by
      rw [size_addOwners]
      omega
    have hnot : u ∉ x.children.map (copyIn copies) := fun hu' =>
      Nat.not_le_of_lt hu (hr.link_range hf hmem (List.mem_append_left _ hu')).1
    rw [vertex?_insert, if_neg hne, vertex?_addOwners_of_not_mem hnot, hr.old u hu]
  case range =>
    intro u hu
    rw [size_insert, size_addOwners]
    rcases List.mem_cons.mp hu with rfl | hu
    · rw [copyIn_set_self hlt]
      exact ⟨by omega, Nat.lt_succ_self _⟩
    · rw [copyIn_set_of_mem hlt hv hu]
      exact ⟨(hr.range u hu).1, Nat.lt_succ_of_lt (hr.range u hu).2⟩
  case vertex =>
    intro u hu y hy
    rw [copiedLinks_set hf hx hmem hv hlt]
    rcases List.mem_cons.mp hu with rfl | hu
    · -- nothing leads to the new copy yet
      obtain rfl := Option.some.inj (hx.symm.trans hy)
      have hone : s'.vertices.size ∉ x.children.map (copyIn copies) ++ s.copiedLinks copies vs :=
        fun ha => Nat.lt_irrefl _ (hr.link_range hf hmem ha).2
      rw [copyIn_set_self hlt, map_copyIn_set hmem hlt hv, List.count_eq_zero.mpr hone, vertex?_insert, if_pos]
      exact (size_addOwners _ _).symm
    · -- an earlier copy gains the links of the new one
      have hmem' : ∀ a ∈ y.children, a ∈ vs := by
        rw [← children_of_vertex? hy]
        exact fun a ha => hf.child hu ha
      have hne : copyIn copies u ≠ (s'.addOwners (x.children.map (copyIn copies))).vertices.size := by
        rw [size_addOwners]
        exact Nat.ne_of_lt (hr.range u hu).2
      rw [copyIn_set_of_mem hlt hv hu, map_copyIn_set hmem' hlt hv, vertex?_insert, if_neg hne,
        vertex?_addOwners, hr.vertex u hu y hy, List.count_append, Nat.add_comm]
      rfl

/-- **All vertices of a list with children first are copied.** -/
theorem ChildrenFirst.replicating (hf : s.ChildrenFirst vs) (fresh : Nat) :
    Replicating s fresh vs
      (vs.reverse.foldl (cloneVertex fresh) (Array.replicate s.vertices.size none, s)).1
      (vs.reverse.foldl (cloneVertex fresh) (Array.replicate s.vertices.size none, s)).2 := by
  induction hf with
  | nil => exact replicating_nil s fresh
  | cons hx hc hv hf ih =>
    rw [List.reverse_cons, List.foldl_append]
    exact ih.step hf hx hc hv

theorem ChildrenFirst.nodup (hf : s.ChildrenFirst vs) : vs.Nodup := by
  induction hf with
  | nil => exact .nil
  | cons _ _ hv _ ih => exact ih.cons hv

/-! ## The copy of a tree -/

section Bound

variable {us : List VertexId}

/-- A vertex with the copied links leads to the copies of the children. -/
theorem children_copy {u : VertexId} {y z : Vertex} {copy : VertexId → VertexId} (hy : s.vertex? u = some y)
    (hz : s'.vertex? (copy u) = some z) (hlinks : z.links = y.links.map (List.map copy)) :
    s'.children (copy u) = (s.children u).map copy := by
  rw [children_of_vertex? hz, children_of_vertex? hy, Vertex.children, Vertex.children, hlinks]
  cases y.links <;> rfl

/-- **Below the copy of the root lie the copies** of what lies below the root. -/
theorem reaches_copy_iff {copy : VertexId → VertexId}
    (hchildren : ∀ u, s.Reaches v u → s'.children (copy u) = (s.children u).map copy) {a : VertexId} :
    s'.Reaches (copy v) a ↔ ∃ u, s.Reaches v u ∧ copy u = a := by
  constructor
  · intro hr
    induction hr with
    | refl => exact ⟨v, .refl, rfl⟩
    | tail _ hc ih =>
      obtain ⟨u, hu, rfl⟩ := ih
      rw [hchildren u hu] at hc
      obtain ⟨w, hw, rfl⟩ := List.mem_map.mp hc
      exact ⟨w, hu.tail hw, rfl⟩
  · rintro ⟨u, hu, rfl⟩
    induction hu with
    | refl => exact .refl
    | @tail u w hu hw ih =>
      refine ih.tail ?_
      rw [hchildren u hu]
      exact List.mem_map_of_mem hw

/-- What lies below a vertex stays below it when the vertices there are as they were. -/
theorem reaches_of_old (hlive : ∀ u, s.Reaches v u → ∃ y, s.vertex? u = some y)
    (hold : ∀ u < s.vertices.size, s'.vertex? u = s.vertex? u) {a : VertexId} (ha : s'.Reaches v a) :
    s.Reaches v a := by
  induction ha with
  | refl => exact .refl
  | @tail b c _ hc ih =>
    obtain ⟨y, hy⟩ := hlive b ih
    refine ih.tail ?_
    rwa [children_of_vertex? ((hold b (lt_size_of_vertex? hy)).trans hy), ← children_of_vertex? hy] at hc

/-- The old vertices do not notice that the copy of the root gets a handle. -/
theorem Replicating.old_bind (hr : Replicating s fresh vs copies s') (hv : v ∈ vs) :
    ∀ u < s.vertices.size, (s'.bind (copyIn copies v)).2.vertex? u = s.vertex? u := by
  intro u hu
  have hne : copyIn copies v ≠ u := Nat.ne_of_gt (Nat.lt_of_lt_of_le hu (hr.range v hv).1)
  rw [vertex?_bind, vertex?_addOwner, hr.old u hu, if_neg hne]
  cases s.vertex? u <;> rfl

/-- The copies, when the copy of the root has its handle. -/
theorem Replicating.vertex_bind (hr : Replicating s fresh vs copies s') (hv : v ∈ vs) {u : VertexId} {y : Vertex}
    (hu : u ∈ vs) (hy : s.vertex? u = some y) :
    (s'.bind (copyIn copies v)).2.vertex? (copyIn copies u)
      = some ⟨y.payload.deepCopy fresh, y.links.map (List.map (copyIn copies)),
        (s.copiedLinks copies vs).count (copyIn copies u) + if u = v then 1 else 0⟩ := by
  have hone : (copyIn copies v = copyIn copies u) ↔ u = v :=
    ⟨fun h => hr.injective u hu v hv h.symm, fun h => by rw [h]⟩
  rw [vertex?_bind, vertex?_addOwner, hr.vertex u hu y hy]
  simp only [hone, Option.map_some]

/-- **All vertices of a tree are copied**, and the copy of the root gets a handle: a replica. -/
theorem Replicating.replica (hr : Replicating s s.nextCopy us.reverse copies s') (hnodup : us.Nodup)
    (hmem : ∀ u, u ∈ us ↔ s.Reaches v u) (hlive : ∀ u, s.Reaches v u → ∃ y, s.vertex? u = some y) :
    s.Replica (s'.bind (copyIn copies v)).2 v us (copyIn copies) := by
  have hin : ∀ u, s.Reaches v u → u ∈ us.reverse := fun u hu => List.mem_reverse.mpr ((hmem u).mpr hu)
  have hroot : v ∈ us.reverse := hin v .refl
  have hold := hr.old_bind hroot
  have hchildren : ∀ u, s.Reaches v u →
      (s'.bind (copyIn copies v)).2.children (copyIn copies u) = (s.children u).map (copyIn copies) := by
    intro u hu
    obtain ⟨y, hy⟩ := hlive u hu
    exact children_copy hy (hr.vertex_bind hroot (hin u hu) hy) rfl
  constructor
  case nodup => exact hnodup
  case mem_iff => exact hmem
  case bijective =>
    refine ⟨fun u hu => ?_, fun u hu w hw heq => ?_, fun a ha => ?_⟩
    · exact (reaches_copy_iff hchildren).mpr ⟨u, hu, rfl⟩
    · exact hr.injective u (hin u hu) w (hin w hw) heq
    · exact (reaches_copy_iff hchildren).mp ha
  case size =>
    show (s'.addOwner _).vertices.size = _
    rw [size_addOwner, hr.size, List.length_reverse]
  case fresh => exact fun u hu => (hr.range u (List.mem_reverse.mpr hu)).1
  case disjoint =>
    -- what lies below the old root is old, and copies are new
    intro a ha hcopy
    obtain ⟨y, hy⟩ := hlive a (reaches_of_old hlive hold ha)
    obtain ⟨u, hu, rfl⟩ := (reaches_copy_iff hchildren).mp hcopy
    exact Nat.not_le_of_lt (lt_size_of_vertex? hy) (hr.range u (hin u hu)).1
  case vertex =>
    intro u y hu hy
    refine ⟨_, hr.vertex_bind hroot (hin u hu) hy, rfl, Payload.keeps_deepCopy _ _, rfl, ?_⟩
    -- the links counted are those of the copies
    have hlinks : (us.map (copyIn copies)).flatMap (s'.bind (copyIn copies v)).2.children
        = s.copiedLinks copies us := by
      rw [List.flatMap_map, copiedLinks]
      exact List.flatMap_congr fun a ha => hchildren a ((hmem a).mp ha)
    have hperm : (s.copiedLinks copies us.reverse).Perm (s.copiedLinks copies us) :=
      us.reverse_perm.flatMap_right _
    rw [hlinks, hperm.count_eq]
  case old => exact hold

end Bound

/-- **A deep copy is a graph of the same shape, of its own.**  In a closed store without circles, copying the
    tree of a handle gives a new handle, bound to the root of a replica of the tree; all other handles are bound
    as before. -/
theorem clone_replicates (hc : s.Closed) (ha : s.Acyclic) (hh : s.target? h = some v) :
    ∃ s' us copy, s.clone h = .ok (s.handles.size, s') ∧ s'.target? s.handles.size = some (copy v)
      ∧ (∀ g, g ≠ s.handles.size → s'.target? g = s.target? g) ∧ s.Replica s' v us copy := by
  obtain ⟨x, hx⟩ := hc.handle h v hh
  obtain ⟨t, ht⟩ := hc.exists_unfolds ha hx
  obtain ⟨hfirst, hroot⟩ := ht.childrenFirst_finished
  have hr := hfirst.replicating s.nextCopy
  rw [List.reverse_reverse] at hr
  generalize hfold : (s.finished [v]).foldl (cloneVertex s.nextCopy)
    (Array.replicate s.vertices.size none, s) = state at hr
  obtain ⟨copies, s'⟩ := state
  have hclone : s.clone h = .ok (s'.bind (copyIn copies v)) := by
    unfold clone
    rw [root_of_target? hh hx]
    show Except.ok (Store.bind _ _) = _
    rw [hfold]
    rfl
  have hmem : ∀ u, u ∈ s.finished [v] ↔ s.Reaches v u := by
    intro u
    refine ⟨reaches_of_mem_finished, fun hu => ?_⟩
    exact List.mem_reverse.mp (hfirst.reaches (List.mem_reverse.mpr hroot) hu)
  have hlive : ∀ u, s.Reaches v u → ∃ y, s.vertex? u = some y := by
    intro u hu
    obtain ⟨c, hcu, -⟩ := ht.of_reaches hu
    exact hcu.exists_vertex
  refine ⟨_, _, copyIn copies, hclone.trans ?_, ?_, fun g hg => ?_,
    hr.replica (List.nodup_reverse.mp hfirst.nodup) hmem hlive⟩
  · rw [← hr.handles]
    rfl
  · rw [target?_bind, hr.handles, if_pos rfl]
  · rw [target?_bind, hr.handles, if_neg hg, target?, hr.handles, target?]

end Store

namespace Session

/-- The sum `negate(x) + f() + negate(x) + 2 + 3`, under handle 5.  The negation is one vertex; `f` has never been
    linked, 2 to nothing, and 3 to a child that is not an operand. -/
def formsOfLinks : List Operation :=
  [.variableLeaf (some "x") none, .linked (.const (.integer 2)) (some []),
   .linked (.op ⟨.add, "f", none, none, none⟩) none, .linked (.const (.integer 3)) (some [0]),
   .linked (.op ⟨.negate, "negate", none, some "-", none⟩) (some [0]),
   .linked (.op ⟨.add, "add", none, some "+", some .add⟩) (some [4, 2, 4, 1, 3])]

theorem reaches_formsOfLinks (u : VertexId) :
    (run Operator.apply formsOfLinks).store.Reaches 5 u ↔ u ∈ List.range 6 := by
  have hchild : ∀ w ∈ [4, 2, 4, 1, 3], (run Operator.apply formsOfLinks).store.Reaches 5 w := fun w hw =>
    .single hw
  constructor
  · intro hu
    rcases hu.cases_tail with rfl | ⟨w, -, hw⟩
    · decide
    · obtain ⟨y, hy⟩ := (balanced_run Operator.apply formsOfLinks).closed.link w u hw
      exact List.mem_range.mpr (Store.lt_size_of_vertex? hy)
  · intro hu
    have hcases : ∀ w ∈ List.range 6, w = 0 ∨ w ∈ [4, 2, 4, 1, 3] ∨ w = 5 := by decide
    rcases hcases u hu with rfl | hu | rfl
    · exact (hchild 4 (by decide)).tail (show 0 ∈ [0] by decide)
    · exact hchild u hu
    · exact .refl

/-- Six vertices are copied for seven occurrences and one child without effect. -/
theorem clone_replicates_formsOfLinks :
    (run Operator.apply formsOfLinks).store.Closed ∧ (run Operator.apply formsOfLinks).store.Acyclic
      ∧ (run Operator.apply formsOfLinks).store.target? 5 = some 5
      ∧ ∃ s' us copy, (run Operator.apply formsOfLinks).store.clone 5 = .ok (6, s')
        ∧ (run Operator.apply formsOfLinks).store.Replica s' 5 us copy ∧ us.length = 6
        ∧ s'.vertices.size = 12 := by
  have hb := balanced_run Operator.apply formsOfLinks
  have hh : (run Operator.apply formsOfLinks).store.target? 5 = some 5 := rfl
  obtain ⟨s', us, copy, hclone, -, -, hreplica⟩ := Store.clone_replicates hb.closed hb.acyclic hh
  have hmem : ∀ u, u ∈ us ↔ u ∈ List.range 6 := fun u => (hreplica.mem_iff u).trans (reaches_formsOfLinks u)
  have hlen : us.length = 6 :=
    ((List.perm_ext_iff_of_nodup hreplica.nodup List.nodup_range).mpr hmem).length_eq
  have hsize : s'.vertices.size = 6 + us.length := hreplica.size
  exact ⟨hb.closed, hb.acyclic, hh, s', us, copy, hclone, hreplica, hlen, by omega⟩

end Session

end ExprGraph

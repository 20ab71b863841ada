import ExprGraph.Proofs.BottomUp
import ExprGraph.Proofs.Unsharing
/-!
  Folding twice.

  Main statement: when folding the tree of a handle comes to its end, every operator left in the tree has
  exactly one owner and a variable below it, and folding the tree again changes nothing at all
  (`Session.fold_again`).

    * term       an operator that is left has operands, and they are not all constants (`Term.Settled`);
    * store      an operator that is left has one owner (`Store.Unshared`);
    * run        over such a tree folding goes on without a change or a remark (`Store.idle_of_settled`).
-/

namespace ExprGraph

/-! ## Folded terms -/

namespace Term

variable {apply : Operator.Interpretation} {t u c : Term}

/-- **Nothing is left to fold**: every operator has operands, not all of them constants. -/
def Settled (t : Term) : Prop :=
  ∀ c ∈ t.postOrder, ∀ f, c.payload = .op f → c.operands ≠ [] ∧ constants c.operands = none

theorem Settled.operand (h : t.Settled) (hu : u ∈ t.operands) : u.Settled :=
  fun c hc => h c (mem_postOrder_of_operand hu hc)

/-- Whatever occurs in a folded term is what something folds to. -/
theorem FoldsTo.occurrence (h : FoldsTo apply t u) (hc : c ∈ u.postOrder) : ∃ b, FoldsTo apply b c := by
  induction t generalizing u with
  | step t ih =>
    rw [postOrder_eq] at hc
    rcases List.mem_append.mp hc with hc | hc
    · obtain ⟨d, hd, hcd⟩ := List.mem_flatMap.mp hc
      cases h with
      | leaf hleaf =>
        rw [operands_of_not_isOperator hleaf] at hd
        cases hd
      | constant => cases hd
      | operator hus _ =>
        obtain ⟨a, ha, had⟩ := Pointwise.exists_left hus hd
        exact ih a ha had hcd
    · obtain rfl := List.mem_singleton.mp hc
      exact ⟨t, h⟩

/-- **A folded term is settled.** -/
theorem FoldsTo.settled (h : FoldsTo apply t u) : u.Settled := by
  intro c hc f hp
  obtain ⟨b, hb⟩ := h.occurrence hc
  cases hb with
  | leaf hleaf =>
    rw [hp] at hleaf
    cases hleaf
  | constant => cases hp
  | operator hus hnone =>
    refine ⟨?_, hnone⟩
    rintro hempty
    rw [show (linked _ _).operands = _ from rfl] at hempty
    subst hempty
    cases hnone

/-- **An operator that is left has a variable below it.** -/
theorem FoldsTo.varNames_ne_nil (h : FoldsTo apply t u) (hc : c ∈ u.postOrder)
    (hop : c.payload.isOperator = true) : c.varNames ≠ [] := by
  obtain ⟨b, hb⟩ := h.occurrence hc
  have hconst := hb.isSome_value?
  obtain ⟨f, hf⟩ := Payload.isOperator_iff.mp hop
  rw [hf] at hconst
  intro hnil
  rw [hnil] at hconst
  cases hconst

end Term

namespace Store

variable {apply : Operator.Interpretation} {s s' : Store} {loose : VertexId → Nat} {p : Place}
  {a v w : VertexId} {x : Vertex} {t : Term} {pend pend' : List Pending} {c c' : Nat}

/-! ## Folding without an effect -/

/-- **Folding the places on top of the stack does nothing**, not even a remark. -/
def Idle (apply : Operator.Interpretation) (pend : List Pending) (s : Store) (steps : Nat) : Prop :=
  ∀ bound work notes folded, foldFrom apply (steps + bound) (pend ++ work) s notes folded
    = foldFrom apply bound work s notes folded

theorem Idle.nil (s : Store) : Idle apply [] s 0 := by
  intro bound work notes folded
  rw [Nat.zero_add]
  rfl

theorem Idle.append (h : Idle apply pend s c) (h' : Idle apply pend' s c') :
    Idle apply (pend ++ pend') s (c + c') := by
  intro bound work notes folded
  rw [List.append_assoc, Nat.add_assoc, h, h']

/-- A step without an effect, then what it puts on the stack. -/
theorem Idle.step {q : Pending} {next : List Pending} (hs : foldStep apply s q = ⟨s, [], 0, .ok next⟩)
    (h : Idle apply next s c) : Idle apply [q] s (c + 1) := by
  intro bound work notes folded
  rw [Nat.add_right_comm, List.singleton_append, foldFrom, hs]
  exact h bound work notes folded

/-- The operands of a vertex from left to right, those that lie between others. -/
theorem idle_operands {payload : Payload} {ts rest : List Term} {n : Nat}
    (ih : ∀ u ∈ ts, ∀ i a, i < n → s.at? (.link v i) = some a → s.Unfolds a u →
      Idle apply [⟨.link v i, false⟩] s u.foldSteps) :
    ∀ {ds : List Term}, ds.length + ts.length ≤ n → s.Unfolds v (.linked payload (ds ++ ts ++ rest)) →
      Idle apply ((List.range' ds.length ts.length).map fun i => ⟨.link v i, false⟩) s
        (ts.map Term.foldSteps).sum := by
  induction ts with
  | nil => exact fun _ _ => .nil s
  | cons t ts ihs =>
    intro ds hn ht
    rw [List.length_cons] at hn
    have ht' : s.Unfolds v (.linked payload ((ds ++ [t]) ++ ts ++ rest)) := by
      rw [List.append_assoc ds]
      exact ht
    have hsplit : ds ++ t :: ts ++ rest = ds ++ t :: (ts ++ rest) := List.append_assoc ds (t :: ts) rest
    rw [hsplit] at ht
    obtain ⟨a, hat, hta⟩ := ht.exists_at?_link
    have hhead := ih t List.mem_cons_self ds.length a (by omega) hat hta
    have hlen : (ds ++ [t]).length = ds.length + 1 := List.length_append
    have htail := ihs (fun u hu => ih u (List.mem_cons_of_mem t hu)) (by omega) ht'
    rw [hlen] at htail
    rw [List.length_cons, List.range'_succ, List.map_cons, List.map_cons, List.sum_cons]
    exact hhead.append htail

/-- **Over a settled tree without sharing folding does nothing.** -/
theorem idle_of_settled (hp : s.at? p = some v) (ht : s.Unfolds v t) (hset : t.Settled)
    (hun : s.Unshared v) : Idle apply [⟨p, false⟩] s t.foldSteps := by
  induction t generalizing p v with
  | step t ih =>
    obtain ⟨x, hx⟩ := ht.exists_vertex
    have hpay := (ht.children hx).1
    rw [Term.foldSteps_eq]
    cases hf : t.payload with
    | var name | const b =>
      have hleaf : t.payload.isOperator = false := by rw [hf]; rfl
      rw [Term.operands_of_not_isOperator hleaf]
      exact .step (foldStep_leaf hp hx (hpay ▸ hleaf)) (.nil s)
    | op f =>
      obtain ⟨hne, hnone⟩ := hset t t.self_mem_postOrder f hf
      have hfx : x.payload = .op f := hpay.trans hf
      have hone := hun v x .refl hx (by rw [hfx]; rfl)
      -- the vertex has one owner, so it is taken as it is
      have hexpand := ht.foldStep_expand apply hp hf hne
      rw [expand, makeSole_of_le hp hx hone, List.range_eq_range'] at hexpand
      have hready := ht.foldStep_ready apply hp hf
      rw [hnone] at hready
      have hterm : s.Unfolds v (.linked (.op f) ([] ++ t.operands ++ [])) := by
        rw [List.append_nil]
        exact Term.eq_linked hf hne ▸ ht
      have hlen : ([] : List Term).length + t.operands.length ≤ t.operands.length :=
        Nat.le_of_eq (Nat.zero_add _)
      refine .step hexpand (.append (idle_operands (fun u hu i a _ hat hau => ?_) hlen hterm)
        (.step hready (.nil s)))
      have hmem : a ∈ s.operands v := by
        rw [operands_of_vertex? hx, Vertex.operands_eq, if_pos (by rw [hfx]; rfl), ← children_of_vertex? hx]
        exact mem_children_of_at? hat
      refine ih u (Term.mem_children_of_mem_operands hu) hat hau (hset.operand hu) ?_
      intro b y hab
      exact hun b y (.head hmem hab)

/-- **Folding a settled tree without sharing** leaves the store, remarks nothing and folds nothing. -/
theorem foldWith_of_settled {h : Handle} (hh : s.target? h = some v) (ht : s.Unfolds v t)
    (hset : t.Settled) (hun : s.Unshared v) : s.foldWith apply h = ⟨s, [], .ok 0⟩ := by
  have hidle : Idle apply [⟨.handle h, false⟩] s t.foldSteps := idle_of_settled hh ht hset hun
  obtain ⟨k, hk⟩ := Nat.exists_eq_add_of_le ht.foldSteps_le
  have hfold := hidle k [] [] 0
  rw [← hk, List.append_nil] at hfold
  rw [Store.foldWith, hfold]
  cases k <;> rfl

/-! ## What is left -/

/-- A vertex used by what a place is bound to is bound to a place. -/
theorem bound_pos_of_uses (hp : s.at? p = some v) (ha : s.Uses v a) : 0 < s.bound a := by
  rcases Relation.ReflTransGen.cases_tail ha with rfl | ⟨u, -, hmem⟩
  · exact bound_pos hp
  · obtain ⟨i, hi⟩ := exists_at?_of_mem_operands hmem
    exact bound_pos hi

/-- A vertex whose term has a variable uses one. -/
theorem Unfolds.exists_variable (ht : s.Unfolds v t) (hne : t.varNames ≠ []) :
    ∃ b y name, s.Uses v b ∧ s.vertex? b = some y ∧ y.payload = .var name := by
  obtain ⟨name, hname⟩ := List.exists_mem_of_ne_nil _ hne
  obtain ⟨d, hd, hp⟩ := Term.mem_varNames_iff.mp hname
  obtain ⟨b, hb, hbd⟩ := ht.exists_uses hd
  obtain ⟨y, hy⟩ := hbd.exists_vertex
  exact ⟨b, y, name, hb, hy, (hbd.children hy).1.trans hp⟩

/-- **Folding to the end**: the tree that is left is folded and unshared. -/
theorem Balanced.foldWith_ok {h : Handle} {n : Nat} (hb : s.Balanced loose) (hh : s.target? h = some v)
    (hn : (s.foldWith apply h).outcome = .ok n) :
    ∃ t u w, Edited s (s.foldWith apply h).store loose (.handle h) w u
      ∧ Term.FoldsTo apply t u ∧ (s.foldWith apply h).store.Unshared w := by
  obtain ⟨t, ht, -⟩ := hb.termAt? hh
  obtain ⟨s', w, hedit, hrun⟩ := foldsAs t hb (s.anchored_handle loose h) hh ht
  obtain ⟨hstore, hout⟩ := hrun.foldWith_eq ht.foldSteps_le
  have hok : (t.fold apply).2 = .ok n := hout.symm.trans hn
  have hto : Term.FoldsTo apply t (t.fold apply).1 := (Term.foldsTo_of_fold (Prod.ext rfl hok)).1
  rw [hok] at hrun
  rw [hstore]
  exact ⟨t, _, w, hedit, hto, unshares t hb (s.anchored_handle loose h) hh ht hrun hedit.at?⟩

end Store

namespace Session

variable {s : Session} {h : Handle} {v : VertexId} {n : Nat}

/-- **Folding is idempotent down to the store**, in a store without circles whose counts are exact.  When it
    comes to its end, each operator that the tree uses has exactly one owner and uses a variable.  Folding the
    tree again folds nothing, remarks no copy, and leaves the vertices with their links and owners, and the
    handles, as they are. -/
theorem fold_again {apply : Operator.Interpretation} (hc : s.store.Closed) (ha : s.store.Acyclic)
    (he : s.store.Exact) (hh : s.store.target? h = some v) {summary : Bool}
    (hn : (s.foldWith apply h summary).1 = .ok n) :
    ∃ s' w, (s.foldWith apply h summary).2 = s' ∧ s'.store.target? h = some w
      ∧ (∀ a x, s'.store.Uses w a → s'.store.vertex? a = some x → x.payload.isOperator = true →
        x.owners = 1 ∧ ∃ b y name, s'.store.Uses a b ∧ s'.store.vertex? b = some y ∧ y.payload = .var name)
      ∧ s'.store.foldWith apply h = ⟨s'.store, [], .ok 0⟩
      ∧ ∀ again : Bool, (s'.foldWith apply h again).1 = .ok 0
        ∧ (s'.foldWith apply h again).2.store = s'.store := by
  have hb := Store.Balanced.of_covered hc ha he.covered
  rw [fst_foldWith] at hn
  obtain ⟨t, u, w, hedit, hto, hun⟩ := hb.foldWith_ok hh hn
  have hstore := store_foldWith apply s h summary
  generalize (s.foldWith apply h summary).2 = s' at hstore
  rw [← hstore] at hedit hun
  have hagain : s'.store.foldWith apply h = ⟨s'.store, [], .ok 0⟩ :=
    Store.foldWith_of_settled hedit.at? hedit.unfolds hto.settled hun
  refine ⟨s', w, rfl, hedit.at?, ?_, hagain, fun again => ?_⟩
  · intro a x hwa hx hop
    obtain ⟨c, hc, hac⟩ := hedit.unfolds.of_uses hwa
    have hopc : c.payload.isOperator = true := (hac.children hx).1 ▸ hop
    refine ⟨?_, hac.exists_variable (hto.varNames_ne_nil hc hopc)⟩
    -- one owner at most, and at least the one it was reached by
    have hle := hun a x hwa hx hop
    have hown := hedit.balanced.owners a x hx
    have hpos := Store.bound_pos_of_uses hedit.at? hwa
    omega
  · rw [fst_foldWith, store_foldWith, hagain]
    exact ⟨rfl, rfl⟩

/-- A second fold of `(2 + 2) * x + (2 + 2)` changes nothing. -/
theorem fold_again_sharedTwice :
    (run Operator.apply sharedTwice).store.Closed ∧ (run Operator.apply sharedTwice).store.Acyclic
      ∧ (run Operator.apply sharedTwice).store.Exact
      ∧ (run Operator.apply sharedTwice).store.target? 4 = some 4
      ∧ ((run Operator.apply sharedTwice).foldWith Operator.apply 4 true).1 = .ok 2
      ∧ ∃ s' : Session, ((run Operator.apply sharedTwice).foldWith Operator.apply 4 true).2 = s'
        ∧ s'.store.foldWith Operator.apply 4 = ⟨s'.store, [], .ok 0⟩ := by
  have hb := balanced_run Operator.apply sharedTwice
  have he : (run Operator.apply sharedTwice).store.Exact := hb.owners
  have hh : (run Operator.apply sharedTwice).store.target? 4 = some 4 := rfl
  obtain ⟨s', w, hs', -, -, hagain, -⟩ := fold_again hb.closed hb.acyclic he hh foldWith_sharedTwice
  exact ⟨hb.closed, hb.acyclic, he, hh, foldWith_sharedTwice, s', hs', hagain⟩

end Session

end ExprGraph

import ExprGraph.Proofs.Idempotence
import ExprGraph.Proofs.Stability
/-!
  Folding round by round.

  Each round of folding pops one place off the stack and may put others on it.  The places are bound to other
  vertices while this goes on, and the vertices get other owners: a copy of a vertex takes hold of children that
  come up later.

  Main statement: in every round the places taken so far lead down from the handle, each to an operand of the
  one before, and each has its vertex to itself; any other place on the stack is a link to an operand of one of
  them; and the rounds are two for each operator that occurs and one for each leaf (`Store.folding_rounds`).

    * state      the store and the stack (`FoldState`);
    * round      one place is popped (`FoldState.round?`);
    * invariant  what lies below a place on the stack, level by level (`Context`), and the place on top
                 (`Working`);
    * measure    the rounds that the entries on the stack will take.

  An edit through the place on top is one through each place below it, so it keeps all levels
  (`Context.edited`); this is what makes the owners of the vertices above it stay as they are.
-/

namespace ExprGraph

namespace Store

/-- The store and the stack of folding. -/
structure FoldState where
  store : Store
  work : List Pending

namespace FoldState

/-- At the beginning there is the handle. -/
def start (s : Store) (h : Handle) : FoldState := ⟨s, [⟨.handle h, false⟩]⟩

/-- **One round of folding**: the top of the stack is popped.  There is none when the stack is empty, and none
    after a failure. -/
def round? (apply : Operator.Interpretation) (k : FoldState) : Option FoldState :=
  match k.work with
  | [] => none
  | q :: work =>
    match foldStep apply k.store q with
    | ⟨s, _, _, .ok next⟩ => some ⟨s, next ++ work⟩
    | ⟨_, _, _, .error _⟩ => none

/-- The state after a number of rounds, if there are so many. -/
def after (apply : Operator.Interpretation) : Nat → FoldState → Option FoldState
  | 0, k => some k
  | n + 1, k => (k.round? apply).bind (after apply n)

end FoldState

variable {apply : Operator.Interpretation} {s s' : Store} {loose : VertexId → Nat} {h : Handle} {p : Place} {q : Pending}
  {a v w : VertexId} {x : Vertex} {t u c : Term} {f : Operator} {ts : List Term} {work : List Pending}
  {k k' : FoldState} {m n i : Nat}

/-! ## Places taken -/

/-- **A place has its vertex to itself.** -/
structure Taken (s : Store) (p : Place) (v : VertexId) : Prop where
  at? : s.at? p = some v
  owners : ∀ x, s.vertex? v = some x → x.owners ≤ 1

/-- A place that has its vertex to itself is the only way to it. -/
theorem Taken.not_held (h : s.Taken p v) (hb : s.Balanced loose) : ¬ s.Held loose {p} v := by
  obtain ⟨x, hx⟩ := hb.at? h.at?
  exact hb.sole_of_owners_le_one h.at? hx (h.owners x hx)

/-- Below what is reached from a vertex there is nothing new. -/
theorem below_subset (hr : s.Reaches v a) : s.below [a] ⊆ s.below [v] := by
  rintro b (⟨r, hm, hb⟩ | hnew)
  · obtain rfl := List.mem_singleton.mp hm
    exact .inl ⟨v, List.mem_cons_self, hr.trans hb⟩
  · exact .inr hnew

/-- **A change below an operand gives its parent no other owner.** -/
theorem Taken.past_operand (h : s.Taken p v) (ht : s.Unfolds v t) (ha : s.at? (.link v i) = some a)
    (hw : Within (s.below [a]) s s') (hp : s'.at? p = some v) : s'.Taken p v where
  at? := hp
  owners y hy := by
    obtain ⟨x, hx⟩ := ht.exists_vertex
    have hout : v ∉ s.below [a] := by
      refine notMem_below hx fun r hr => ?_
      obtain rfl := List.mem_singleton.mp hr
      exact ht.not_reaches_of_child (mem_children_of_at? ha)
    obtain ⟨x, hx, hle⟩ := hw.owners v y hout hy
    exact Nat.le_trans hle (h.owners x hx)

/-! ## Below a place on the stack -/

/-- Some operands of a vertex from left to right, on the stack. -/
def operandsFrom (v : VertexId) (i count : Nat) : List Pending :=
  (List.range' i count).map fun j => ⟨.link v j, false⟩

/-- **What lies below a place on the stack** while the occurrence `c` of the term `t` is folded there, and how many
    rounds it will take. -/
inductive Context (apply : Operator.Interpretation) (h : Handle) (t : Term) (s : Store) :
    Place → Term → List Pending → Nat → Prop where
  /-- below the handle there is nothing -/
  | root : Context apply h t s (.handle h) t [] 0
  /-- below an operand there are those to its right and then its parent, which was taken; the operands to its
      left are folded, and those to its right are as they were -/
  | operand {p : Place} {f : Operator} {done rest us : List Term} {c d : Term} {v : VertexId}
      {work : List Pending} {m : Nat}
      (hbelow : Context apply h t s p (.linked (.op f) (done ++ c :: rest)) work m) (htaken : s.Taken p v)
      (hdone : List.Forall₂ (Term.FoldsTo apply) done us)
      (hv : s.Unfolds v (.linked (.op f) (us ++ d :: rest))) :
      Context apply h t s (.link v us.length) c
        (operandsFrom v (us.length + 1) rest.length ++ ⟨p, true⟩ :: work)
        ((rest.map Term.foldSteps).sum + 1 + m)

/-- The place is reached without itself. -/
theorem Context.anchored (hctx : Context apply h t s p c work m) (hb : s.Balanced loose) :
    s.Anchored loose p := by
  induction hctx with
  | root => exact s.anchored_handle loose h
  | operand _ htaken _ _ ih => exact ih.link htaken.at? (htaken.not_held hb) _

/-- What is folded at the place occurs in the term. -/
theorem Context.occurs (hctx : Context apply h t s p c work m) : c ∈ t.postOrder := by
  induction hctx with
  | root => exact t.self_mem_postOrder
  | @operand _ f done rest _ c _ _ _ _ _ _ _ _ ih =>
    have hmem : c ∈ (Term.linked (.op f) (done ++ c :: rest)).operands :=
      List.mem_append_right _ List.mem_cons_self
    exact Term.mem_postOrder_trans ih (Term.mem_postOrder_of_operand hmem c.self_mem_postOrder)

/-- **An edit through a place keeps what lies below it on the stack.** -/
theorem Context.edited (hctx : Context apply h t s p c work m) (hb : s.Balanced loose)
    (hp : s.at? p = some a) (hedit : Edited s s' loose p w u) (hw : Within (s.below [a]) s s') :
    Context apply h t s' p c work m := by
  -- up the stack: an edit through a link of a vertex is one through the only place that leads to it
  induction hctx generalizing a w u with
  | root => exact .root
  | operand hbelow htaken hdone hv ih =>
    have hsole := htaken.not_held hb
    have hanch := (hbelow.anchored hb).link htaken.at? hsole
    have hat := hedit.at?_parent (hbelow.anchored hb) htaken.at? hsole
    have hv' := hedit.unfolds_parent (hanch _) hv rfl
    have hparent := Edited.mk hedit.balanced (hedit.changes.of_link hsole) hat hv'
    have hreach : s.Reaches _ a := .single (mem_children_of_at? hp)
    exact .operand (ih htaken.at? hparent (hw.mono (below_subset hreach)))
      (htaken.past_operand hv hp hw hat) hdone hv'

/-! ## The place on top -/

/-- **How folding stands**, with the number of rounds to go. -/
inductive Working (apply : Operator.Interpretation) (h : Handle) (t : Term) (s : Store) :
    List Pending → Nat → Prop where
  /-- the term is folded -/
  | finished {w : VertexId} {u : Term} (hw : s.target? h = some w) (hu : s.Unfolds w u)
      (hto : Term.FoldsTo apply t u) : Working apply h t s [] 0
  /-- an occurrence comes up, as it was -/
  | fresh {p : Place} {c : Term} {v : VertexId} {work : List Pending} {m : Nat}
      (hctx : Context apply h t s p c work m) (hp : s.at? p = some v) (hc : s.Unfolds v c) :
      Working apply h t s (⟨p, false⟩ :: work) (c.foldSteps + m)
  /-- an operator comes up again, with its operands folded -/
  | ready {p : Place} {f : Operator} {ts us : List Term} {v : VertexId} {work : List Pending} {m : Nat}
      (hctx : Context apply h t s p (.linked (.op f) ts) work m) (htaken : s.Taken p v) (hne : ts ≠ [])
      (hus : List.Forall₂ (Term.FoldsTo apply) ts us) (hv : s.Unfolds v (.linked (.op f) us)) :
      Working apply h t s (⟨p, true⟩ :: work) (1 + m)

/-- **Once an occurrence is folded**, the next one to the right comes up, or else its parent. -/
theorem Context.finish (hctx : Context apply h t s p c work m) (hp : s.at? p = some w) (hu : s.Unfolds w u)
    (hto : Term.FoldsTo apply c u) : Working apply h t s work m := by
  cases hctx with
  | root => exact .finished hp hu hto
  | @operand p f done rest us _ d v work m hbelow htaken hdone hv =>
    obtain ⟨w', hw', hd⟩ := hv.exists_at?_link
    obtain rfl := Option.some.inj (hw'.symm.trans hp)
    obtain rfl := hd.unique hu
    have hmore : List.Forall₂ (Term.FoldsTo apply) (done ++ [c]) (us ++ [d]) :=
      List.rel_append hdone (.cons hto .nil)
    cases rest with
    | nil => exact .ready hbelow htaken (List.append_ne_nil_of_right_ne_nil _ (List.cons_ne_nil c [])) hmore hv
    | cons e rest =>
      have hsplit : done ++ c :: e :: rest = (done ++ [c]) ++ e :: rest := by simp
      have hsplit' : us ++ d :: e :: rest = (us ++ [d]) ++ e :: rest := by simp
      rw [hsplit] at hbelow
      rw [hsplit'] at hv
      obtain ⟨b, hb, hbe⟩ := hv.exists_at?_link
      have hlen : (us ++ [d]).length = us.length + 1 := List.length_append
      have hnext := Working.fresh (.operand hbelow htaken hmore hv) hb hbe
      rw [hlen] at hnext
      rw [List.map_cons, List.sum_cons, Nat.add_assoc, Nat.add_assoc, ← Nat.add_assoc _ 1 m]
      exact hnext

/-! ## Rounds -/

/-- **What a round comes to**: it fails, or folding stands as it should, with `m` rounds to go. -/
inductive Lands (apply : Operator.Interpretation) (h : Handle) (t : Term) (loose : VertexId → Nat)
    (work : List Pending) (m : Nat) : FoldStep → Prop where
  | fails {s : Store} {notes : List Note} {n : Nat} {e : Fault} :
      Lands apply h t loose work m ⟨s, notes, n, .error e⟩
  | goesOn {s : Store} {notes : List Note} {n : Nat} {next : List Pending} (hb : s.Balanced loose)
      (hw : Working apply h t s (next ++ work) m) : Lands apply h t loose work m ⟨s, notes, n, .ok next⟩

/-- **An operator with operands is taken**, and the first of them comes up. -/
theorem Context.take {e : Term} (hctx : Context apply h t s p (.linked (.op f) (e :: ts)) work m)
    (hb : s.Balanced loose) (hp : s.at? p = some v) (hc : s.Unfolds v (.linked (.op f) (e :: ts))) :
    Lands apply h t loose work (((e :: ts).map Term.foldSteps).sum + 1 + m) (foldStep apply s ⟨p, false⟩) := by
  obtain ⟨w, s', notes, hsole, hstep, hedit, hnot, hw⟩ := hb.take apply hp hc rfl (List.cons_ne_nil e ts)
  have hwithin := (within_makeSole (s.region_below [v]) (leadsInto_below hp)).1
  rw [hsole] at hwithin
  have hctx' := hctx.edited hb hp hedit hwithin
  have htaken : s'.Taken p w := ⟨hedit.at?, fun x hx => owners_makeSole hsole hx⟩
  have hfirst : Context apply h t s' p (.linked (.op f) ([] ++ e :: ts)) work m := hctx'
  obtain ⟨b, hat, hbe⟩ := hw.exists_at?_link
  have hnext := Working.fresh (.operand hfirst htaken .nil hw) hat hbe
  rw [hstep]
  refine .goesOn hedit.balanced ?_
  have hwork : (List.range' 0 (e :: ts).length).map (fun i => (⟨.link w i, false⟩ : Pending)) ++ [⟨p, true⟩] ++ work
      = ⟨.link w 0, false⟩ :: (operandsFrom w 1 ts.length ++ ⟨p, true⟩ :: work) := by
    rw [List.append_assoc]
    rfl
  have hrounds : ((e :: ts).map Term.foldSteps).sum + 1 + m
      = e.foldSteps + ((ts.map Term.foldSteps).sum + 1 + m) := by
    rw [List.map_cons, List.sum_cons]
    omega
  show Working apply h t s' ((List.range' 0 (e :: ts).length).map _ ++ [⟨p, true⟩] ++ work) _
  rw [hwork, hrounds]
  exact hnext

/-- **The round of an occurrence that comes up.** -/
theorem Context.round (hctx : Context apply h t s p c work m) (hb : s.Balanced loose) (hp : s.at? p = some v)
    (hc : s.Unfolds v c) :
    ∃ j, c.foldSteps = j + 1 ∧ Lands apply h t loose work (j + m) (foldStep apply s ⟨p, false⟩) := by
  obtain ⟨x, hx⟩ := hc.exists_vertex
  have hpay := (hc.children hx).1
  cases hf : c.payload with
  | var name | const b =>
    have hleaf : c.payload.isOperator = false := by rw [hf]; rfl
    have hone : c.foldSteps = 1 := by
      rw [Term.foldSteps_eq, Term.operands_of_not_isOperator hleaf, hleaf]
      rfl
    refine ⟨0, hone, ?_⟩
    rw [foldStep_leaf hp hx (hpay ▸ hleaf), Nat.zero_add]
    exact .goesOn hb (hctx.finish hp hc (.leaf hleaf))
  | op f =>
    have htwo : c.foldSteps = (c.operands.map Term.foldSteps).sum + 1 + 1 := by
      rw [Term.foldSteps_eq, hf]
      rfl
    refine ⟨_, htwo, ?_⟩
    cases hops : c.operands with
    | nil =>
      rw [foldStep_empty apply hp hx (hpay.trans hf) ((hc.operands_eq_nil_iff hx).mpr hops)]
      exact .fails
    | cons e ts =>
      have hlinked : c = .linked (.op f) (e :: ts) := by
        have hsome : c.operands ≠ [] := by rw [hops]; exact List.cons_ne_nil e ts
        rw [← hops]
        exact Term.eq_linked hf hsome
      subst hlinked
      exact hctx.take hb hp hc

/-- **The round of an operator whose operands are folded.** -/
theorem Context.collapse {us : List Term} (hctx : Context apply h t s p (.linked (.op f) ts) work m)
    (hb : s.Balanced loose) (htaken : s.Taken p v) (hne : ts ≠ [])
    (hus : List.Forall₂ (Term.FoldsTo apply) ts us) (hv : s.Unfolds v (.linked (.op f) us)) :
    Lands apply h t loose work m (foldStep apply s ⟨p, true⟩) := by
  have hstep := hv.foldStep_ready apply htaken.at? rfl
  have hargs : (Term.linked (.op f) us).operands = us := rfl
  rw [hargs] at hstep
  cases hc : Term.constants us with
  | none =>
    rw [hc] at hstep
    rw [hstep]
    exact .goesOn hb (hctx.finish htaken.at? hv (.operator hus hc))
  | some args =>
    rw [hc] at hstep
    simp only [Store.collapse] at hstep
    cases hr : apply f args with
    | error e =>
      rw [hr] at hstep
      rw [hstep]
      exact .fails
    | ok r =>
      rw [hr] at hstep
      obtain ⟨w, hedit⟩ := hb.replace (.const r) (hctx.anchored hb) htaken.at?
      have hwithin := within_replace (.const r) (s.region_below [v]) (leadsInto_below htaken.at?)
      have hctx' := hctx.edited hb htaken.at? hedit hwithin
      rw [hstep]
      exact .goesOn hedit.balanced (hctx'.finish hedit.at? hedit.unfolds (.constant hne hus hc hr))

/-- **One round** fails or leaves one less to go. -/
theorem Working.round (hw : Working apply h t s (q :: work) m) (hb : s.Balanced loose) :
    ∃ j, m = j + 1 ∧ Lands apply h t loose work j (foldStep apply s q) := by
  cases hw with
  | fresh hctx hp hc =>
    obtain ⟨j, hj, hlands⟩ := hctx.round hb hp hc
    exact ⟨_, by rw [hj, Nat.add_right_comm], hlands⟩
  | ready hctx htaken hne hus hv => exact ⟨_, Nat.add_comm 1 _, hctx.collapse hb htaken hne hus hv⟩

/-- **After some rounds** folding stands as it should, and there are so many less to go. -/
theorem Working.after (hw : Working apply h t k.store k.work m) (hb : k.store.Balanced loose)
    (hk : k.after apply n = some k') :
    ∃ j, n + j = m ∧ k'.store.Balanced loose ∧ Working apply h t k'.store k'.work j := by
  induction n generalizing k m with
  | zero =>
    obtain rfl := Option.some.inj hk
    exact ⟨m, Nat.zero_add m, hb, hw⟩
  | succ n ih =>
    obtain ⟨k₁, hround, hk⟩ := Option.bind_eq_some_iff.mp hk
    obtain ⟨s, work⟩ := k
    cases work with
    | nil => cases hround
    | cons q work =>
      obtain ⟨j, rfl, hlands⟩ := hw.round hb
      simp only [FoldState.round?] at hround
      generalize foldStep apply s q = r at hlands hround
      cases hlands with
      | fails => cases hround
      | goesOn hb₁ hw₁ =>
        obtain rfl := Option.some.inj hround
        obtain ⟨i, rfl, hend⟩ := ih hw₁ hb₁ hk
        exact ⟨i, by omega, hend⟩

/-! ## The end -/

/-- **How folding ends** when there were `m` rounds to go: with an empty stack after all of them, or in a round
    that fails. -/
inductive Ends (apply : Operator.Interpretation) (k : FoldState) (m : Nat) : Folded → Prop where
  | ends {s : Store} {notes : List Note} {j : Nat} (h : k.after apply m = some ⟨s, []⟩) :
      Ends apply k m ⟨s, notes, .ok j⟩
  | fails {n j : Nat} {k' : FoldState} {q : Pending} {work : List Pending} {s : Store}
      {notes notes' : List Note} {e : Fault} (hn : n < m) (h : k.after apply n = some k')
      (hq : k'.work = q :: work) (hround : foldStep apply k'.store q = ⟨s, notes', j, .error e⟩) :
      Ends apply k m ⟨s, notes, .error e⟩

/-- A round before. -/
theorem Ends.before {r : Folded} (hround : k.round? apply = some k') (h : Ends apply k' m r) :
    Ends apply k (m + 1) r := by
  have hafter : ∀ n, k.after apply (n + 1) = k'.after apply n := by
    intro n
    rw [FoldState.after, hround]
    rfl
  cases h with
  | ends h => exact .ends ((hafter m).trans h)
  | fails hn h hq hfail => exact .fails (Nat.succ_lt_succ hn) ((hafter _).trans h) hq hfail

/-- **Folding ends** within the rounds there are to go, if the bound allows as many. -/
theorem Working.ends {bound : Nat} (hw : Working apply h t s work m) (hb : s.Balanced loose) (hm : m ≤ bound)
    (notes : List Note) (folded : Nat) :
    Ends apply ⟨s, work⟩ m (foldFrom apply bound work s notes folded) := by
  induction bound generalizing s work m notes folded with
  | zero =>
    obtain rfl := Nat.le_zero.mp hm
    cases work with
    | nil => exact .ends rfl
    | cons q work =>
      obtain ⟨j, hj, -⟩ := hw.round hb
      cases hj
  | succ bound ih =>
    cases work with
    | nil =>
      cases hw
      exact .ends rfl
    | cons q work =>
      obtain ⟨j, rfl, hlands⟩ := hw.round hb
      rw [foldFrom]
      generalize hstep : foldStep apply s q = r at hlands
      cases hlands with
      | fails => exact .fails (Nat.succ_pos j) rfl rfl hstep
      | @goesOn s₁ notes₁ n next hb₁ hw₁ =>
        have hround : FoldState.round? apply ⟨s, q :: work⟩ = some ⟨s₁, next ++ work⟩ := by
          simp only [FoldState.round?, hstep]
        exact (ih hw₁ hb₁ (Nat.le_of_succ_le_succ hm) _ _).before hround

/-! ## What the stack looks like -/

/-- The places taken so far, the latest first. -/
def expanded (work : List Pending) : List Place := (work.filter Pending.ready).map Pending.place

/-- **The first place is a link to an operand** of the vertex at the second. -/
def OperandOf (s : Store) (q p : Place) : Prop :=
  ∃ v i a, s.at? p = some v ∧ q = .link v i ∧ (s.operands v)[i]? = some a

/-- **What the stack looks like** between the rounds of folding. -/
structure InOrder (apply : Operator.Interpretation) (h : Handle) (t : Term) (s : Store)
    (work : List Pending) : Prop where
  /-- each place taken is an operand of the one taken before, -/
  chain : (expanded work).IsChain s.OperandOf
  /-- and the first one is the handle -/
  bottom : ∀ p ∈ (expanded work).getLast?, p = .handle h
  /-- each holds an operator that has no other owner -/
  sole : ∀ p ∈ expanded work, ∃ v x, s.at? p = some v ∧ s.vertex? v = some x
    ∧ x.payload.isOperator = true ∧ x.owners = 1 ∧ ∀ q, s.at? q = some v → q = p
  /-- any other place is the handle, before it is taken, or an operand of a place taken -/
  fresh : ∀ q ∈ work, q.ready = false → (q.place = .handle h ∧ expanded work = [])
    ∨ ∃ p ∈ expanded work, s.OperandOf q.place p
  /-- when a place taken is on top, its operands are folded, each from what it was, and its vertex is replaced
      without a copy -/
  top : ∀ p rest, work = ⟨p, true⟩ :: rest → ∃ v c, s.at? p = some v ∧ c ∈ t.postOrder
    ∧ List.Forall₂ (fun a b => ∃ u, s.Unfolds a u ∧ Term.FoldsTo apply b u ∧ u.Settled) (s.operands v) c.operands
    ∧ ∀ payload, s.replace p payload = ⟨s.overwrite v payload none, []⟩

theorem expanded_operandsFrom (v : VertexId) (i n : Nat) (p : Place) (work : List Pending) :
    expanded (operandsFrom v i n ++ ⟨p, true⟩ :: work) = p :: expanded work := by
  have hnone : (operandsFrom v i n).filter Pending.ready = [] := by
    refine List.filter_eq_nil_iff.mpr fun q hq => ?_
    obtain ⟨j, -, rfl⟩ := List.mem_map.mp hq
    exact Bool.false_ne_true
  rw [expanded, List.filter_append, hnone]
  rfl

/-- The links of an operator lead to its operands. -/
theorem Unfolds.operandOf (hv : s.Unfolds v (.linked (.op f) ts)) (hp : s.at? p = some v) (hi : i < ts.length) :
    s.OperandOf (.link v i) p := by
  obtain ⟨x, hx⟩ := hv.exists_vertex
  have hlen : x.operands.length = ts.length := (hv.operands hx).length_eq
  refine ⟨v, i, x.operands[i], hp, rfl, ?_⟩
  rw [operands_of_vertex? hx, List.getElem?_eq_getElem]

/-- **The places taken lead down from the handle** to the place on top. -/
theorem Context.chain (hctx : Context apply h t s p c work m) :
    (p :: expanded work).IsChain s.OperandOf ∧ (p :: expanded work).getLast? = some (.handle h) := by
  induction hctx with
  | root => exact ⟨.singleton _, rfl⟩
  | @operand _ f done rest us c d v work m _ htaken _ hv ih =>
    have hlt : us.length < (us ++ d :: rest).length := by simp
    have hlink := hv.operandOf htaken.at? hlt
    rw [expanded_operandsFrom]
    exact ⟨List.isChain_cons_cons.mpr ⟨hlink, ih.1⟩, by rw [List.getLast?_cons_cons, ih.2]⟩

/-- Each of them was taken. -/
theorem Context.taken (hctx : Context apply h t s p c work m) {r : Place} (hr : r ∈ expanded work) :
    ∃ v f ts, s.Taken r v ∧ s.Unfolds v (.linked (.op f) ts) := by
  induction hctx with
  | root => cases hr
  | operand _ htaken _ hv ih =>
    rw [expanded_operandsFrom] at hr
    rcases List.mem_cons.mp hr with rfl | hr
    · exact ⟨_, _, _, htaken, hv⟩
    · exact ih hr

/-- The others are operands of theirs. -/
theorem Context.siblings (hctx : Context apply h t s p c work m) (hq : q ∈ work) (hr : q.ready = false) :
    ∃ r ∈ expanded work, s.OperandOf q.place r := by
  induction hctx with
  | root => cases hq
  | @operand p f done rest us c d v work m _ htaken _ hv ih =>
    rw [expanded_operandsFrom]
    rcases List.mem_append.mp hq with hq | hq
    · obtain ⟨j, hj, rfl⟩ := List.mem_map.mp hq
      obtain ⟨i, hi, rfl⟩ := List.mem_range'.mp hj
      refine ⟨p, List.mem_cons_self, hv.operandOf htaken.at? ?_⟩
      rw [List.length_append, List.length_cons]
      omega
    · rcases List.mem_cons.mp hq with rfl | hq
      · cases hr
      · obtain ⟨r, hmem, hop⟩ := ih hq
        exact ⟨r, List.mem_cons_of_mem p hmem, hop⟩

/-- **With exact counts a place taken is the only owner.** -/
theorem Taken.sole (htaken : s.Taken p v) (hv : s.Unfolds v (.linked (.op f) ts)) (hb : s.Balanced fun _ => 0) :
    ∃ v x, s.at? p = some v ∧ s.vertex? v = some x ∧ x.payload.isOperator = true ∧ x.owners = 1
      ∧ ∀ q, s.at? q = some v → q = p := by
  obtain ⟨x, hx⟩ := hv.exists_vertex
  have hle := htaken.owners x hx
  have hown := hb.owners v x hx
  have hpos := bound_pos htaken.at?
  refine ⟨v, x, htaken.at?, hx, by rw [(hv.children hx).1]; rfl, by omega, fun q hq => ?_⟩
  by_contra hne
  have htwo := two_le_bound hq htaken.at? hne
  omega

/-- A place taken is replaced without a copy. -/
theorem Taken.replace_eq (htaken : s.Taken p v) (hx : s.vertex? v = some x) (payload : Payload) :
    s.replace p payload = ⟨s.overwrite v payload none, []⟩ := by
  simp only [Store.replace, makeSole_of_le htaken.at? hx (htaken.owners x hx)]

/-- The operands of a vertex, with what they were before they were folded. -/
theorem Unfolds.operands_folded {us : List Term} (hv : s.Unfolds v (.linked (.op f) us))
    (hus : List.Forall₂ (Term.FoldsTo apply) ts us) :
    List.Forall₂ (fun a b => ∃ u, s.Unfolds a u ∧ Term.FoldsTo apply b u ∧ u.Settled) (s.operands v) ts := by
  obtain ⟨x, hx⟩ := hv.exists_vertex
  obtain ⟨hlen, hterms⟩ := Pointwise.iff_getElem?.mp (hv.operands hx)
  obtain ⟨hlen', hfolds⟩ := Pointwise.iff_getElem?.mp hus
  have hus' : (Term.linked (.op f) us).operands = us := rfl
  rw [hus'] at hlen hterms
  rw [operands_of_vertex? hx]
  refine Pointwise.iff_getElem?.mpr ⟨hlen.trans hlen'.symm, fun i a b ha hb => ?_⟩
  have hlt := (List.getElem?_eq_some_iff.mp hb).1
  have hu := List.getElem?_eq_getElem (hlen' ▸ hlt)
  have hto := hfolds i b _ hb hu
  exact ⟨_, hterms i a _ ha hu, hto, hto.settled⟩

/-- Below a place the first one taken is the handle, if one was taken. -/
theorem Context.bottom (hctx : Context apply h t s p c work m) {r : Place} (hr : r ∈ (expanded work).getLast?) :
    r = .handle h := by
  have hlast := hctx.chain.2
  cases hwork : expanded work with
  | nil =>
    rw [hwork] at hr
    cases hr
  | cons r' rest =>
    rw [hwork] at hr hlast
    rw [List.getLast?_cons_cons] at hlast
    exact Option.some.inj (hr.symm.trans hlast)

/-- A place with others below it is an operand of the one taken last; else it is the handle. -/
theorem Context.parent (hctx : Context apply h t s p c work m) :
    (p = .handle h ∧ expanded work = []) ∨ ∃ r ∈ expanded work, s.OperandOf p r := by
  obtain ⟨hchain, hlast⟩ := hctx.chain
  cases hwork : expanded work with
  | nil =>
    rw [hwork] at hlast
    exact .inl ⟨Option.some.inj hlast, rfl⟩
  | cons r rest =>
    rw [hwork] at hchain
    exact .inr ⟨r, List.mem_cons_self, (List.isChain_cons_cons.mp hchain).1⟩

/-- The places taken below a place are the only owners of their vertices. -/
theorem Context.sole (hctx : Context apply h t s p c work m) (hb : s.Balanced fun _ => 0) {r : Place}
    (hr : r ∈ expanded work) :
    ∃ v x, s.at? r = some v ∧ s.vertex? v = some x ∧ x.payload.isOperator = true ∧ x.owners = 1
      ∧ ∀ q, s.at? q = some v → q = r := by
  obtain ⟨v, f, ts, htaken, hv⟩ := hctx.taken hr
  exact htaken.sole hv hb

/-- **The stack is in order when an occurrence comes up**, -/
theorem Context.inOrder_fresh (hctx : Context apply h t s p c work m) (hb : s.Balanced fun _ => 0) :
    InOrder apply h t s (⟨p, false⟩ :: work) where
  chain := hctx.chain.1.tail
  bottom _ hr := hctx.bottom hr
  sole _ hr := hctx.sole hb hr
  fresh q hq hr := by
    rcases List.mem_cons.mp hq with rfl | hq
    · exact hctx.parent
    · exact .inr (hctx.siblings hq hr)
  top _ _ hr := by cases hr

/-- and when an operator comes up again. -/
theorem Context.inOrder_ready {us : List Term} (hctx : Context apply h t s p (.linked (.op f) ts) work m)
    (hb : s.Balanced fun _ => 0) (htaken : s.Taken p v) (hus : List.Forall₂ (Term.FoldsTo apply) ts us)
    (hv : s.Unfolds v (.linked (.op f) us)) : InOrder apply h t s (⟨p, true⟩ :: work) where
  chain := hctx.chain.1
  bottom _ hr := Option.some.inj (hr.symm.trans hctx.chain.2)
  sole r hr := by
    rcases List.mem_cons.mp hr with rfl | hr
    · exact htaken.sole hv hb
    · exact hctx.sole hb hr
  fresh q hq hr := by
    rcases List.mem_cons.mp hq with rfl | hq
    · cases hr
    · obtain ⟨r, hmem, hop⟩ := hctx.siblings hq hr
      exact .inr ⟨r, List.mem_cons_of_mem p hmem, hop⟩
  top r rest hr := by
    obtain ⟨hpending, rfl⟩ := List.cons.inj hr
    obtain ⟨rfl, -⟩ := Pending.mk.inj hpending
    obtain ⟨x, hx⟩ := hv.exists_vertex
    exact ⟨v, _, htaken.at?, hctx.occurs, hv.operands_folded hus, htaken.replace_eq hx⟩

/-- **Whenever folding stands as it should, the stack is in order.** -/
theorem Working.inOrder (hw : Working apply h t s work m) (hb : s.Balanced fun _ => 0) :
    InOrder apply h t s work := by
  cases hw with
  | finished =>
    exact ⟨.nil, fun p hp => (by cases hp), fun p hp => (by cases hp), fun q hq => (by cases hq),
      fun p rest hp => (by cases hp)⟩
  | fresh hctx => exact hctx.inOrder_fresh hb
  | ready hctx htaken _ hus hv => exact hctx.inOrder_ready hb htaken hus hv

/-- There is something to go as long as there is something on the stack. -/
theorem Working.eq_nil_iff (hw : Working apply h t s work m) : work = [] ↔ m = 0 := by
  cases hw with
  | finished => exact ⟨fun _ => rfl, fun _ => rfl⟩
  | @fresh p c v work m hctx hp hc =>
    have hpos : 0 < c.foldSteps := by
      rw [Term.foldSteps_eq]
      split <;> omega
    exact ⟨fun h => (by cases h), fun h => by omega⟩
  | ready => exact ⟨fun h => (by cases h), fun h => by omega⟩

end Store

namespace Term

/-- The rounds of folding a term: one for each occurrence, and one more for each operator. -/
theorem foldSteps_eq_countP (t : Term) :
    t.foldSteps = t.postOrder.length + t.postOrder.countP fun u => u.payload.isOperator := by
  unfold foldSteps
  induction t.postOrder with
  | nil => rfl
  | cons u us ih =>
    rw [List.map_cons, List.sum_cons, ih, List.length_cons, List.countP_cons]
    by_cases hop : u.payload.isOperator = true
    · rw [if_pos hop, if_pos hop]
      omega
    · rw [if_neg hop, if_neg hop]
      omega

end Term

namespace Store

variable {s : Store} {h : Handle} {v : VertexId}

/-- **Folding round by round**, in a closed store without circles whose counts are exact.  Let `m` be the number of
    occurrences below the handle, and of the operators among them once more.  Between any two rounds the stack is
    in order.  No more than `m` rounds are made, and the stack is empty after `m` of them only.  When folding
    comes to its end it has made `m` rounds; otherwise one of them failed. -/
theorem folding_rounds (apply : Operator.Interpretation) (hc : s.Closed) (ha : s.Acyclic) (he : s.Exact)
    (hh : s.target? h = some v) :
    ∃ t m, s.termAt? h = some t
      ∧ m = t.postOrder.length + t.postOrder.countP (fun u => u.payload.isOperator)
      ∧ (∀ n k, (FoldState.start s h).after apply n = some k →
        InOrder apply h t k.store k.work ∧ n ≤ m ∧ (k.work = [] ↔ n = m))
      ∧ (∀ j, (s.foldWith apply h).outcome = .ok j →
        (FoldState.start s h).after apply m = some ⟨(s.foldWith apply h).store, []⟩)
      ∧ ∀ e, (s.foldWith apply h).outcome = .error e →
        ∃ n k q work, n < m ∧ (FoldState.start s h).after apply n = some k ∧ k.work = q :: work
          ∧ (foldStep apply k.store q).next = .error e
          ∧ (foldStep apply k.store q).store = (s.foldWith apply h).store := by
  have hb := he.balanced hc ha
  obtain ⟨t, ht, hterm⟩ := hb.termAt? hh
  have hstart : Working apply h t (FoldState.start s h).store (FoldState.start s h).work t.foldSteps :=
    .fresh .root hh ht
  refine ⟨t, t.foldSteps, hterm, t.foldSteps_eq_countP, fun n k hk => ?_, ?_⟩
  · obtain ⟨j, hj, hbk, hwk⟩ := hstart.after hb hk
    refine ⟨hwk.inOrder hbk, by omega, ?_⟩
    rw [hwk.eq_nil_iff]
    omega
  · have hends : Ends apply (.start s h) t.foldSteps (s.foldWith apply h) :=
      hstart.ends hb ht.foldSteps_le [] 0
    generalize s.foldWith apply h = r at hends
    constructor
    · intro j hj
      cases hends with
      | ends hafter => exact hafter
      | fails => cases hj
    · intro e he
      cases hends with
      | ends => cases he
      | @fails n _ k' q work _ _ _ e' hn hafter hq hround =>
        obtain rfl := Except.error.inj he
        exact ⟨n, k', q, work, hn, hafter, hq, by rw [hround], by rw [hround]⟩

end Store

namespace Session

open Store (FoldState InOrder expanded)

/-- `(2 + 2) * x + (2 + 2)` is folded in 13 rounds.  After five of them the copy of the inner sum is on top; the
    copy of the product and the sum lie below it. -/
theorem folding_rounds_sharedTwice :
    (run Operator.apply sharedTwice).store.Closed ∧ (run Operator.apply sharedTwice).store.Acyclic
      ∧ (run Operator.apply sharedTwice).store.Exact
      ∧ (run Operator.apply sharedTwice).store.target? 4 = some 4
      ∧ (∃ k, (FoldState.start (run Operator.apply sharedTwice).store 4).after Operator.apply 5 = some k
        ∧ expanded k.work = [.link 5 0, .link 4 0, .handle 4]
        ∧ InOrder Operator.apply 4 sharedTwiceTerm k.store k.work)
      ∧ (FoldState.start (run Operator.apply sharedTwice).store 4).after Operator.apply 13
        = some ⟨((run Operator.apply sharedTwice).store.foldWith Operator.apply 4).store, []⟩ := by
  have hb := balanced_run Operator.apply sharedTwice
  have he : (run Operator.apply sharedTwice).store.Exact := hb.owners
  have hh : (run Operator.apply sharedTwice).store.target? 4 = some 4 := rfl
  have hok := foldWith_sharedTwice
  rw [fst_foldWith] at hok
  obtain ⟨t, m, ht, hm, hrounds, hend, -⟩ :=
    Store.folding_rounds Operator.apply hb.closed hb.acyclic he hh
  obtain rfl : sharedTwiceTerm = t := by
    have hterm := Store.termAt?_eq_some_iff.mpr ⟨4, hh, Store.term?_eq_some_iff.mp term?_sharedTwice⟩
    exact Option.some.inj (hterm.symm.trans ht)
  obtain rfl : m = 13 := hm
  have hfive : ((FoldState.start (run Operator.apply sharedTwice).store 4).after Operator.apply 5).map
      (fun k => expanded k.work) = some [.link 5 0, .link 4 0, .handle 4] := by decide +kernel
  obtain ⟨k, hk, hexpanded⟩ := Option.map_eq_some_iff.mp hfive
  exact ⟨hb.closed, hb.acyclic, he, hh, ⟨k, hk, hexpanded, (hrounds 5 k hk).1⟩, hend 2 hok⟩

end Session

end ExprGraph

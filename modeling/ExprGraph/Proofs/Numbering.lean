import ExprGraph.Proofs.Activities
import ExprGraph.Proofs.VertexRules
/-!
  Numbers of functions.

  A function that is not its own deep copy is known by a number, and each deep copy gets a number of its own.  It is
  not enough that no vertex has it: the vertices that had it may have gone, and an operator may lie in the registry of
  a builder.  So a store counts the numbers that were ever taken (`Store.copies`), and gives none of them again.

  Main statement: a deep copy of a function is none of the functions that there are or have been, in vertices or in
  registries (`Tour.deepCopy_is_new`).

    * state      the tour;
    * step       whatever is done to a store (`Store.rule_numbered`), and an activity (`Tour.numbered_act`);
    * invariant  all numbers up to a bound are taken, and so are those in vertices and registries
                 (`Session.Numbered`).
-/

namespace ExprGraph

/-! ## In a store -/

namespace Store

variable {apply : Operator.Interpretation} {s s' : Store} {n : Nat} {g : Handle}

theorem copies_addOwners (s : Store) (vs : List VertexId) : (s.addOwners vs).copies = s.copies := by
  induction vs generalizing s with
  | nil => rfl
  | cons v vs ih => exact ih (s.addOwner v)

/-- A move takes numbers, and gives none back. -/
theorem Moves.copies_le (hs : Moves s s') : s.copies ≤ s'.copies := by
  induction hs with
  | refl => exact Nat.le_refl _
  | tail _ hmove ih =>
    refine Nat.le_trans ih ?_
    cases hmove with
    | addOwners vs => exact Nat.le_of_eq (copies_addOwners _ vs).symm
    | insert hpos => exact Nat.le_max_left _ _
    | rebind p w => cases p <;> exact Nat.le_refl _
    | unbind h => exact Nat.le_refl _
    | modify hf => exact Nat.le_refl _
    | dropOwner hx hstay => exact Nat.le_refl _
    | erase hx hpin => exact Nat.le_refl _

theorem copies_le_repin (s : Store) (pins : List VertexId) : s.copies ≤ (s.repin pins).copies :=
  repin_induction (P := fun s' => s.copies ≤ s'.copies) (Nat.le_refl _)
    fun v h => Nat.le_trans h (moves_unpin _ v).copies_le

/-- **The numbers below a bound are taken, and those of the functions in the vertices.** -/
structure Numbered (n : Nat) (s : Store) : Prop where
  le_copies : n ≤ s.copies
  vertex : s.Vertexwise fun x => x.payload.nextCopy ≤ s.copies

/-- Linking and folding bring no number into a vertex. -/
theorem contentRule_numbered (n : Nat) : ContentRule fun x => x.payload.nextCopy ≤ n where
  shape h hp _ := hp ▸ h
  constant _ := Nat.zero_le n
  linked h _ := h

namespace Numbered

/-- A store whose vertices have only numbers from before may take more. -/
theorem grow (hs : s.Numbered n) (hle : s.copies ≤ s'.copies)
    (hv : s'.Vertexwise fun x => x.payload.nextCopy ≤ s.copies) : s'.Numbered n where
  le_copies := Nat.le_trans hs.le_copies hle
  vertex v x hx := Nat.le_trans (hv v x hx) hle

theorem addOwners (hs : s.Numbered n) (vs : List VertexId) : (s.addOwners vs).Numbered n :=
  hs.grow (Nat.le_of_eq (copies_addOwners s vs).symm)
    (hs.vertex.thin (contentRule_numbered _) (.addOwners s vs))

theorem bind (hs : s.Numbered n) (v : VertexId) : (s.bind v).2.Numbered n :=
  hs.grow (Nat.le_refl _) (hs.vertex.bind (contentRule_numbered _) v)

/-- **A new vertex takes the number of its function**, if it has one. -/
theorem insert (hs : s.Numbered n) (x : Vertex) : (s.insert x).2.Numbered n where
  le_copies := Nat.le_trans hs.le_copies (Nat.le_max_left _ _)
  vertex := by
    have hold : s.Vertexwise fun y => y.payload.nextCopy ≤ (s.insert x).2.copies :=
      fun v y hy => Nat.le_trans (hs.vertex v y hy) (Nat.le_max_left _ _)
    exact hold.insert (Nat.le_max_right _ _)

theorem clone {r : Handle × Store} (hr : s.clone g = .ok r) (hs : s.Numbered n) : r.2.Numbered n :=
  clone_induction hr hs (fun _ _ _ h => (h.addOwners _).insert _) fun v h => h.bind v

end Numbered

/-- **Numbers once taken stay taken**, whatever is done to a store. -/
theorem rule_numbered (apply : Operator.Interpretation) (n : Nat) :
    Rule apply (fun _ => True) (fun _ => True) (Numbered n) where
  make _ hs := (hs.insert _).bind _
  makeLinked _ hr hs := by
    obtain ⟨vs, -, rfl⟩ := makeLinked_eq_ok hr
    exact ((hs.addOwners vs).insert _).bind _
  bind v hs := hs.bind v
  clone := Numbered.clone
  link hc hs := hs.grow (moves_link hc).copies_le (Vertexwise.link (contentRule_numbered _) hc hs.vertex)
  fold g hs := hs.grow (moves_foldWith apply _ g).copies_le
    (hs.vertex.foldFrom (contentRule_numbered _) _ _ _ _)
  drop g hs := hs.grow (moves_drop _ g).copies_le
    (hs.vertex.thin (contentRule_numbered _) (thinned_drop _ g))
  repin pins hs := hs.grow (copies_le_repin _ pins)
    (hs.vertex.thin (contentRule_numbered _) (thinned_repin _ pins))
  reserve m hs := hs.grow (Nat.le_max_left _ m) hs.vertex

end Store

/-! ## In a session -/

theorem Operation.puts_true (op : Operation) : op.Puts (fun _ => True) fun _ => True := by
  cases op with
  | variableLeaf name observed => cases name <;> trivial
  | builderVariable i name => cases name <;> trivial
  | operator f cs => exact fun _ => trivial
  | builderOperator i f cs => exact fun _ => trivial
  | _ => trivial

namespace Session

variable {apply : Operator.Interpretation} {s : Session} {n : Nat} {op : Operation}

/-- **The numbers below a bound are taken, and those of the functions in vertices and in registries.** -/
structure Numbered (n : Nat) (s : Session) : Prop where
  store : s.store.Numbered n
  registry : ∀ (i : BuilderId) (b : Builder), s.builders[i]?.join = some b →
    ∀ e ∈ b.registry, e.2.function.nextCopy ≤ s.store.copies

/-- Each operator takes up its number as the operators of a new builder are counted. -/
theorem nextCopy_le_of_mem {operators : Table Operator} {f : Operator} (hf : f ∈ operators.map Prod.snd) :
    f.function.nextCopy ≤ operators.foldl (fun n (_, f) => max n f.function.nextCopy) 0 := by
  obtain ⟨e, he, rfl⟩ := List.mem_map.mp hf
  exact Store.le_foldl_of_mem (g := fun n (e : String × Operator) => max n e.2.function.nextCopy)
    (fun _ _ => Nat.le_max_left _ _) he (fun _ => Nat.le_max_right _ _) 0

/-- **An operator put into a registry has a number that is taken**, if it has one. -/
theorem nextCopy_le_of_registers (apply : Operator.Interpretation) (s : Session) {f : Operator}
    (hf : op.Registers f) : f.function.nextCopy ≤ (s.perform apply op).2.store.copies := by
  cases op with
  | register i g name =>
    have hregister : ∃ s', Builder.register s i g name = .ok (f, s')
        ∧ f.function.nextCopy ≤ s'.store.copies := by
      rw [Builder.register, show g.wrap = .ok f from hf]
      exact ⟨_, rfl, Nat.le_max_right _ _⟩
    obtain ⟨s', hr, hle⟩ := hregister
    show _ ≤ (settle s ((Builder.register s i g name).map _)).2.store.copies
    rw [hr]
    exact hle
  | builder adopted operators =>
    rcases hf with hbuiltin | hgiven
    · have hplain : ∀ g ∈ Operator.builtins, g.function.nextCopy = 0 := by decide
      rw [hplain f hbuiltin]
      exact Nat.zero_le _
    · cases adopted <;> exact Nat.le_trans (nextCopy_le_of_mem hgiven) (Nat.le_max_right _ _)
  | _ => exact hf.elim

/-- **An operation takes numbers, and gives none back.** -/
theorem Numbered.perform (hs : s.Numbered n) (apply : Operator.Interpretation) (op : Operation) :
    (s.perform apply op).2.Numbered n where
  store := (Store.rule_numbered apply n).perform op.puts_true hs.store
  registry := by
    intro i b' hb' e he
    have hnow : s.store.Numbered s.store.copies := ⟨Nat.le_refl _, hs.store.vertex⟩
    have hle := ((Store.rule_numbered apply _).perform op.puts_true hnow).le_copies
    have hturn := turns_perform apply s op i
    rw [hb'] at hturn
    generalize hb : s.builders[i]?.join = before at hturn
    cases hturn with
    | same => exact Nat.le_trans (hs.registry i b' hb e he) hle
    | registered b registry hreg =>
      rcases hreg e he with hold | hnew
      · exact Nat.le_trans (hs.registry i b hb e hold) hle
      · exact nextCopy_le_of_registers apply s hnew
    | published b hop => exact Nat.le_trans (hs.registry i b hb e he) hle
    | begun registry hop hi hreg => exact nextCopy_le_of_registers apply s (hreg e he)

/-- **The function is in a vertex or in a registry.** -/
inductive HasFunction (s : Session) (f : Primitive) : Prop where
  | vertex {v : VertexId} {x : Vertex} {g : Operator} (hx : s.store.vertex? v = some x)
      (hp : x.payload = .op g) (hg : g.function = f)
  | registry {i : BuilderId} {b : Builder} {e : String × Operator} (hb : s.builders[i]?.join = some b)
      (he : e ∈ b.registry) (hg : e.2.function = f)

theorem Numbered.nextCopy_le (hs : s.Numbered n) {f : Primitive} (hf : s.HasFunction f) :
    f.nextCopy ≤ s.store.copies := by
  cases hf with
  | @vertex v x g hx hp hg =>
    have hle : x.payload.nextCopy ≤ s.store.copies := hs.store.vertex v x hx
    rw [hp] at hle
    exact hg ▸ hle
  | registry hb he hg => exact hg ▸ hs.registry _ _ hb _ he

end Session

/-! ## In a tour -/

namespace Tour

variable {apply : Operator.Interpretation} {t : Tour} {n : Nat}

theorem numbered_step (ht : t.session.Numbered n) (apply : Operator.Interpretation) (e : Event) :
    (t.step apply e).session.Numbered n := by
  by_cases he : ∃ op, e = .perform op
  · obtain ⟨op, rfl⟩ := he
    exact ht.perform apply op
  · have hputs : e.Puts (fun _ => True) fun _ => True := by
      cases e with
      | perform op => exact absurd ⟨op, rfl⟩ he
      | _ => trivial
    have hnow : t.store.Numbered t.store.copies := ⟨Nat.le_refl _, ht.store.vertex⟩
    have hle := ((Store.rule_numbered apply _).step hputs hnow).le_copies
    refine ⟨(Store.rule_numbered apply n).step hputs ht.store, ?_⟩
    -- a walk changes the store only
    obtain ⟨store, hstore⟩ := exists_session_step apply (fun op heq => he ⟨op, heq⟩) t
    intro i b hb f hf
    rw [hstore] at hb
    exact Nat.le_trans (ht.registry i b hb f hf) hle

/-- **An activity takes numbers, and gives none back.** -/
theorem numbered_act (ht : t.session.Numbered n) (apply : Operator.Interpretation) (a : Activity) :
    (t.act apply a).session.Numbered n := by
  cases a with
  | event e => exact numbered_step ht apply e
  | build i name =>
    obtain ⟨log, hlog⟩ := act_build_eq apply t i name
    have hresolved := numbered_step ht apply (.perform (.resolve i name))
    rw [hlog]
    exact ⟨hresolved.store, hresolved.registry⟩
  | amend k names => exact ⟨ht.store, ht.registry⟩

theorem numbered_acts (apply : Operator.Interpretation) (as : List Activity) :
    ∀ {t : Tour}, t.session.Numbered n → (t.acts apply as).session.Numbered n := by
  induction as with
  | nil => exact fun ht => ht
  | cons a as ih => exact fun ht => ih (numbered_act ht apply a)

theorem numbered_empty : empty.session.Numbered 0 where
  store := ⟨Nat.le_refl _, fun v _ hx => absurd (Store.lt_size_of_vertex? hx) (Nat.not_lt_zero v)⟩
  registry _ _ hb := by cases hb

/-- **A deep copy of a function is none that there is or has been**, in a vertex or in a registry, when the function
    has a number at all. -/
theorem deepCopy_is_new (apply : Operator.Interpretation) (as more : List Activity) {f g : Primitive}
    (hf : (empty.acts apply as).session.HasFunction f) (hg : 0 < g.nextCopy) :
    g.deepCopy ((empty.acts apply as).acts apply more).store.nextCopy ≠ f := by
  have hthen : (empty.acts apply as).session.Numbered 0 := numbered_acts apply as numbered_empty
  have hstart : (empty.acts apply as).session.Numbered (empty.acts apply as).store.copies :=
    ⟨⟨Nat.le_refl _, hthen.store.vertex⟩, hthen.registry⟩
  have hkept := (numbered_acts apply more hstart).store.le_copies
  have htaken : f.nextCopy ≤ ((empty.acts apply as).acts apply more).store.nextCopy :=
    Nat.le_trans (hthen.nextCopy_le hf) (Nat.le_trans hkept (Nat.le_max_left _ _))
  generalize ((empty.acts apply as).acts apply more).store.nextCopy = fresh at htaken
  rintro rfl
  cases g with
  | partialSum copy =>
    have hnumber : fresh + copy + 1 ≤ fresh := htaken
    omega
  | _ => exact absurd hg (Nat.lt_irrefl 0)

end Tour

end ExprGraph

import ExprGraph.Proofs.Activities
import ExprGraph.Proofs.Attempts
/-!
  A construction that fails leaves no trace.

  Main statement: whatever has come about before, what is given wrong to a construction is refused, and a
  construction that is refused leaves all that can be seen as it was (`Tour.failure_leaves_no_trace`).

    * state      the session with walks in progress;
    * step       an activity, a construction carried out step by step, or a change beside the store;
    * invariant  the store is balanced, and what is pinned is live (`Tour.Reached.sane`): the number of a new
                 vertex is never pinned, so the vertex of an operator that refuses its children does go.
-/

namespace ExprGraph

/-! ## Outcomes -/

/-- The outcome is a fault. -/
def Refused {α : Type} (r : Except Fault α) : Prop := ∃ e, r = .error e

section Refused

variable {α β : Type} {r : Except Fault α}

theorem Refused.bind (hr : Refused r) (f : α → Except Fault β) : Refused (r >>= f) := by
  obtain ⟨e, rfl⟩ := hr
  exact ⟨e, rfl⟩

theorem Refused.map (hr : Refused r) (f : α → β) : Refused (r.map f) := by
  obtain ⟨e, rfl⟩ := hr
  exact ⟨e, rfl⟩

theorem refused_bind {f : α → Except Fault β} (hf : ∀ a, r = .ok a → Refused (f a)) : Refused (r >>= f) := by
  cases r with
  | error e => exact ⟨e, rfl⟩
  | ok a => exact hf a rfl

theorem Refused.settle {σ : Type} {before : σ} {r : Except Fault (Reply × σ)} (hr : Refused r) :
    Refused (settle before r).1 := by
  obtain ⟨e, rfl⟩ := hr
  exact ⟨e, rfl⟩

end Refused

/-! ## What is refused -/

namespace Construction

/-- The children that something is to be linked to. -/
def children : Construction → List TreeLike
  | operator _ cs => cs
  | link _ cs => cs
  | builderOperator _ _ cs => cs
  | _ => []

/-- The operator that is to be linked to children, when there is one. -/
def head? (s : Session) : Construction → Option Operator
  | operator f _ => f.resolve.toOption
  | builderOperator i (.named name) _ => (s.builder i).registry.find? name
  | builderOperator _ f _ => f.wrap.toOption
  | link h _ =>
    match s.store.behind h with
    | .ok (_, ⟨.op f, _, _⟩) => some f
    | _ => none
  | _ => none

/-- **What is no operator** where the operators of some names are known. -/
inductive NoOperator (known : String → Prop) : OperatorLike → Prop where
  | unknown {name : String} (hname : ¬ known name) : NoOperator known (.named name)
  | notCallable (kind : String) : NoOperator known (.other kind)

/-- **Children that do not fit** an operator, if they are for one. -/
inductive Unfit (head : Option Operator) (cs : List TreeLike) : Prop where
  /-- one that is no tree, wherever it stands -/
  | child {kind : String} (hmem : TreeLike.other kind ∈ cs)
  /-- none for an operator -/
  | none {f : Operator} (hf : head = some f) (hnil : cs = [])
  /-- not as many as the arity says -/
  | count {f : Operator} {n : Nat} (hf : head = some f) (hn : f.arity = some n) (hne : cs.length ≠ n)

/-- **What is wrong with what a construction is given.** -/
inductive Faulty (s : Session) : Construction → Prop where
  /-- no payload -/
  | payload (kind : String) : Faulty s (.vertex (.other kind))
  /-- no text for a name -/
  | name (observed : Option SetId) : Faulty s (.variableLeaf none observed)
  | builderName (i : BuilderId) : Faulty s (.builderVariable i none)
  /-- no operator -/
  | operator {f : OperatorLike} {cs : List TreeLike}
      (hf : NoOperator (fun name => ∃ op ∈ Operator.builtins, op.name = name) f) : Faulty s (.operator f cs)
  | builderOperator {i : BuilderId} {f : OperatorLike} {cs : List TreeLike}
      (hf : NoOperator (fun name => (s.builder i).registry.find? name ≠ none) f) :
      Faulty s (.builderOperator i f cs)
  | register {i : BuilderId} {f : OperatorLike} {name : Option String} (hf : NoOperator (fun _ => False) f) :
      Faulty s (.register i f name)
  /-- children that do not fit -/
  | children {c : Construction} (hcs : Unfit (c.head? s) c.children) : Faulty s c
  /-- no tree to be published -/
  | define (i : BuilderId) (name kind : String) : Faulty s (.define i name (.other kind))
  /-- nothing published -/
  | resolve {i : BuilderId} {name : String} (hname : (s.builder i).scope.find? name = .none) :
      Faulty s (.resolve i name)

theorem not_unfit_nil : ¬ Unfit none [] := by
  intro h
  cases h with
  | child hmem => cases hmem
  | none hf _ => cases hf
  | count hf _ _ => cases hf

theorem Unfit.of_head {head : Option Operator} {cs : List TreeLike} {f : Operator} (h : Unfit head cs)
    (hf : ∀ g, head = some g → f = g) : Unfit (some f) cs := by
  cases h with
  | child hmem => exact .child hmem
  | none hg hnil => exact .none (congrArg some (hf _ hg)) hnil
  | count hg hn hne => exact .count (congrArg some (hf _ hg)) hn hne

end Construction

namespace Store

variable {s : Store} {h : Handle} {v : VertexId} {x : Vertex} {cs : List TreeLike} {f : Operator}

theorem refused_expectTrees {kind : String} (hmem : TreeLike.other kind ∈ cs) : Refused (expectTrees cs) := by
  induction cs with
  | nil => cases hmem
  | cons c cs ih =>
    unfold expectTrees
    rw [List.mapM_cons]
    cases c with
    | other k => exact ⟨_, rfl⟩
    | tree g =>
      have htail := ih ((List.mem_cons.mp hmem).resolve_left fun he => by cases he)
      exact refused_bind fun _ _ => htail.bind _

theorem length_expectTrees {hs : List Handle} (hhs : expectTrees cs = .ok hs) : hs.length = cs.length :=
  (Pointwise.mapM_eq_ok_iff.mp hhs).length_eq.symm

theorem refused_link {head : Option Operator} (hcs : Construction.Unfit head cs)
    (hhead : ∀ f, head = some f → ∃ v x, s.behind h = .ok (v, x) ∧ x.payload = .op f) :
    Refused (s.link h cs) := by
  have hcount : ∀ {f : Operator}, head = some f → Refused (checkCount (.op f) cs.length) →
      Refused (s.link h cs) := by
    intro f hf hcheck
    obtain ⟨v, x, hx, hp⟩ := hhead f hf
    refine refused_bind fun hs hhs => refused_bind fun r hr => Refused.bind ?_ _
    obtain rfl := Except.ok.inj (hx.symm.trans hr)
    rw [length_expectTrees hhs]
    show Refused (checkCount x.payload cs.length)
    rwa [hp]
  cases hcs with
  | child hmem => exact (refused_expectTrees hmem).bind _
  | none hf hnil =>
    refine hcount hf ?_
    rw [hnil]
    exact ⟨_, rfl⟩
  | count hf hn hne =>
    refine hcount hf ?_
    unfold checkCount
    simp only [hn, if_neg hne]
    split <;> exact ⟨_, rfl⟩

theorem refused_makeOperator (hcs : Construction.Unfit (some f) cs) : Refused (s.makeOperator f cs) := by
  have hbehind : (s.make (.op f)).2.behind s.handles.size = .ok (s.vertices.size, ⟨.op f, none, 1⟩) :=
    behind_of_target? ((target?_make s _ _).trans (if_pos rfl)) ((vertex?_make s _ _).trans (if_pos rfl))
  refine (refused_link hcs fun g hg => ?_).bind _
  obtain rfl := Option.some.inj hg
  exact ⟨_, _, hbehind, rfl⟩

end Store

namespace Construction

variable {s : Session} {c : Construction} {f : OperatorLike} {cs : List TreeLike}

theorem NoOperator.refused_resolve (hf : NoOperator (fun name => ∃ op ∈ Operator.builtins, op.name = name) f) :
    Refused f.resolve := by
  cases hf with
  | notCallable kind => exact ⟨_, rfl⟩
  | @unknown name hname =>
    have hnone : Operator.builtins.find? (fun op => op.name == name) = none :=
      List.find?_eq_none.mpr fun op hop he => hname ⟨op, hop, eq_of_beq he⟩
    refine ⟨.unknownOperator name, ?_⟩
    simp only [OperatorLike.resolve, Operator.builtin, hnone]

theorem refused_makeOperator (hcs : Unfit f.resolve.toOption cs) : Refused (s.makeOperator f cs) := by
  refine refused_bind fun op hop => (Store.refused_makeOperator (hcs.of_head fun g hg => ?_)).bind _
  rw [hop] at hg
  exact Option.some.inj hg

theorem refused_builderOperator {i : BuilderId} (hcs : Unfit ((builderOperator i f cs).head? s) cs) :
    Refused (Session.Builder.makeOperator s i f cs) := by
  cases f with
  | named name =>
    unfold Session.Builder.makeOperator
    cases hf : (s.builder i).registry.find? name with
    | none =>
      simp only [hf]
      exact ⟨_, rfl⟩
    | some f =>
      simp only [hf]
      refine refused_makeOperator (hcs.of_head fun g hg => ?_)
      exact Option.some.inj (hf.symm.trans hg)
  | operator f => exact refused_makeOperator hcs
  | function f => exact refused_makeOperator hcs
  | other kind => exact refused_makeOperator hcs

/-- **What is given wrong is refused.** -/
theorem Faulty.refused (apply : Operator.Interpretation) (hc : c.Faulty s) : Refused (c.inOneGo apply s).1 := by
  cases hc with
  | payload kind => exact ⟨_, rfl⟩
  | name observed => exact ⟨_, rfl⟩
  | builderName i => exact ⟨_, rfl⟩
  | operator hf => exact ((hf.refused_resolve.bind _).map _).settle
  | @builderOperator i f cs hf =>
    refine Refused.settle (Refused.map ?_ _)
    cases hf with
    | notCallable kind => exact ⟨_, rfl⟩
    | @unknown name hname =>
      refine ⟨.unknownOperator name, ?_⟩
      simp only [Session.Builder.makeOperator, not_not.mp hname]
  | register hf =>
    refine Refused.settle (Refused.map (Refused.bind ?_ _) _)
    cases hf <;> exact ⟨_, rfl⟩
  | children hcs =>
    cases c with
    | operator f cs => exact ((refused_makeOperator hcs).map _).settle
    | link h cs =>
      refine Refused.settle (Refused.map (Refused.map (Store.refused_link hcs fun f hf => ?_) _) _)
      simp only [head?] at hf
      split at hf
      · next v f' links owners hx =>
        obtain rfl := Option.some.inj hf
        exact ⟨v, _, hx, rfl⟩
      · cases hf
    | builderOperator i f cs => exact ((refused_builderOperator hcs).map _).settle
    | _ => exact absurd hcs not_unfit_nil
  | define i name kind => exact ⟨_, rfl⟩
  | @resolve i name hname =>
    refine Refused.settle (Refused.map ⟨.undefinedTree name, ?_⟩ _)
    simp only [Session.Builder.resolve, hname]

end Construction

/-! ## Tours with constructions -/

namespace Tour

variable {apply : Operator.Interpretation} {t : Tour}

/-- **What can come about**: by what goes on in sessions with walks, by constructions carried out step by step,
    whether or not they fail, and by what the callers do to all that is not in the store. -/
inductive Reached (apply : Operator.Interpretation) : Tour → Prop where
  | empty : Reached apply .empty
  | act {t : Tour} (a : Activity) (ht : Reached apply t) : Reached apply (t.act apply a)
  | construct {t : Tour} (c : Construction) (ht : Reached apply t) :
      Reached apply ⟨(c.action t.session).2, t.walks⟩
  | beside {t : Tour} {s : Session} (hs : s.store = t.session.store) (ht : Reached apply t) :
      Reached apply ⟨s, t.walks⟩

/-- The number of a new vertex is not pinned. -/
theorem Sane.size_not_pinned (hs : t.Sane) : t.store.vertices.size ∉ t.store.pinned := by
  rw [hs.pinned]
  intro hmem
  obtain ⟨c, hc, hmem⟩ := List.mem_flatMap.mp hmem
  obtain ⟨f, hf, hsize⟩ := List.mem_map.mp hmem
  obtain ⟨x, hx⟩ := hs.live c hc f hf
  rw [hsize, Store.vertex?_size] at hx
  cases hx

/-- What cannot be seen keeps a tour sane. -/
theorem Sane.untouched (hs : t.Sane) {s' : Session} (hsame : t.session.Untouched s') :
    (Tour.mk s' t.walks).Sane where
  balanced := hsame.store.balanced hs.balanced
  pinned := hsame.store.pinned.trans hs.pinned
  live c hc f hf := by
    obtain ⟨x, hx⟩ := hs.live c hc f hf
    exact ⟨x, (hsame.store.vertex f.vertex).trans hx⟩

/-- **A construction keeps a tour sane.** -/
theorem Sane.construct (hs : t.Sane) (apply : Operator.Interpretation) (c : Construction) :
    (Tour.mk (c.action t.session).2 t.walks).Sane := by
  have hone := c.carriesOut apply hs.size_not_pinned
  cases he : (c.inOneGo apply t.session).1 with
  | error e => exact hs.untouched (hone.error e he)
  | ok a =>
    rw [hone.ok a he]
    unfold Construction.inOneGo at he ⊢
    cases hop : c.operation with
    | error e =>
      simp only [hop] at he
      cases he
    | ok op =>
      exact hs.step apply (.perform op)

/-- **Whatever comes about is sane.** -/
theorem Reached.sane (ht : Reached apply t) : t.Sane := by
  induction ht with
  | empty => exact sane_go apply []
  | act a _ ih => exact ih.act apply a
  | construct c _ ih => exact ih.construct apply c
  | beside hs _ ih => exact ih.congr hs rfl

/-- **A construction that fails leaves no trace.**  Whatever has come about before, what is given wrong is
    refused, and a construction that is refused, for that or for another reason, leaves all vertices with their
    payloads, links and owners, all handles, the log, the name sets, and the registries and scopes of the
    builders as they were. -/
theorem failure_leaves_no_trace (ht : Reached apply t) (c : Construction) :
    (c.Faulty t.session → Refused (c.action t.session).1)
      ∧ (Refused (c.action t.session).1 → t.session.Untouched (c.action t.session).2) := by
  have hone := c.carriesOut apply ht.sane.size_not_pinned
  rw [hone.outcome]
  refine ⟨Construction.Faulty.refused apply, fun hrefused => ?_⟩
  obtain ⟨e, he⟩ := hrefused
  exact hone.error e he

/-- A builder, and a constant on which a walk stands. -/
def standing : Tour :=
  ((empty.act Operator.apply (.event (.perform (.builder none [])))).act Operator.apply
    (.event (.perform (.constantLeaf (.integer 2))))).act Operator.apply (.event (.begin 0))

/-- A difference of one operand. -/
def minusNothing : Construction := .builderOperator 0 (.named "subtract") [.tree 0]

/-- The constant plus something that is no tree. -/
def plusNoTree : Construction := .operator (.named "add") [.tree 0, .other "int"]

theorem failure_leaves_no_trace_standing :
    Reached Operator.apply standing
      ∧ (minusNothing.action standing.session).1 = .error (.wrongCount "subtract" 2 1)
      ∧ standing.session.Untouched (minusNothing.action standing.session).2
      ∧ plusNoTree.Faulty (minusNothing.action standing.session).2
      ∧ Refused (plusNoTree.action (minusNothing.action standing.session).2).1
      ∧ (minusNothing.action standing.session).2.Untouched
          (plusNoTree.action (minusNothing.action standing.session).2).2 := by
  have hstanding : Reached Operator.apply standing := ((Reached.empty.act _).act _).act _
  have hrefused : (minusNothing.action standing.session).1 = .error (.wrongCount "subtract" 2 1) := rfl
  have hfaulty : plusNoTree.Faulty (minusNothing.action standing.session).2 :=
    .children (.child (List.mem_cons_of_mem _ List.mem_cons_self))
  obtain ⟨-, hfirst⟩ := failure_leaves_no_trace hstanding minusNothing
  obtain ⟨hrefuses, hsecond⟩ := failure_leaves_no_trace (hstanding.construct minusNothing) plusNoTree
  have hagain := hrefuses hfaulty
  exact ⟨hstanding, hrefused, hfirst ⟨_, hrefused⟩, hfaulty, hagain, hsecond hagain⟩

end Tour

end ExprGraph

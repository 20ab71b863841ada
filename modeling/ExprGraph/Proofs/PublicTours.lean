import ExprGraph.Proofs.Rules
/-!
  What the public operations keep.

  Every operation but one checks what it links: only a vertex made together with its links is not checked, and
  that is no operation for the public (`Operation.isPublic`).  What the public does to a store comes down to
  seven things, and a rule about stores that each of these keeps holds after every tour of public events
  (`Store.Kept.go`), that is after every run of public operations, with any walks in progress.

    * state      the store of a session with walks in progress;
    * step       a public event;
    * invariant  any rule that is kept (`Store.Kept`).
-/

namespace ExprGraph

/-- The operation is public: it links nothing unchecked. -/
def Operation.isPublic : Operation → Bool
  | .linked _ _ => false
  | _ => true

/-- The event is public: a public operation, or what a walk does. -/
def Event.isPublic : Event → Bool
  | .perform op => op.isPublic
  | _ => true

/-- A public event puts no payload in together with links. -/
theorem Event.puts_of_isPublic {e : Event} (he : e.isPublic = true) :
    e.Puts (fun _ => True) (fun _ => False) := by
  cases e with
  | perform op =>
    cases op with
    | linked p children => cases he
    | operator f cs => exact fun _ => trivial
    | builderOperator i f cs => exact fun _ => trivial
    | variableLeaf name observed => cases name <;> trivial
    | builderVariable i name => cases name <;> trivial
    | _ => trivial
  | _ => trivial

namespace Store

/-- **A rule about stores that survives** whatever the public does to a store. -/
structure Kept (apply : Operator.Interpretation) (I : Store → Prop) : Prop where
  make : ∀ {s : Store} (p : Payload), I s → I (s.make p).2
  bind : ∀ {s : Store} (v : VertexId), I s → I (s.bind v).2
  clone : ∀ {s : Store} {g : Handle} {r : Handle × Store}, s.clone g = .ok r → I s → I r.2
  link : ∀ {s : Store} {g : Handle} {cs : List TreeLike} {c : Changed},
    s.link g cs = .ok c → I s → I c.store
  fold : ∀ {s : Store} (g : Handle), I s → I (s.foldWith apply g).store
  drop : ∀ {s : Store} (g : Handle), I s → I (s.drop g)
  repin : ∀ {s : Store} (pins : List VertexId), I s → I (s.repin pins)
  reserve : ∀ {s : Store} (n : Nat), I s → I (s.reserve n)

namespace Kept

variable {apply : Operator.Interpretation} {I : Store → Prop} {t : Tour}

/-- A rule that the public keeps bears every payload in vertices made without links, and none in vertices made
    together with their links. -/
theorem rule (hI : Kept apply I) : Rule apply (fun _ => True) (fun _ => False) I where
  make _ hs := hI.make _ hs
  makeLinked hp _ _ := hp.elim
  bind v hs := hI.bind v hs
  clone := hI.clone
  link := hI.link
  fold g hs := hI.fold g hs
  drop g hs := hI.drop g hs
  repin pins hs := hI.repin pins hs
  reserve n hs := hI.reserve n hs

/-- **The rule holds after every tour of public events** when it holds before. -/
theorem go (hI : Kept apply I) {es : List Event} (hes : ∀ e ∈ es, e.isPublic = true) (ht : I t.store) :
    I (t.go apply es).store := by
  induction es generalizing t with
  | nil => exact ht
  | cons e es ih =>
    refine ih (fun e' he' => hes e' (List.mem_cons_of_mem e he')) ?_
    exact hI.rule.step (Event.puts_of_isPublic (hes e List.mem_cons_self)) ht

end Kept

/-- A rule that bears every payload in vertices made without links is kept by the public. -/
theorem Rule.kept {apply : Operator.Interpretation} {linked : Payload → Prop} {I : Store → Prop}
    (hI : Rule apply (fun _ => True) linked I) : Kept apply I where
  make _ hs := hI.make trivial hs
  bind v hs := hI.bind v hs
  clone := hI.clone
  link := hI.link
  fold g hs := hI.fold g hs
  drop g hs := hI.drop g hs
  repin pins hs := hI.repin pins hs
  reserve n hs := hI.reserve n hs

end Store

/-- **A run is a tour** without walks. -/
theorem Tour.go_perform (apply : Operator.Interpretation) (ops : List Operation) (t : Tour) :
    t.go apply (ops.map .perform)
      = { t with session := ops.foldl (fun s op => (s.perform apply op).2) t.session } := by
  induction ops generalizing t with
  | nil => rfl
  | cons op ops ih => exact ih (t.step apply (.perform op))

end ExprGraph

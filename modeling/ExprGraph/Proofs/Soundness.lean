import ExprGraph.Proofs.ValueSemantics
/-!
  Links never form a circle.

  In a sound store handles and links lead to live vertices, the links form no circle, and no owner is missing
  from the counts.  That is all an operation needs to keep it so (`Session.perform_sound`): new children are
  taken hold of before the parent is, and a parent that they lead to then has another owner and is copied.

    * state      the store;
    * invariant  soundness (`Store.Sound`), which is balance with whatever is counted too often as loose
                 owners (`Store.Sound.balanced`).
-/

namespace ExprGraph

namespace Store

variable {s : Store} {loose : VertexId → Nat}

/-- **A sound store**: nothing leads astray or around, and every owner is counted. -/
structure Sound (s : Store) : Prop where
  closed : s.Closed
  acyclic : s.Acyclic
  covered : s.Covered

/-- Owners that are counted too often are loose. -/
theorem Sound.balanced (hs : s.Sound) : s.Balanced s.surplus :=
  .of_covered hs.closed hs.acyclic hs.covered

/-- Whatever is loose, a balanced store is sound. -/
theorem Balanced.sound (hb : s.Balanced loose) : s.Sound where
  closed := hb.closed
  acyclic := hb.acyclic
  covered v x hx := by
    have hown := hb.owners v x hx
    omega

end Store

namespace Session

variable {s : Session}

/-- **Every operation keeps a sound store sound**, whether or not it succeeds. -/
theorem perform_sound (apply : Operator.Interpretation) (hs : s.store.Sound) (op : Operation) :
    (s.perform apply op).2.store.Sound :=
  (perform_shows apply hs.balanced op).balanced.sound

/-- **No circles, ever**: after every run from the beginning the links form no circle, and where no owner is
    missing from the counts each operation keeps them from forming one. -/
theorem perform_acyclic (apply : Operator.Interpretation) :
    (∀ ops, (run apply ops).store.Acyclic)
      ∧ ∀ (s : Session) (op : Operation), s.store.Closed → s.store.Acyclic → s.store.Covered →
        (s.perform apply op).2.store.Acyclic ∧ (s.perform apply op).2.store.Closed
          ∧ (s.perform apply op).2.store.Covered := by
  constructor
  · intro ops
    exact (balanced_run apply ops).acyclic
  · intro s op hc ha hle
    have hsound := perform_sound apply ⟨hc, ha, hle⟩ op
    exact ⟨hsound.acyclic, hsound.closed, hsound.covered⟩

/-- The sum of a constant and itself, linked to itself twice. -/
theorem perform_acyclic_doubled :
    doubled.store.Closed ∧ doubled.store.Acyclic ∧ doubled.store.Covered
      ∧ (doubled.perform Operator.apply (.link 0 [.tree 0, .tree 0])).1 = .ok .done
      ∧ (doubled.perform Operator.apply (.link 0 [.tree 0, .tree 0])).2.store.Acyclic := by
  have hle : doubled.store.Covered := Store.exact_doubled.covered
  refine ⟨Store.closed_doubled, Store.acyclic_doubled, hle, rfl, ?_⟩
  exact ((perform_acyclic Operator.apply).2 doubled _ Store.closed_doubled Store.acyclic_doubled hle).1

end Session

end ExprGraph

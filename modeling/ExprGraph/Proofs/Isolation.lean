import ExprGraph.Proofs.Operations
import ExprGraph.Proofs.Values
/-!
  Nothing shows through another handle.

  Linking and folding change a tree through one handle.  Whatever was reached from another handle before, by
  all links, is there afterwards with the same payload and the same links; only owners may be counted
  differently.  It does not matter whether the operation succeeds, nor whether more owners are counted than
  there are (`Session.edits_isolated`).
-/

namespace ExprGraph

/-- The operation is to change the tree of a handle. -/
def Operation.Edits (g : Handle) : Operation → Prop
  | .link h _ => h = g
  | .fold h _ => h = g
  | _ => False

/-- An operation changes the tree of one handle at most. -/
theorem Operation.Edits.eq {op : Operation} {g h : Handle} (hg : op.Edits g) (hh : op.Edits h) :
    h = g := by
  cases op with
  | link a cs => exact Eq.trans (Eq.symm hh) hg
  | fold a summary => exact Eq.trans (Eq.symm hh) hg
  | _ => exact absurd hg id

namespace Session

variable (apply : Operator.Interpretation) {s : Session} {loose : VertexId → Nat} {g h : Handle}
  {v w : VertexId} {op : Operation}

/-- **An edit changes nothing without its handle**, whether or not it succeeds. -/
theorem changesOnly_of_edits (hb : s.store.Balanced loose) (hop : op.Edits g) :
    Store.ChangesOnly s.store (s.perform apply op).2.store loose {.handle g} := by
  cases op with
  | link h cs =>
    obtain rfl : h = g := hop
    have hagree := hb.follows_link h cs
    simp only [perform, link]
    generalize s.store.link h cs = r at hagree
    generalize s.store.values.link h cs = q at hagree
    cases hagree with
    | ok hr =>
      obtain ⟨⟨w, t, hedit⟩, -⟩ := hr
      exact hedit.changes
    | error e => exact .refl s.store loose _
  | fold h summary =>
    obtain rfl : h = g := hop
    show Store.ChangesOnly s.store (s.foldWith apply h summary).2.store loose _
    rw [store_foldWith]
    cases hh : s.store.target? h with
    | none =>
      rw [Store.foldWith_of_none hh]
      exact .refl s.store loose _
    | some v =>
      obtain ⟨t, ht, -⟩ := hb.termAt? hh
      obtain ⟨w, hedit, -⟩ := hb.foldWith apply hh ht
      exact hedit.changes
  | _ => exact absurd hop id

/-- **Isolation**: where no owner is missing from the counts and the links form no circle, linking or folding
    through one handle leaves every other handle bound as it was, and every vertex that was reached from it
    with its payload and its links. -/
theorem edits_isolated (hc : s.store.Closed) (ha : s.store.Acyclic) (hle : s.store.Covered)
    (hop : op.Edits g) (hne : h ≠ g) (hh : s.store.target? h = some v) (hw : s.store.Reaches v w) :
    (s.perform apply op).2.store.target? h = some v
      ∧ ∃ x n, s.store.vertex? w = some x
        ∧ (s.perform apply op).2.store.vertex? w = some { x with owners := n } := by
  have hb := Store.Balanced.of_covered hc ha hle
  have hchg := changesOnly_of_edits apply hb hop
  have hother : Place.handle h ∉ ({.handle g} : Set Place) := by simp [hne]
  have hheld : s.store.Held s.store.surplus {.handle g} w := (Store.Held.handle hother hh).reaches hw
  obtain ⟨x, hx⟩ := hb.held hheld
  obtain ⟨n, hn⟩ := hchg.same hheld hx fun i => by simp
  exact ⟨(hchg.handle h hother).trans hh, x, n, hx, hn⟩

theorem edits_isolated_doubled :
    doubled.store.Covered ∧ (Operation.fold 0 true).Edits 0 ∧ (1 : Handle) ≠ 0
      ∧ doubled.store.target? 1 = some 0 ∧ doubled.store.Reaches 0 0
      ∧ ∃ x n, doubled.store.vertex? 0 = some x
        ∧ (doubled.perform (fun _ _ => .error (.raised "boom")) (.fold 0 true)).2.store.vertex? 0
          = some { x with owners := n } := by
  have hle : doubled.store.Covered := Store.exact_doubled.covered
  have hop : (Operation.fold 0 true).Edits 0 := rfl
  have hne : (1 : Handle) ≠ 0 := by decide
  have hh : doubled.store.target? 1 = some 0 := rfl
  exact ⟨hle, hop, hne, hh, .refl,
    (edits_isolated _ Store.closed_doubled Store.acyclic_doubled hle hop hne hh .refl).2⟩

end Session

end ExprGraph

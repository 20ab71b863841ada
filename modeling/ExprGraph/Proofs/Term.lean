import ExprGraph.Payload
import Mathlib.Data.List.Forall2
/-!
  Terms: trees as values.

  A term is a tree without vertices, handles and owners: a payload and, once it was linked, the terms of
  its children in order.  What the operations on a store of vertices do to the trees in it is said with
  terms; a term never changes, and nothing is shared.

    * `Term.result`      a value for every term from those of its operands, or the first error;
    * `Term.postOrder`   the occurrences below a term, operands first;
    * `Term.deepCopy`    the term with its payloads copied.
-/

namespace ExprGraph

theorem Payload.isOperator_iff {p : Payload} : p.isOperator = true ↔ ∃ f, p = .op f := by
  cases p <;> simp [isOperator]

/-- A tree as a value. -/
inductive Term where
  /-- a vertex that was never linked -/
  | bare (payload : Payload)
  /-- a vertex linked to children, possibly to none -/
  | linked (payload : Payload) (children : List Term)

namespace Term

/-- What the root holds. -/
def payload : Term → Payload
  | bare p => p
  | linked p _ => p

/-- The children of the root, once it has been linked. -/
def links : Term → Option (List Term)
  | bare _ => none
  | linked _ ts => some ts

/-- The children of the root, none when it was never linked. -/
def children (t : Term) : List Term := t.links.getD []

/-- **The operands of the root**: the children of an operator. -/
def operands (t : Term) : List Term := if t.payload.isOperator then t.children else []

/-- A root with a payload and links. -/
def make (p : Payload) : Option (List Term) → Term
  | none => .bare p
  | some ts => .linked p ts

@[simp] theorem payload_make (p : Payload) (ts : Option (List Term)) : (make p ts).payload = p := by
  cases ts <;> rfl

@[simp] theorem links_make (p : Payload) (ts : Option (List Term)) : (make p ts).links = ts := by
  cases ts <;> rfl

/-- A term is its payload and its links. -/
theorem eq_of_payload_of_links {t u : Term} (hp : t.payload = u.payload) (hl : t.links = u.links) :
    t = u := by
  cases t <;> cases u <;> simp_all [payload, links]

theorem mem_children_of_mem_operands {t u : Term} (h : u ∈ t.operands) : u ∈ t.children := by
  unfold operands at h
  split at h
  · exact h
  · exact absurd h List.not_mem_nil

/-- Induction on terms: a property passes from all children of a term to the term. -/
@[elab_as_elim, induction_eliminator]
theorem induct {motive : Term → Prop}
    (step : ∀ t, (∀ u ∈ t.children, motive u) → motive t) (t : Term) : motive t :=
  @Term.rec motive (fun ts => ∀ t ∈ ts, motive t)
    (fun p => step (.bare p) fun u hu => absurd hu List.not_mem_nil)
    (fun p ts ih => step (.linked p ts) ih)
    (fun t ht => absurd ht List.not_mem_nil)
    (fun t ts ht hts u hu => by
      rcases List.mem_cons.mp hu with rfl | hu
      · exact ht
      · exact hts u hu) t

/-! ## Height -/

mutual

/-- The number of terms on the longest way down, inert children included. -/
def height : Term → Nat
  | bare _ => 1
  | linked _ ts => heightAll ts + 1

/-- The greatest height of a list of terms. -/
def heightAll : List Term → Nat
  | [] => 0
  | t :: ts => max t.height (heightAll ts)

end

theorem height_le_heightAll {t : Term} : ∀ {ts : List Term}, t ∈ ts → t.height ≤ heightAll ts
  | u :: us, h => by
    simp only [heightAll]
    rcases List.mem_cons.mp h with rfl | h
    · exact Nat.le_max_left _ _
    · exact Nat.le_trans (height_le_heightAll h) (Nat.le_max_right _ _)

theorem height_eq (t : Term) : t.height = heightAll t.children + 1 := by
  cases t <;> rfl

/-- **A child is lower than its parent.** -/
theorem height_lt {t u : Term} (h : u ∈ t.children) : u.height < t.height := by
  have hle := height_le_heightAll h
  rw [height_eq t]
  omega

theorem height_pos (t : Term) : 0 < t.height := by
  rw [height_eq]
  omega

/-- One term of a list reaches up to the greatest height. -/
theorem exists_mem_of_le_heightAll {ts : List Term} {k : Nat} (hpos : 0 < k)
    (hk : k ≤ heightAll ts) : ∃ t ∈ ts, k ≤ t.height := by
  induction ts with
  | nil => simp only [heightAll] at hk; omega
  | cons t ts ih =>
    simp only [heightAll] at hk
    rcases (show k ≤ t.height ∨ k ≤ heightAll ts by omega) with h | h
    · exact ⟨t, List.mem_cons_self, h⟩
    · obtain ⟨u, hu, huk⟩ := ih h
      exact ⟨u, List.mem_cons_of_mem _ hu, huk⟩

/-! ## Results from the operands up -/

section Result

variable {ε α : Type} (node : Payload → List α → Except ε α)

mutual

/-- **The result of a term**: that of its payload on the results of its operands, which are computed from
    left to right, or the first error. -/
def result : Term → Except ε α
  | bare p => node p []
  | linked p ts => if p.isOperator then (resultAll ts).bind (node p) else node p []

/-- The results of a list of terms, or the first error. -/
def resultAll : List Term → Except ε (List α)
  | [] => .ok []
  | t :: ts => (result t).bind fun a => (resultAll ts).map fun as => a :: as

end

theorem resultAll_eq_mapM (ts : List Term) : resultAll node ts = ts.mapM (result node) := by
  induction ts with
  | nil => rfl
  | cons t ts ih =>
    rw [resultAll, ih, List.mapM_cons]
    cases result node t with
    | error e => rfl
    | ok a => cases ts.mapM (result node) <;> rfl

/-- The result of a term by that of its operands. -/
theorem result_eq (t : Term) :
    t.result node = (t.operands.mapM (result node)).bind (node t.payload) := by
  cases t with
  | bare p => cases p <;> rfl
  | linked p ts =>
    rw [result, resultAll_eq_mapM]
    cases p <;> rfl

end Result

/-! ## Occurrences -/

mutual

/-- **The occurrences below a term in post-order**, the term itself last; inert children do not count. -/
def postOrder : Term → List Term
  | bare p => [.bare p]
  | linked p ts => (if p.isOperator then postOrderAll ts else []) ++ [.linked p ts]

/-- The occurrences below several terms. -/
def postOrderAll : List Term → List Term
  | [] => []
  | t :: ts => t.postOrder ++ postOrderAll ts

end

theorem postOrderAll_eq_flatMap (ts : List Term) : postOrderAll ts = ts.flatMap postOrder := by
  induction ts with
  | nil => rfl
  | cons t ts ih => rw [postOrderAll, ih, List.flatMap_cons]

/-- The occurrences below a term by those below its operands. -/
theorem postOrder_eq (t : Term) : t.postOrder = t.operands.flatMap postOrder ++ [t] := by
  cases t with
  | bare p => cases p <;> rfl
  | linked p ts =>
    rw [postOrder, postOrderAll_eq_flatMap]
    cases p <;> rfl

theorem self_mem_postOrder (t : Term) : t ∈ t.postOrder := by
  rw [postOrder_eq]
  exact List.mem_append_right _ List.mem_cons_self

theorem mem_postOrder_of_operand {t u c : Term} (hu : u ∈ t.operands) (hc : c ∈ u.postOrder) :
    c ∈ t.postOrder := by
  rw [postOrder_eq]
  exact List.mem_append_left _ (List.mem_flatMap.mpr ⟨u, hu, hc⟩)

/-- What occurs below an occurrence occurs below the term. -/
theorem mem_postOrder_trans {t u c : Term} (hu : u ∈ t.postOrder) (hc : c ∈ u.postOrder) :
    c ∈ t.postOrder := by
  induction t with
  | step t ih =>
    rw [postOrder_eq] at hu
    rcases List.mem_append.mp hu with hu | hu
    · obtain ⟨d, hd, hud⟩ := List.mem_flatMap.mp hu
      exact mem_postOrder_of_operand hd (ih d (mem_children_of_mem_operands hd) hud)
    · rwa [List.mem_singleton.mp hu] at hc

/-! ## Copies -/

mutual

/-- **The term with every payload copied**; inert children are copied too. -/
def deepCopy (fresh : Nat) : Term → Term
  | bare p => .bare (p.deepCopy fresh)
  | linked p ts => .linked (p.deepCopy fresh) (deepCopyAll fresh ts)

/-- Copies of several terms. -/
def deepCopyAll (fresh : Nat) : List Term → List Term
  | [] => []
  | t :: ts => t.deepCopy fresh :: deepCopyAll fresh ts

end

theorem deepCopyAll_eq_map (fresh : Nat) (ts : List Term) :
    deepCopyAll fresh ts = ts.map (deepCopy fresh) := by
  induction ts with
  | nil => rfl
  | cons t ts ih => rw [deepCopyAll, ih, List.map_cons]

/-- The copy of a term by those of its children. -/
theorem deepCopy_eq (fresh : Nat) (t : Term) :
    t.deepCopy fresh = make (t.payload.deepCopy fresh) (t.links.map (List.map (deepCopy fresh))) := by
  cases t with
  | bare p => rfl
  | linked p ts =>
    rw [deepCopy, deepCopyAll_eq_map]
    rfl

mutual

/-- A number above those of all copies of functions in the term. -/
def nextCopy : Term → Nat
  | bare p => p.nextCopy
  | linked p ts => max p.nextCopy (nextCopyAll ts)

/-- A number above those of all copies of functions in several terms. -/
def nextCopyAll : List Term → Nat
  | [] => 0
  | t :: ts => max t.nextCopy (nextCopyAll ts)

end

theorem nextCopyAll_le {ts : List Term} {n : Nat} (h : ∀ t ∈ ts, t.nextCopy ≤ n) : nextCopyAll ts ≤ n := by
  induction ts with
  | nil => exact Nat.zero_le n
  | cons t ts ih =>
    obtain ⟨ht, hts⟩ := List.forall_mem_cons.mp h
    exact Nat.max_le.mpr ⟨ht, ih hts⟩

theorem nextCopy_le {t : Term} {n : Nat} (hp : t.payload.nextCopy ≤ n)
    (hc : ∀ u ∈ t.children, u.nextCopy ≤ n) : t.nextCopy ≤ n := by
  cases t with
  | bare p => exact hp
  | linked p ts => exact Nat.max_le.mpr ⟨hp, nextCopyAll_le hc⟩

end Term

end ExprGraph

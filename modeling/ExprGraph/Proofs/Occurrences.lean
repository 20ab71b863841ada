import ExprGraph.Proofs.Pointwise
import ExprGraph.Proofs.Term
/-!
  Occurrences by their addresses.

  The address of an occurrence is the way down to it, the place of an operand for each level.  Listed in
  post-order, the addresses of a term run along its occurrences (`Term.addresses_postOrder`).  When the first
  `n` of them are done with, some subtrees are completed and others are not; the greatest that are, those whose
  parents are not, are `t.completed n`.

  Main statements: these subtrees stand from left to right (`Term.completed_sorted`), and when an occurrence
  comes next, the last of them are its operands (`Term.completed_operands`).

    * recursion  the addresses below the operands, one block for each, then the root;
    * blocks     what is completed in one block does not depend on the others (`Term.completedFrom_cons`);
    * the root   nothing else is left once it is completed (`Term.completed_of_le`).
-/

namespace ExprGraph

namespace Term

variable {t u c : Term} {us : List Term} {a b : List Nat} {as bs : List (List Nat)} {i k n : Nat}

/-! ## Addresses -/

/-- **The occurrence at an address**, if there is one; operands count, inert children do not. -/
def at? (t : Term) : List Nat → Option Term
  | [] => some t
  | i :: a => t.operands[i]?.bind fun u => u.at? a

/-- An address read in two parts. -/
theorem at?_append (t : Term) (a b : List Nat) : t.at? (a ++ b) = (t.at? a).bind fun u => u.at? b := by
  induction a generalizing t with
  | nil => rfl
  | cons i a ih =>
    rw [List.cons_append, at?, at?]
    cases t.operands[i]? with
    | none => rfl
    | some u => exact ih u

/-- The occurrence at an address below several terms, the first of which stands at place `k`. -/
inductive IsAt : Nat → List Term → List Nat → Term → Prop where
  /-- below the first term -/
  | here {k : Nat} {b : List Nat} {c u : Term} {us : List Term} (h : c.at? b = some u) :
      IsAt k (c :: us) (k :: b) u
  /-- below one of the others -/
  | later {k : Nat} {a : List Nat} {c u : Term} {us : List Term} (h : IsAt (k + 1) us a u) :
      IsAt k (c :: us) a u

theorem isAt_iff :
    IsAt k us a u ↔ ∃ i b c, a = (k + i) :: b ∧ us[i]? = some c ∧ c.at? b = some u := by
  constructor
  · intro h
    induction h with
    | here h => exact ⟨0, _, _, rfl, rfl, h⟩
    | later _ ih =>
      obtain ⟨i, b, c, rfl, hc, hb⟩ := ih
      exact ⟨i + 1, b, c, by rw [Nat.add_right_comm, Nat.add_assoc], hc, hb⟩
  · rintro ⟨i, b, c, rfl, hc, hb⟩
    induction us generalizing i k with
    | nil => cases hc
    | cons d us ih =>
      cases i with
      | zero =>
        obtain rfl := Option.some.inj hc
        exact .here hb
      | succ i =>
        have hlater := ih (k := k + 1) i hc
        rw [Nat.add_right_comm, Nat.add_assoc] at hlater
        exact .later hlater

/-- What is at an address below the operands of a term is there below the term. -/
theorem isAt_operands_iff : IsAt 0 t.operands a u ↔ a ≠ [] ∧ t.at? a = some u := by
  rw [isAt_iff]
  constructor
  · rintro ⟨i, b, c, rfl, hc, hb⟩
    rw [Nat.zero_add, at?, hc]
    exact ⟨List.cons_ne_nil i b, hb⟩
  · rintro ⟨hne, ha⟩
    obtain ⟨i, b, rfl⟩ := List.exists_cons_of_ne_nil hne
    obtain ⟨c, hc, hb⟩ := Option.bind_eq_some_iff.mp ha
    exact ⟨i, b, c, by rw [Nat.zero_add], hc, hb⟩

/-! ## Their list -/

mutual

/-- **The addresses of the occurrences below a term in post-order**, that of the term itself last. -/
def addresses : Term → List (List Nat)
  | bare _ => [[]]
  | linked p ts => (if p.isOperator then addressesFrom 0 ts else []) ++ [[]]

/-- The addresses below several terms, the first of which stands at place `k`. -/
def addressesFrom (k : Nat) : List Term → List (List Nat)
  | [] => []
  | t :: ts => t.addresses.map (k :: ·) ++ addressesFrom (k + 1) ts

end

/-- The addresses below a term by those below its operands. -/
theorem addresses_eq (t : Term) : t.addresses = addressesFrom 0 t.operands ++ [[]] := by
  cases t with
  | bare p => cases p <;> rfl
  | linked p ts => cases p <;> rfl

theorem addressesFrom_postOrder (k : Nat)
    (h : ∀ c ∈ us, List.Forall₂ (fun a u => c.at? a = some u) c.addresses c.postOrder) :
    List.Forall₂ (IsAt k us) (addressesFrom k us) (us.flatMap postOrder) := by
  induction us generalizing k with
  | nil => exact .nil
  | cons c us ih =>
    obtain ⟨hc, hus⟩ := List.forall_mem_cons.mp h
    rw [addressesFrom, List.flatMap_cons]
    exact List.rel_append (List.forall₂_map_left_iff.mpr (hc.imp fun _ _ => .here))
      ((ih (k + 1) hus).imp fun _ _ => .later)

/-- **The addresses run along the occurrences.** -/
theorem addresses_postOrder (t : Term) : List.Forall₂ (fun a u => t.at? a = some u) t.addresses t.postOrder := by
  induction t with
  | step t ih =>
    rw [addresses_eq, postOrder_eq]
    have hops := addressesFrom_postOrder 0 fun c hc => ih c (mem_children_of_mem_operands hc)
    exact List.rel_append (hops.imp fun _ _ h => (isAt_operands_iff.mp h).2) (.cons rfl .nil)

theorem length_addresses (t : Term) : t.addresses.length = t.postOrder.length :=
  t.addresses_postOrder.length_eq

theorem isAt_of_mem (ha : a ∈ addressesFrom k us) : ∃ u, IsAt k us a u := by
  obtain ⟨u, -, hu⟩ :=
    Pointwise.exists_right (addressesFrom_postOrder k fun c _ => c.addresses_postOrder) ha
  exact ⟨u, hu⟩

theorem length_addressesFrom (k : Nat) (us : List Term) :
    (addressesFrom k us).length = (us.flatMap postOrder).length :=
  (addressesFrom_postOrder k fun c _ => c.addresses_postOrder).length_eq

/-- Addresses below several terms begin with the place of one of them. -/
theorem exists_cons_of_mem (ha : a ∈ addressesFrom k us) : ∃ j b, a = j :: b ∧ k ≤ j := by
  obtain ⟨u, hu⟩ := isAt_of_mem ha
  obtain ⟨i, b, -, rfl, -⟩ := isAt_iff.mp hu
  exact ⟨k + i, b, rfl, Nat.le_add_right k i⟩

theorem mem_addressesFrom (hc : us[i]? = some c) (hb : b ∈ c.addresses) :
    (k + i) :: b ∈ addressesFrom k us := by
  induction us generalizing i k with
  | nil => cases hc
  | cons u us ih =>
    rw [addressesFrom]
    cases i with
    | zero =>
      obtain rfl := Option.some.inj hc
      exact List.mem_append_left _ (List.mem_map.mpr ⟨b, hb, rfl⟩)
    | succ i =>
      have hmem := ih (k := k + 1) hc
      rw [Nat.add_right_comm, Nat.add_assoc] at hmem
      exact List.mem_append_right _ hmem

/-- What occurs has a listed address. -/
theorem mem_addresses (ha : t.at? a = some u) : a ∈ t.addresses := by
  induction a generalizing t with
  | nil =>
    rw [addresses_eq]
    exact List.mem_append_right _ List.mem_cons_self
  | cons i a ih =>
    obtain ⟨c, hc, hu⟩ := Option.bind_eq_some_iff.mp ha
    have hmem := mem_addressesFrom (k := 0) hc (ih hu)
    rw [Nat.zero_add] at hmem
    rw [addresses_eq]
    exact List.mem_append_left _ hmem

/-- The parent of an occurrence occurs. -/
theorem dropLast_mem_addresses (ha : a ∈ t.addresses) : a.dropLast ∈ t.addresses := by
  obtain ⟨u, -, hu⟩ := Pointwise.exists_right t.addresses_postOrder ha
  rcases List.eq_nil_or_concat a with rfl | ⟨a, i, rfl⟩
  · exact ha
  · rw [List.concat_eq_append, at?_append] at hu
    obtain ⟨c, hc, -⟩ := Option.bind_eq_some_iff.mp hu
    rw [List.concat_eq_append, List.dropLast_concat]
    exact mem_addresses hc

/-! ## The greatest subtrees -/

/-- An address is a topmost one unless its parent is among the addresses. -/
def isTopmost (as : List (List Nat)) (a : List Nat) : Bool := a.isEmpty || !as.contains a.dropLast

/-- The topmost of some addresses. -/
def topmost (as : List (List Nat)) : List (List Nat) := as.filter (isTopmost as)

/-- **The greatest subtrees completed** after `n` occurrences, from left to right. -/
def completed (t : Term) (n : Nat) : List (List Nat) := topmost (t.addresses.take n)

/-- Those completed below several terms after `n` occurrences. -/
def completedFrom (k : Nat) (us : List Term) (n : Nat) : List (List Nat) :=
  topmost ((addressesFrom k us).take n)

theorem isTopmost_cons_cons {j : Nat} : isTopmost as (k :: j :: b) = !as.contains (k :: (j :: b).dropLast) := rfl

theorem isTopmost_singleton (h : [] ∉ as) : isTopmost as [k] = true := by
  show (!as.contains []) = true
  simpa using h

/-- **What is topmost in one block does not depend on the blocks after it.** -/
theorem topmost_block (hbs : ∀ a ∈ bs, ∃ j b, a = j :: b ∧ k < j) :
    topmost (as.map (k :: ·) ++ bs) = (topmost as).map (k :: ·) ++ topmost bs := by
  have hnone : [] ∉ bs := by
    intro h
    obtain ⟨j, b, h, -⟩ := hbs [] h
    cases h
  have hnil : [] ∉ as.map (k :: ·) ++ bs := by
    simp [hnone]
  have hother : ∀ b, k :: b ∉ bs := by
    intro b h
    obtain ⟨j, b', h, hj⟩ := hbs _ h
    exact absurd (List.cons.inj h).1 (Nat.ne_of_lt hj)
  rw [topmost, List.filter_append, List.filter_map]
  congr 1
  · refine congrArg (List.map (k :: ·)) (List.filter_congr fun a _ => ?_)
    cases a with
    | nil => exact isTopmost_singleton hnil
    | cons j b =>
      show isTopmost _ (k :: j :: b) = !as.contains (j :: b).dropLast
      rw [isTopmost_cons_cons, Bool.eq_iff_iff]
      simp [hother]
  · refine List.filter_congr fun a ha => ?_
    obtain ⟨j, b, rfl, hj⟩ := hbs a ha
    cases b with
    | nil => rw [isTopmost_singleton hnil, isTopmost_singleton hnone]
    | cons i b =>
      rw [isTopmost_cons_cons, isTopmost_cons_cons, Bool.eq_iff_iff]
      simp [Nat.ne_of_lt hj]

/-- **What is completed below several terms** is completed below the first of them or below the others. -/
theorem completedFrom_cons (k : Nat) (u : Term) (us : List Term) (n : Nat) :
    completedFrom k (u :: us) n
      = (u.completed n).map (k :: ·) ++ completedFrom (k + 1) us (n - u.postOrder.length) := by
  rw [completedFrom, addressesFrom, List.take_append, List.length_map, length_addresses, ← List.map_take]
  exact topmost_block fun a ha => exists_cons_of_mem (List.mem_of_mem_take ha)

theorem completedFrom_nil (k n : Nat) : completedFrom k [] n = [] := by
  rw [completedFrom, addressesFrom, List.take_nil]
  rfl

theorem completedFrom_zero (k : Nat) (us : List Term) : completedFrom k us 0 = [] := rfl

/-- Before the root is completed, what is completed is below its operands. -/
theorem completed_of_lt (hn : n < t.postOrder.length) : t.completed n = completedFrom 0 t.operands n := by
  rw [postOrder_eq, List.length_append, List.length_singleton, ← length_addressesFrom 0] at hn
  rw [completed, completedFrom, addresses_eq, List.take_append_of_le_length (Nat.le_of_lt_succ hn)]

/-- Once the root is completed, it is the greatest. -/
theorem completed_of_le (hn : t.postOrder.length ≤ n) : t.completed n = [[]] := by
  have hall : t.addresses.take n = t.addresses := List.take_of_length_le (by rwa [length_addresses])
  have hbelow : (addressesFrom 0 t.operands).filter (isTopmost t.addresses) = [] := by
    refine List.filter_eq_nil_iff.mpr fun a ha => ?_
    obtain ⟨j, b, rfl, -⟩ := exists_cons_of_mem ha
    have hmem : j :: b ∈ t.addresses := by
      rw [addresses_eq]
      exact List.mem_append_left _ ha
    simp [isTopmost, dropLast_mem_addresses hmem]
  rw [completed, hall, topmost]
  nth_rewrite 2 [addresses_eq]
  rw [List.filter_append, hbelow]
  rfl

/-- When all occurrences below several terms are done with, just these terms are completed. -/
theorem completedFrom_of_le (hn : (us.flatMap postOrder).length ≤ n) :
    completedFrom k us n = (List.range us.length).map fun i => [k + i] := by
  induction us generalizing k n with
  | nil => exact completedFrom_nil k n
  | cons u us ih =>
    rw [List.flatMap_cons, List.length_append] at hn
    have hplaces : (List.range (us.length + 1)).map (fun i => [k + i])
        = [k] :: (List.range us.length).map fun i => [k + 1 + i] := by
      rw [List.range_succ_eq_map, List.map_cons, List.map_map]
      refine congrArg _ (List.map_congr_left fun i _ => ?_)
      show [k + (i + 1)] = [k + 1 + i]
      rw [Nat.add_right_comm, Nat.add_assoc]
    rw [completedFrom_cons, completed_of_le (by omega), ih (by omega), List.length_cons, hplaces]
    rfl

/-- The operands of the next occurrence below several terms, when it is so below each of them. -/
theorem completedFrom_operands
    (ih : ∀ c ∈ us, ∀ n b, c.addresses[n]? = some b → c.at? b = some u →
      ∃ front, c.completed n = front ++ (List.range u.operands.length).map fun i => b ++ [i])
    (ha : (addressesFrom k us)[n]? = some a) (hat : IsAt k us a u) :
    ∃ front, completedFrom k us n = front ++ (List.range u.operands.length).map fun i => a ++ [i] := by
  induction us generalizing k n with
  | nil => cases hat
  | cons c us ihs =>
    rw [completedFrom_cons]
    rw [addressesFrom] at ha
    obtain ⟨ihc, ihus⟩ := List.forall_mem_cons.mp ih
    have hlen : (c.addresses.map (k :: ·)).length = c.postOrder.length := by
      rw [List.length_map, length_addresses]
    rcases Nat.lt_or_ge n c.postOrder.length with hn | hn
    · -- the next occurrence is in this block, and the blocks after it are not begun
      rw [List.getElem?_append_left (by omega), List.getElem?_map] at ha
      obtain ⟨b, hb, rfl⟩ := Option.map_eq_some_iff.mp ha
      obtain ⟨i, b', c', heq, hc', hb'⟩ := isAt_iff.mp hat
      obtain ⟨hi, rfl⟩ := List.cons.inj heq
      obtain rfl : i = 0 := by omega
      obtain rfl := Option.some.inj hc'
      obtain ⟨front, hfront⟩ := ihc n b hb hb'
      refine ⟨front.map (k :: ·), ?_⟩
      rw [Nat.sub_eq_zero_of_le (Nat.le_of_lt hn), completedFrom_zero, hfront, List.append_nil,
        List.map_append, List.map_map]
      rfl
    · -- the block is done with
      rw [List.getElem?_append_right (by omega), hlen] at ha
      have hlater : IsAt (k + 1) us a u := by
        cases hat with
        | here =>
          obtain ⟨j, b, heq, hj⟩ := exists_cons_of_mem (List.mem_of_getElem? ha)
          have hkj := (List.cons.inj heq).1
          omega
        | later h => exact h
      obtain ⟨front, hfront⟩ := ihs ihus ha hlater
      exact ⟨_ ++ front, by rw [hfront, List.append_assoc]⟩

/-- **When an occurrence comes next, its operands are completed, and they are the last that are.** -/
theorem completed_operands (ha : t.addresses[n]? = some a) (hu : t.at? a = some u) :
    ∃ front, t.completed n = front ++ (List.range u.operands.length).map fun i => a ++ [i] := by
  induction t generalizing n a with
  | step t ih =>
    have hlen := (List.getElem?_eq_some_iff.mp ha).1
    rw [length_addresses] at hlen
    rw [completed_of_lt hlen]
    rw [addresses_eq] at ha
    rcases Nat.lt_or_ge n (addressesFrom 0 t.operands).length with hn | hn
    · rw [List.getElem?_append_left hn] at ha
      obtain ⟨j, b, rfl, -⟩ := exists_cons_of_mem (List.mem_of_getElem? ha)
      have hat := isAt_operands_iff.mpr ⟨List.cons_ne_nil j b, hu⟩
      refine completedFrom_operands (fun c hc n b hb hbu => ?_) ha hat
      exact ih c (mem_children_of_mem_operands hc) hb hbu
    · -- the root comes next, and all below its operands is done with
      rw [List.getElem?_append_right hn] at ha
      obtain rfl := List.mem_singleton.mp (List.mem_of_getElem? ha)
      obtain rfl := Option.some.inj hu
      rw [length_addressesFrom] at hn
      rw [completedFrom_of_le hn]
      exact ⟨[], List.map_congr_left fun i _ => by rw [Nat.zero_add]; rfl⟩

/-! ## Their order -/

theorem completedFrom_sorted (ih : ∀ c ∈ us, ∀ n, (c.completed n).Pairwise (· < ·)) (k n : Nat) :
    (completedFrom k us n).Pairwise (· < ·) := by
  induction us generalizing k n with
  | nil =>
    rw [completedFrom_nil]
    exact .nil
  | cons c us ihs =>
    obtain ⟨ihc, ihus⟩ := List.forall_mem_cons.mp ih
    rw [completedFrom_cons, List.pairwise_append]
    refine ⟨?_, ihs ihus (k + 1) _, ?_⟩
    · exact List.pairwise_map.mpr ((ihc n).imp fun h => List.cons_lt_cons_self.mpr h)
    · intro a ha a' ha'
      obtain ⟨b, -, rfl⟩ := List.mem_map.mp ha
      obtain ⟨j, b', rfl, hj⟩ := exists_cons_of_mem (List.mem_of_mem_take (List.mem_of_mem_filter ha'))
      exact .rel hj

/-- **The greatest completed subtrees stand from left to right.** -/
theorem completed_sorted (t : Term) (n : Nat) : (t.completed n).Pairwise (· < ·) := by
  induction t generalizing n with
  | step t ih =>
    rcases Nat.lt_or_ge n t.postOrder.length with hn | hn
    · rw [completed_of_lt hn]
      exact completedFrom_sorted (fun c hc n => ih c (mem_children_of_mem_operands hc) n) 0 n
    · rw [completed_of_le hn]
      exact List.pairwise_singleton _ _

end Term

end ExprGraph

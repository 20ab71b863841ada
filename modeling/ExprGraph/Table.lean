/-!
  Tables with names as keys.

  A table keeps one entry for each name, in the order in which the names were first put.  Putting under a
  name that is there replaces its entry in place.
-/

namespace ExprGraph

/-- Entries under names. -/
abbrev Table (α : Type) := List (String × α)

namespace Table

variable {α : Type}

/-- The entry under a name. -/
def find? (t : Table α) (name : String) : Option α := t.lookup name

/-- Puts an entry under a name. -/
def put (name : String) (a : α) : Table α → Table α
  | [] => [(name, a)]
  | (other, b) :: rest => if other = name then (name, a) :: rest else (other, b) :: put name a rest

/-- Takes the entry under a name out. -/
def remove (t : Table α) (name : String) : Table α := t.filter fun e => e.1 != name

/-- The names in code point order. -/
def sortNames (names : List String) : List String := names.mergeSort fun a b => decide (a ≤ b)

/-- The entries in the order of their names. -/
def sorted (t : Table α) : Table α := t.mergeSort fun a b => decide (a.1 ≤ b.1)

/-- **What was put is found.** -/
theorem find?_put_self (t : Table α) (name : String) (a : α) : (t.put name a).find? name = some a := by
  induction t with
  | nil => simp [put, find?]
  | cons e rest ih =>
    obtain ⟨other, b⟩ := e
    by_cases h : other = name
    · simp [put, find?, h]
    · have h' : (name == other) = false := by simpa using fun e => h e.symm
      simpa [put, find?, h, List.lookup_cons, h'] using ih

/-- **Other names are not touched.** -/
theorem find?_put_of_ne (t : Table α) {name key : String} (a : α) (h : key ≠ name) :
    (t.put name a).find? key = t.find? key := by
  have hk : (key == name) = false := by simpa using h
  induction t with
  | nil => simp [put, find?, List.lookup_cons, hk]
  | cons e rest ih =>
    obtain ⟨other, b⟩ := e
    by_cases ho : other = name
    · subst ho
      simp [put, find?, List.lookup_cons, hk]
    · simp only [put, if_neg ho, find?, List.lookup_cons] at ih ⊢
      rw [ih]

/-- Putting brings in one entry. -/
theorem mem_put (t : Table α) {name : String} {a : α} {e : String × α} (he : e ∈ t.put name a) :
    e = (name, a) ∨ e ∈ t := by
  induction t with
  | nil => exact .inl (List.mem_singleton.mp he)
  | cons o rest ih =>
    obtain ⟨other, b⟩ := o
    unfold put at he
    split at he
    · rcases List.mem_cons.mp he with rfl | he
      · exact .inl rfl
      · exact .inr (List.mem_cons_of_mem _ he)
    · rcases List.mem_cons.mp he with rfl | he
      · exact .inr List.mem_cons_self
      · exact (ih he).imp_right (List.mem_cons_of_mem _)

end Table

end ExprGraph

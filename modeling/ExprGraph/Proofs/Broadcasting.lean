import ExprGraph.Proofs.Vectorised
/-!
  Arrays of any two shapes under the protected functions.

  Main statement: protected division of two values fails exactly when their shapes do not meet; otherwise it
  has at every index of the met shape the quotient of the two elements that the index selects, and the
  protected logarithm works element by element in the shape of its argument (`Value.protected_pointwise`).

    * axes       shapes and indices seen from the last axis, where they are aligned (`Shape.axis`,
                 `Shape.place`); which shapes meet, in which shape, and what an index of it selects
    * numbers    the row-major number of an index is its place among all indices (`Shape.getElem?_indices`)
    * grids      a function of two cells at an index (`Grid.get_pointwise`)
    * values     doubles made of elements (`Value.element_toDoubles`)
-/

namespace ExprGraph

namespace Shape

variable {s t r : Shape} {ix i : List Nat} {k m n : Nat}

/-! ## Axes -/

/-- **The length of an axis**, counted from the last one.  In front of the first axis all lengths are one. -/
def axis (s : Shape) (k : Nat) : Nat := s.reverse.getD k 1

/-- The place of an index on an axis, counted from the last one. -/
def place (ix : List Nat) (k : Nat) : Nat := ix.reverse.getD k 0

/-- An index of a shape has a place on every axis. -/
def IsIndex (s : Shape) (ix : List Nat) : Prop := List.Forall₂ (· < ·) ix s

/-- **Two shapes are compatible** when the lengths of any two aligned axes are equal or one of them is one. -/
def Compatible (s t : Shape) : Prop := ∀ k, s.axis k = t.axis k ∨ s.axis k = 1 ∨ t.axis k = 1

/-- **The shape in which compatible shapes meet.**  It has the axes of both, and an axis of length one is
    stretched to the other. -/
structure Meets (s t r : Shape) : Prop where
  compatible : s.Compatible t
  length : r.length = max s.length t.length
  axis : ∀ k, r.axis k = if s.axis k = 1 then t.axis k else s.axis k

/-- **What an index of a stretched shape selects**: the same place on every axis, except on those of length
    one, where it is the only one. -/
structure Selects (s : Shape) (ix i : List Nat) : Prop where
  length : i.length = s.length
  place : ∀ k, place i k = if s.axis k = 1 then 0 else place ix k

theorem Meets.symm (h : s.Meets t r) : t.Meets s r where
  compatible k := by
    have hk := h.compatible k
    omega
  length := by rw [h.length, Nat.max_comm]
  axis k := by
    have hk := h.compatible k
    rw [h.axis]
    split <;> split <;> omega

/-- Shapes with the same axes are the same. -/
theorem eq_of_axis {q : Shape} (hlen : q.length = r.length) (h : ∀ k, q.axis k = r.axis k) : q = r := by
  refine List.reverse_injective (List.ext_getElem (by simpa using hlen) fun k hq hr => ?_)
  have hk := h k
  simpa only [axis, List.getD_eq_getElem?_getD, List.getElem?_eq_getElem hq, List.getElem?_eq_getElem hr,
    Option.getD_some] using hk

/-- There is one shape in which two shapes meet. -/
theorem Meets.unique {q : Shape} (h : s.Meets t q) (h' : s.Meets t r) : q = r :=
  eq_of_axis (h.length.trans h'.length.symm) fun k => (h.axis k).trans (h'.axis k).symm

/-! ### Shapes that meet -/

theorem meetLength_eq_some_iff :
    meetLength m n = some k ↔ (m = n ∨ m = 1 ∨ n = 1) ∧ k = if m = 1 then n else m := by
  grind [meetLength]

/-- Shapes with the last axis first meet axis by axis. -/
theorem meetReversed_spec (h : meetReversed s t = some r) :
    r.length = max s.length t.length ∧ ∀ k, (s.getD k 1 = t.getD k 1 ∨ s.getD k 1 = 1 ∨ t.getD k 1 = 1)
      ∧ r.getD k 1 = if s.getD k 1 = 1 then t.getD k 1 else s.getD k 1 := by
  induction s generalizing t r with
  | nil =>
    obtain rfl := Option.some.inj h
    exact ⟨by simp, fun k => by simp⟩
  | cons m s ih =>
    cases t with
    | nil =>
      obtain rfl := Option.some.inj h
      refine ⟨by simp, fun k => ⟨by simp, ?_⟩⟩
      split
      · next hone => rw [hone]; rfl
      · rfl
    | cons n t =>
      simp only [meetReversed] at h
      split at h
      · next l q hlength hrest =>
        obtain rfl := Option.some.inj h
        obtain ⟨hlen, haxes⟩ := ih hrest
        refine ⟨by simp only [List.length_cons, hlen]; omega, fun k => ?_⟩
        cases k with
        | zero => exact meetLength_eq_some_iff.mp hlength
        | succ k => exact haxes k
      · cases h

theorem exists_meetReversed
    (h : ∀ k, s.getD k 1 = t.getD k 1 ∨ s.getD k 1 = 1 ∨ t.getD k 1 = 1) :
    ∃ r, meetReversed s t = some r := by
  induction s generalizing t with
  | nil => exact ⟨t, rfl⟩
  | cons m s ih =>
    cases t with
    | nil => exact ⟨m :: s, rfl⟩
    | cons n t =>
      obtain ⟨r, hr⟩ := ih fun k => h (k + 1)
      have hlength : meetLength m n = some (if m = 1 then n else m) :=
        meetLength_eq_some_iff.mpr ⟨h 0, rfl⟩
      exact ⟨(if m = 1 then n else m) :: r, by simp only [meetReversed, hlength, hr]⟩

theorem meets_of_broadcast (h : s.broadcast t = some r) : s.Meets t r := by
  obtain ⟨q, hq, rfl⟩ := Option.map_eq_some_iff.mp h
  obtain ⟨hlen, haxes⟩ := meetReversed_spec hq
  refine ⟨fun k => (haxes k).1, by simpa using hlen, fun k => ?_⟩
  rw [axis, List.reverse_reverse]
  exact (haxes k).2

theorem exists_broadcast (h : s.Compatible t) : ∃ r, s.broadcast t = some r := by
  obtain ⟨q, hq⟩ := exists_meetReversed h
  exact ⟨q.reverse, by rw [broadcast, hq]; rfl⟩

/-- **Shapes meet exactly when they are compatible.** -/
theorem broadcast_eq_none_iff : s.broadcast t = none ↔ ¬ s.Compatible t := by
  constructor
  · intro hnone hcompatible
    obtain ⟨r, hr⟩ := exists_broadcast hcompatible
    rw [hnone] at hr
    cases hr
  · intro hnot
    cases hr : s.broadcast t with
    | none => rfl
    | some r => exact absurd (meets_of_broadcast hr).compatible hnot

/-! ### Indices -/

theorem forall₂_lt_iff {is ns : List Nat} :
    List.Forall₂ (· < ·) is ns ↔ is.length = ns.length ∧ ∀ k, is.getD k 0 < ns.getD k 1 := by
  induction is generalizing ns with
  | nil => cases ns <;> simp
  | cons i is ih =>
    cases ns with
    | nil => simp
    | cons n ns =>
      rw [List.forall₂_cons, ih]
      constructor
      · rintro ⟨hi, hlen, his⟩
        refine ⟨congrArg Nat.succ hlen, fun k => ?_⟩
        cases k with
        | zero => exact hi
        | succ k => exact his k
      · rintro ⟨hlen, h⟩
        exact ⟨h 0, Nat.succ.inj hlen, fun k => h (k + 1)⟩

/-- An index is below the length of every axis. -/
theorem isIndex_iff : s.IsIndex ix ↔ ix.length = s.length ∧ ∀ k, place ix k < s.axis k := by
  rw [IsIndex, ← List.forall₂_reverse_iff, forall₂_lt_iff, List.length_reverse, List.length_reverse]
  rfl

/-- **The index that is computed is the one that is selected.** -/
theorem selects_restrict (hlen : s.length ≤ ix.length) : s.Selects ix (s.restrict ix) := by
  have hdrop : (ix.drop (ix.length - s.length)).length = s.length := by
    rw [List.length_drop]
    omega
  refine ⟨by rw [restrict, List.length_zipWith, hdrop, Nat.min_self], fun k => ?_⟩
  have hplaces : (s.restrict ix).reverse
      = List.zipWith (fun n i => if n = 1 then 0 else i) s.reverse (ix.reverse.take s.length) := by
    rw [restrict, List.reverse_zipWith hdrop.symm, List.reverse_drop, Nat.sub_sub_self hlen]
  rw [place, hplaces, place, axis]
  simp only [List.getD_eq_getElem?_getD, List.getElem?_zipWith, List.getElem?_take]
  by_cases hk : k < s.length
  · have hks : k < s.reverse.length := by rwa [List.length_reverse]
    have hkix : k < ix.reverse.length := by
      rw [List.length_reverse]
      omega
    rw [if_pos hk, List.getElem?_eq_getElem hks, List.getElem?_eq_getElem hkix]
    rfl
  · have hs : s.reverse[k]? = none := List.getElem?_eq_none (by simpa using hk)
    rw [hs]
    rfl

/-- What an index of the met shape selects is an index of the shape. -/
theorem Meets.isIndex_restrict (h : s.Meets t r) (hix : r.IsIndex ix) :
    s.IsIndex (s.restrict ix) ∧ s.Selects ix (s.restrict ix) := by
  obtain ⟨hlen, hbelow⟩ := isIndex_iff.mp hix
  have hle : s.length ≤ ix.length := by
    rw [hlen, h.length]
    exact Nat.le_max_left _ _
  have hselects := selects_restrict hle
  refine ⟨isIndex_iff.mpr ⟨hselects.length, fun k => ?_⟩, hselects⟩
  have hk := hbelow k
  rw [h.axis] at hk
  rw [hselects.place]
  split at hk <;> split <;> omega

/-! ## Numbers of indices -/

/-- Blocks of one length, one after the other. -/
theorem getElem?_flatMap_range {α : Type} {f : Nat → List α} {j : Nat} (hf : ∀ i, (f i).length = m)
    (hj : j < m) {i : Nat} (hi : i < n) : ((List.range n).flatMap f)[i * m + j]? = (f i)[j]? := by
  induction n with
  | zero => omega
  | succ n ih =>
    have hfront : ((List.range n).flatMap f).length = n * m := by
      simp [List.length_flatMap, hf, List.map_const']
    rw [List.range_succ, List.flatMap_append, List.flatMap_singleton]
    rcases Nat.lt_succ_iff_lt_or_eq.mp hi with hlt | rfl
    · have hle : (i + 1) * m ≤ n * m := Nat.mul_le_mul_right m hlt
      rw [Nat.succ_mul] at hle
      rw [List.getElem?_append_left (by omega), ih hlt]
    · rw [List.getElem?_append_right (by omega), hfront, Nat.add_sub_cancel_left]

theorem offset_lt (h : s.IsIndex ix) : s.offset ix < s.volume := by
  induction h with
  | nil => exact Nat.one_pos
  | @cons i n ix s hi _ ih =>
    have hle : (i + 1) * volume s ≤ n * volume s := Nat.mul_le_mul_right _ hi
    rw [Nat.succ_mul] at hle
    rw [offset, volume]
    omega

/-- **The number of an index is its place among all indices** in row-major order. -/
theorem getElem?_indices (h : s.IsIndex ix) : s.indices[s.offset ix]? = some ix := by
  induction h with
  | nil => rfl
  | @cons i n ix s hi hix ih =>
    have hlength : ∀ i, ((indices s).map (i :: ·)).length = volume s := fun i => by
      rw [List.length_map, length_indices]
    rw [indices, offset, getElem?_flatMap_range hlength (offset_lt hix) hi, List.getElem?_map, ih]
    rfl

end Shape

/-! ## Grids -/

namespace Grid

variable {α β γ : Type} [Inhabited α] [Inhabited β] [Inhabited γ] {ix : List Nat}

theorem getElem?_offset {g : Grid α} (h : g.shape.IsIndex ix) :
    g.cells[g.shape.offset ix]? = some (g.get ix) := by
  have hlt : g.shape.offset ix < g.cells.length := by
    rw [g.length_cells]
    exact Shape.offset_lt h
  rw [get, List.getD_eq_getElem?_getD, List.getElem?_eq_getElem hlt]
  rfl

theorem get_map (f : α → β) {g : Grid α} (h : g.shape.IsIndex ix) : (g.map f).get ix = f (g.get ix) := by
  have hcell : (g.map f).cells[(g.map f).shape.offset ix]? = some (f (g.get ix)) := by
    show (g.cells.map f)[g.shape.offset ix]? = _
    rw [List.getElem?_map, getElem?_offset h]
    rfl
  exact Option.some.inj ((getElem?_offset (g := g.map f) h).symm.trans hcell)

/-- **A function of two cells, at an index of the met shape**, is the function of the cells selected. -/
theorem get_pointwise {f : α → β → γ} {a : Grid α} {b : Grid β} {g : Grid γ}
    (hg : pointwise f a b = some g) (h : g.shape.IsIndex ix) :
    g.get ix = f (a.get (a.shape.restrict ix)) (b.get (b.shape.restrict ix)) := by
  obtain ⟨r, -, rfl⟩ := Option.map_eq_some_iff.mp hg
  have hcell := getElem?_offset h
  simp only [List.getElem?_zipWith, stretch, List.getElem?_map, Shape.getElem?_indices h] at hcell
  exact (Option.some.inj hcell).symm

end Grid

/-! ## Values -/

namespace Value

variable {v : Value} {x : Grid Float} {ix : List Nat}

/-- The shape of a value; single values have no axes. -/
def shape : Value → Shape
  | array c => c.grid.shape
  | _ => []

/-- **The element of a value at an index**; a single value is its own element. -/
def element (v : Value) (ix : List Nat) : Value :=
  match v with
  | array c => cell ⟨c.kind, c.grid.get ix⟩
  | v => v

/-- The doubles of a single value are one double. -/
theorem exists_scalar_of_toDoubles (hv : v.isArray = false) (h : v.toDoubles = .ok x) :
    ∃ z, x = .scalar z := by
  cases v with
  | array c => cases hv
  | text s =>
    obtain ⟨z, -, rfl⟩ := exists_of_map_eq_ok h
    exact ⟨z, rfl⟩
  | integer n =>
    obtain ⟨c, hc, hx⟩ := exists_of_bind_eq_ok (x := Numeric.integerCell .double n) h
    obtain ⟨z, -, rfl⟩ := exists_of_map_eq_ok hc
    exact ⟨z, (Except.ok.inj hx).symm⟩
  | absent | real z | truth b | cell c => exact ⟨_, (Except.ok.inj h).symm⟩

/-- **The doubles of a value are the doubles of its elements**, in its shape. -/
theorem element_toDoubles (h : v.toDoubles = .ok x) :
    x.shape = v.shape ∧ ∀ ix, v.shape.IsIndex ix → (v.element ix).toDoubles = .ok (.scalar (x.get ix)) := by
  cases hv : v.isArray with
  | true =>
    cases v with
    | array c =>
      obtain rfl := Except.ok.inj h
      refine ⟨rfl, fun ix hix => ?_⟩
      show Except.ok (Grid.scalar (c.kind.toFloat (c.grid.get ix))) = _
      rw [← Grid.get_map c.kind.toFloat hix]
      rfl
    | integer n | real z | text s | truth b | absent | cell c => cases hv
  | false =>
    obtain ⟨z, rfl⟩ := exists_scalar_of_toDoubles hv h
    cases v with
    | array c => cases hv
    | integer n | real z | text s | truth b | absent | cell c =>
      refine ⟨rfl, fun ix hix => ?_⟩
      cases hix
      exact h

/-- **Doubles at the indices of a shape**: one free double for the shape without axes, and otherwise an array
    of exactly that shape. -/
inductive Fills (r : Shape) (p : List Nat → Float → Prop) : Value → Prop where
  | single {z : Float} (shape : r = []) (element : p [] z) : Fills r p (.real z)
  | array {g : Grid Float} (axes : r ≠ []) (shape : g.shape = r)
      (element : ∀ ix, r.IsIndex ix → p ix (g.get ix)) : Fills r p (.array (.doubles g))

theorem fills_ofDoubles {p : List Nat → Float → Prop} {g : Grid Float}
    (h : ∀ ix, g.shape.IsIndex ix → p ix (g.get ix)) : Fills g.shape p (ofDoubles g) := by
  by_cases hshape : g.shape = []
  · obtain ⟨z, rfl⟩ := Grid.eq_scalar hshape
    exact .single rfl (h [] .nil)
  · have hmany : g.scalar? = none := by
      unfold Grid.scalar?
      split
      · next hnil _ => exact absurd hnil hshape
      · rfl
    rw [ofDoubles, hmany]
    exact .array hshape rfl h

section Doubles

variable {a b : Value} {x y : Grid Float} (ha : a.toDoubles = .ok x) (hb : b.toDoubles = .ok y)

include ha hb in
/-- The quotient of values that are doubles. -/
theorem protectedDivide_eq : a.protectedDivide b
    = (orFault .shapeMismatch (Grid.pointwise Elementary.divide x y)).map ofDoubles := by
  rw [protectedDivide, ha, hb]
  rfl

include ha hb in
/-- Division fails on shapes that do not meet, and on no others. -/
theorem protectedDivide_fails_iff :
    a.protectedDivide b = .error .shapeMismatch ↔ ¬ a.shape.Compatible b.shape := by
  rw [protectedDivide_eq ha hb, ← Shape.broadcast_eq_none_iff, ← (element_toDoubles ha).1,
    ← (element_toDoubles hb).1, Grid.pointwise]
  cases x.shape.broadcast y.shape with
  | none => exact ⟨fun _ => rfl, fun _ => rfl⟩
  | some r => constructor <;> intro h <;> cases h

include ha hb in
/-- **The quotient is made of quotients of elements**, in the shape in which the shapes meet. -/
theorem exists_protectedDivide (h : a.shape.Compatible b.shape) :
    ∃ r v, a.shape.Meets b.shape r ∧ a.protectedDivide b = .ok v
      ∧ v.Fills r fun ix z => ∃ i j, a.shape.IsIndex i ∧ a.shape.Selects ix i
        ∧ b.shape.IsIndex j ∧ b.shape.Selects ix j
        ∧ (a.element i).protectedDivide (b.element j) = .ok (.real z) := by
  obtain ⟨hxs, hxe⟩ := element_toDoubles ha
  obtain ⟨hys, hye⟩ := element_toDoubles hb
  obtain ⟨r, hr⟩ := Shape.exists_broadcast h
  have hmeets := Shape.meets_of_broadcast hr
  rw [← hxs, ← hys] at hr
  obtain ⟨g, hg, hshape⟩ : ∃ g, Grid.pointwise Elementary.divide x y = some g ∧ g.shape = r := by
    rw [Grid.pointwise, hr]
    exact ⟨_, rfl, rfl⟩
  refine ⟨r, ofDoubles g, hmeets, ?_, ?_⟩
  · rw [protectedDivide_eq ha hb, hg]
    rfl
  · rw [← hshape]
    refine fills_ofDoubles fun ix hix => ?_
    have hcell := Grid.get_pointwise hg hix
    rw [hshape] at hix
    obtain ⟨hi, hselects⟩ := hmeets.isIndex_restrict hix
    obtain ⟨hj, hselects'⟩ := hmeets.symm.isIndex_restrict hix
    refine ⟨_, _, hi, hselects, hj, hselects', ?_⟩
    rw [protectedDivide_eq (hxe _ hi) (hye _ hj), hcell, hxs, hys]
    rfl

include ha in
/-- **The logarithm is made of logarithms of elements**, in the shape of the argument. -/
theorem exists_protectedLog :
    ∃ v, a.protectedLog = .ok v
      ∧ v.Fills a.shape fun ix z => (a.element ix).protectedLog = .ok (.real z) := by
  obtain ⟨hxs, hxe⟩ := element_toDoubles ha
  refine ⟨ofDoubles (x.map Elementary.log), by rw [protectedLog, ha]; rfl, ?_⟩
  rw [← hxs]
  refine fills_ofDoubles (g := x.map Elementary.log) fun ix hix => ?_
  have hix' : x.shape.IsIndex ix := hix
  rw [Grid.get_map _ hix', protectedLog, hxe ix (hxs ▸ hix')]
  rfl

end Doubles

/-- **The protected functions work element by element**, on any two values that are numbers or rows of
    numbers of any shapes.  The quotient has no value exactly when the shapes are not compatible.  Otherwise
    it has the shape in which they meet, and at each index of it the quotient of the two elements selected.
    The logarithm has the shape of its argument, and at each index the logarithm of the element there. -/
theorem protected_pointwise {a b : Value} {x y : Grid Float} (ha : a.toDoubles = .ok x)
    (hb : b.toDoubles = .ok y) :
    (a.protectedDivide b = .error .shapeMismatch ↔ ¬ a.shape.Compatible b.shape)
      ∧ (a.shape.Compatible b.shape → ∃ r v, a.shape.Meets b.shape r ∧ a.protectedDivide b = .ok v
        ∧ v.Fills r fun ix z => ∃ i j, a.shape.IsIndex i ∧ a.shape.Selects ix i
          ∧ b.shape.IsIndex j ∧ b.shape.Selects ix j
          ∧ (a.element i).protectedDivide (b.element j) = .ok (.real z))
      ∧ ∃ v, a.protectedLog = .ok v
        ∧ v.Fills a.shape fun ix z => (a.element ix).protectedLog = .ok (.real z) :=
  ⟨protectedDivide_fails_iff ha hb, exists_protectedDivide ha hb, exists_protectedLog ha⟩

/-- A column of two doubles. -/
def column : Value := .array (.doubles ⟨[2, 1], [1.0, 2.0], rfl⟩)

/-- A row of three words. -/
def threeWords : Value := .array (.words ⟨[3], [1, 2, 0], rfl⟩)

/-- A column of two by a row of three is a table. -/
theorem protected_pointwise_column :
    column.toDoubles = .ok ⟨[2, 1], [1.0, 2.0], rfl⟩
      ∧ threeWords.toDoubles = .ok (Grid.map Number.ofWord ⟨[3], [1, 2, 0], rfl⟩)
      ∧ column.shape.Compatible threeWords.shape
      ∧ ∃ g, column.protectedDivide threeWords = .ok (.array (.doubles g)) ∧ g.shape = [2, 3] := by
  have hmeets : column.shape.Meets threeWords.shape [2, 3] := Shape.meets_of_broadcast rfl
  obtain ⟨-, hdivide, -⟩ := protected_pointwise (a := column) (b := threeWords) rfl rfl
  obtain ⟨r, v, hr, hv, hfills⟩ := hdivide hmeets.compatible
  obtain rfl := hr.unique hmeets
  refine ⟨rfl, rfl, hmeets.compatible, ?_⟩
  cases hfills with
  | single hshape => cases hshape
  | array _ hshape => exact ⟨_, hv, hshape⟩

end Value

end ExprGraph

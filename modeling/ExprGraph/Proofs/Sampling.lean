import ExprGraph.Proofs.Agreement
import ExprGraph.Value.Elementary
/-!
  One sample of an array.

  Main statement: arithmetic on rows of samples and single numbers does for each sample what it does for that
  sample's numbers alone (`Numeric.sampled_combine`, `Numeric.sampled_power` and the lemmas between them).

    * cell      what sample `i` sees of a grid: its own cell of a row, or the only one (`Grid.pick`);
    * relation  a number and what one sample has in its place (`Cells.Sampled`, `Numeric.Sampled`), where a
                free double may stand for a cell of its own (`Numeric.asCell`);
    * step      one lemma for each function of numbers, and they are alike in failing, too.

  The relation fixes kinds and shapes in any case, but the contents of cells only under a condition `P`: there
  is one function, the power, whose cells need not be those of the samples.
-/

namespace ExprGraph

/-! ## Grids -/

/-- The shape of one number, or of a row of `n` samples. -/
def Shape.along (n : Nat) (row : Bool) : Shape := if row then [n] else []

namespace Shape

variable {n i : Nat}

theorem broadcast_along (n : Nat) (p q : Bool) :
    (along n p).broadcast (along n q) = some (along n (p || q)) := by
  cases p <;> cases q <;> simp [along, broadcast, meetReversed, meetLength]

theorem indices_row (n : Nat) : indices [n] = (List.range n).map fun i => [i] := by
  simp only [indices, List.map_cons, List.map_nil, ← List.map_eq_flatMap]

theorem restrict_row (hi : i < n) : restrict [n] [i] = [i] := by
  show [if n = 1 then 0 else i] = [i]
  split <;> congr 1
  omega

end Shape

namespace Grid

variable {α β γ : Type} [Inhabited α] [Inhabited β] [Inhabited γ] {n i : Nat} {p q : Bool}

/-- **The cell of a grid that a sample sees**: its own one of a row, or the only one. -/
def pick (g : Grid α) (i : Nat) : α := g.get (g.shape.restrict [i])

theorem pick_row {g : Grid α} (hg : g.shape = Shape.along n true) (hi : i < n) :
    g.pick i = g.get [i] := by
  have hshape : g.shape = [n] := hg
  rw [pick, hshape, Shape.restrict_row hi]

theorem get_row {g : Grid α} (hg : g.shape = Shape.along n true) (i : Nat) :
    g.get [i] = g.cells.getD i default := by
  have hshape : g.shape = [n] := hg
  rw [get, hshape]
  simp [Shape.offset, Shape.volume]

theorem pick_number {g : Grid α} (hg : g.shape = Shape.along n false) (i : Nat) :
    g.pick i = g.cells.getD 0 default := by
  have hshape : g.shape = [] := hg
  rw [pick, get, hshape]
  rfl

theorem pick_map (f : α → β) {g : Grid α} (hg : g.shape = Shape.along n p) (hi : i < n) :
    (g.map f).pick i = f (g.pick i) := by
  have hlen := g.length_cells
  rw [hg] at hlen
  cases p with
  | false =>
    have hone : g.cells.length = 1 := hlen
    have hmap : (g.map f).shape = Shape.along n false := hg
    rw [pick_number hg, pick_number hmap]
    simp [map, hone]
  | true =>
    have hmany : g.cells.length = n * 1 := hlen
    have hmap : (g.map f).shape = Shape.along n true := hg
    rw [pick_row hg hi, pick_row hmap hi, get_row hg, get_row hmap]
    simp [map, hmany, hi]

omit [Inhabited α] in
/-- A grid without axes is its only cell. -/
theorem eq_scalar {g : Grid α} (hg : g.shape = []) : ∃ x, g = scalar x := by
  obtain ⟨shape, cells, hlen⟩ := g
  obtain rfl : shape = [] := hg
  match cells, hlen with
  | [x], _ => exact ⟨x, rfl⟩

theorem stretch_number {g : Grid α} (hg : g.shape = Shape.along n false) (i : Nat) :
    g.stretch [] = [g.pick i] := by
  have hshape : g.shape = [] := hg
  simp [stretch, Shape.indices, pick, hshape, Shape.restrict]

theorem getElem?_stretch_row (g : Grid α) (hi : i < n) : (g.stretch [n])[i]? = some (g.pick i) := by
  simp [stretch, Shape.indices_row, hi, pick]

/-- **A sample sees a function of two cells** as the function of what it sees. -/
theorem pointwise_along (f : α → β → γ) {a : Grid α} {b : Grid β} (ha : a.shape = Shape.along n p)
    (hb : b.shape = Shape.along n q) (hi : i < n) :
    ∃ g, pointwise f a b = some g ∧ g.shape = Shape.along n (p || q)
      ∧ g.pick i = f (a.pick i) (b.pick i) := by
  have hmeet : a.shape.broadcast b.shape = some (Shape.along n (p || q)) := by
    rw [ha, hb, Shape.broadcast_along]
  unfold pointwise
  rw [hmeet]
  refine ⟨_, rfl, rfl, ?_⟩
  cases hrow : p || q with
  | false =>
    obtain ⟨rfl, rfl⟩ := Bool.or_eq_false_iff.mp hrow
    rw [pick_number (n := n) rfl i]
    show (List.zipWith f (a.stretch []) (b.stretch [])).getD 0 default = _
    rw [stretch_number ha i, stretch_number hb i]
    rfl
  | true =>
    rw [pick_row rfl hi, get_row rfl]
    show (List.zipWith f (a.stretch [n]) (b.stretch [n])).getD i default = _
    simp only [List.getD_eq_getElem?_getD, List.getElem?_zipWith, getElem?_stretch_row _ hi]
    rfl

end Grid

/-! ## Cells -/

/-- The kinds of numbers in trees without truth values. -/
def CellKind.isNumeric : CellKind → Bool
  | word | unsigned | double => true
  | truth | half => false

theorem CellKind.isNumeric_join {k l : CellKind} (hk : k.isNumeric = true) (hl : l.isNumeric = true) :
    (k.join l).isNumeric = true := by
  cases k <;> cases l <;> first | rfl | cases hk

/-- **Cells and what one sample has in their place**: a single cell of the same kind, which is, given `P`, the
    one that sample `i` sees.  The cells are those of a row of `n` samples, or a single one. -/
inductive Cells.Sampled (n i : Nat) (P : Prop) (row : Bool) : Cells → Cells → Prop where
  | intro {k : CellKind} {g : Grid k.Carrier} {x : k.Carrier} (numeric : k.isNumeric = true)
      (shape : g.shape = Shape.along n row) (cell : P → x = g.pick i) :
      Sampled n i P row ⟨k, g⟩ ⟨k, .scalar x⟩

namespace Elementary

/-- An exponent that is a single number is steady; one that is a row is not, beside a number or a row. -/
theorem steadyInRows_along (n : Nat) (p q : Bool) :
    steadyInRows (Shape.along n p) (Shape.along n q) = !q := by
  cases p <;> cases q <;> simp [steadyInRows, Shape.along]

/-- The exponents that take a shortcut when they serve a whole row, except zero and one, where it changes
    nothing. -/
def isSpecial (e : Float) : Bool := e == -1.0 || e == 0.5 || e == 2.0

/-- **At any other exponent it makes no difference** whether it serves a whole row. -/
theorem rowPow_eq_plainPow {e : Float} (h : isSpecial e = false) (x : Float) : rowPow x e = plainPow x e := by
  simp only [isSpecial, Bool.or_eq_false_iff] at h
  obtain ⟨⟨hreciprocal, hsame⟩, hsquare⟩ := h
  rw [rowPow, hreciprocal, hsame, hsquare, plainPow]
  by_cases hzero : (e == 0.0) = true
  · simp only [hzero, if_true, Bool.false_eq_true, if_false]
  · by_cases hone : (e == 1.0) = true
    · simp only [hzero, hone, if_true, Bool.false_eq_true, if_false]
    · simp only [hzero, hone, Bool.false_eq_true, if_false]

end Elementary

namespace Cells

variable {n i : Nat} {P : Prop} {p q row : Bool} {c d c' d' : Cells}

/-- A single cell is the same for all samples. -/
theorem Sampled.single {k : CellKind} (hk : k.isNumeric = true) (x : k.Carrier) :
    Sampled n i P false ⟨k, .scalar x⟩ ⟨k, .scalar x⟩ := .intro hk rfl fun _ => rfl

theorem Sampled.kind_eq (h : Sampled n i P row c d) : d.kind = c.kind := by
  cases h
  rfl

theorem Sampled.isNumeric (h : Sampled n i P row c d) : c.kind.isNumeric = true := by
  cases h with
  | intro hk hg hx => exact hk

/-- **Functions of single cells.** -/
theorem Sampled.map {k l : CellKind} {g : Grid k.Carrier} {x : k.Carrier} (hi : i < n)
    (hl : l.isNumeric = true) (f : k.Carrier → l.Carrier) (hg : g.shape = Shape.along n row)
    (hx : P → x = g.pick i) : Sampled n i P row ⟨l, g.map f⟩ ⟨l, .scalar (f x)⟩ := by
  refine .intro hl hg ?_
  intro hP
  rw [Grid.pick_map f hg hi, hx hP]

/-- **Functions of two cells.** -/
theorem Sampled.pointwise {k l m : CellKind} {a a' : Grid k.Carrier} {b b' : Grid l.Carrier} (hi : i < n)
    (hm : m.isNumeric = true) (f : k.Carrier → l.Carrier → m.Carrier) (fault : Fault)
    (ha : Sampled n i P p ⟨k, a⟩ ⟨k, a'⟩) (hb : Sampled n i P q ⟨l, b⟩ ⟨l, b'⟩) :
    Agree (fun r r' => Sampled n i P (p || q) ⟨m, r⟩ ⟨m, r'⟩)
      (orFault fault (Grid.pointwise f a b)) (orFault fault (Grid.pointwise f a' b')) := by
  cases ha with
  | @intro _ _ x hk hg hx =>
    cases hb with
    | @intro _ _ y hl hg' hy =>
      obtain ⟨r, hr, hshape, hcell⟩ := Grid.pointwise_along f hg hg' hi
      have hone : Grid.pointwise f (.scalar x) (.scalar y) = some (.scalar (f x y)) := rfl
      rw [hr, hone]
      refine .ok (.intro hm hshape ?_)
      intro hP
      rw [hcell, hx hP, hy hP]

/-- **Cells that meet.** -/
theorem Sampled.meet (hi : i < n) (f : (k : CellKind) → Option (k.Carrier → k.Carrier → k.Carrier))
    (h : Sampled n i P p c d) (h' : Sampled n i P q c' d') :
    Agree (Sampled n i P (p || q)) (meet f c c') (meet f d d') := by
  obtain @⟨k, g, x, hk, hg, hx⟩ := h
  obtain @⟨l, g', x', hl, hg', hx'⟩ := h'
  have hjoin := CellKind.isNumeric_join hk hl
  unfold Cells.meet
  dsimp only
  cases f (k.join l) with
  | none => exact .error _
  | some f =>
    refine Agree.map (Sampled.pointwise hi hjoin f _ ?_ ?_) fun _ _ hr => hr
    · exact .map hi hjoin (k.widen _) hg hx
    · exact .map hi hjoin (l.widen _) hg' hx'

theorem Sampled.negate (hi : i < n) (h : Sampled n i P row c d) :
    Agree (Sampled n i P row) c.negate d.negate := by
  obtain @⟨k, g, x, hk, hg, hx⟩ := h
  cases k with
  | truth | half => cases hk
  | word | unsigned | double => exact .ok (.map hi rfl _ hg hx)

theorem Sampled.abs (hi : i < n) (h : Sampled n i P row c d) : Sampled n i P row c.abs d.abs := by
  obtain @⟨k, g, x, hk, hg, hx⟩ := h
  cases k with
  | truth | half => cases hk
  | unsigned => exact .intro hk hg hx
  | word | double => exact .map hi rfl _ hg hx

theorem Sampled.toFloats (hi : i < n) (h : Sampled n i P row c d) :
    Sampled n i P row (doubles c.toFloats) (doubles d.toFloats) := by
  obtain @⟨k, g, x, hk, hg, hx⟩ := h
  exact .map (l := .double) hi rfl k.toFloat hg hx

/-- Functions of doubles. -/
theorem Sampled.ofDoubles (hi : i < n) (f : Float → Float) {g g' : Grid Float}
    (h : Sampled n i P row (doubles g) (doubles g')) :
    Sampled n i P row (doubles (g.map f)) (doubles (g'.map f)) := by
  cases h with
  | intro hk hg hx => exact .map (l := .double) hi rfl f hg hx

theorem Sampled.confine (hi : i < n) (limit : Float) (h : Sampled n i P row c d) :
    Sampled n i P row (c.confine limit) (d.confine limit) := by
  have hfloats := (h.toFloats hi).ofDoubles hi (Elementary.confine limit)
  obtain @⟨k, g, x, hk, hg, hx⟩ := h
  cases k with
  | truth | half => cases hk
  | word | unsigned | double => exact hfloats

theorem Sampled.apply (hi : i < n) (f : Float → Float) (h : Sampled n i P row c d) :
    Sampled n i P row (c.apply f) (d.apply f) := by
  obtain @⟨k, g, x, hk, hg, hx⟩ := h
  cases k with
  | truth | half => cases hk
  | word | unsigned | double =>
    have hargument := Sampled.map (l := .double) hi rfl (CellKind.widen _ .double) hg hx
    exact (hargument.toFloats hi).ofDoubles hi f

/-! ### Power -/

theorem Sampled.shape (h : Sampled n i P row c d) :
    c.grid.shape = Shape.along n row ∧ d.grid.shape = Shape.along n false := by
  cases h with
  | intro hk hg hx => exact ⟨hg, rfl⟩

/-- Two single cells of one kind. -/
def Twins (c d : Cells) : Prop :=
  ∃ (k : CellKind) (x y : k.Carrier), c = ⟨k, .scalar x⟩ ∧ d = ⟨k, .scalar y⟩

/-- Whether the exponent is steady changes nothing but the contents of the power. -/
theorem meet_powCells (s s' : Bool) {k l : CellKind} (x : k.Carrier) (e : l.Carrier) :
    Agree Twins (meet (Elementary.powCells s) ⟨k, .scalar x⟩ ⟨l, .scalar e⟩)
      (meet (Elementary.powCells s') ⟨k, .scalar x⟩ ⟨l, .scalar e⟩) := by
  have hboth : (Elementary.powCells s (k.join l)).isSome
      = (Elementary.powCells s' (k.join l)).isSome := by
    cases k.join l <;> rfl
  unfold meet
  dsimp only
  cases hs : Elementary.powCells s (k.join l) <;> cases hs' : Elementary.powCells s' (k.join l)
  · exact .error _
  · rw [hs, hs'] at hboth
    cases hboth
  · rw [hs, hs'] at hboth
    cases hboth
  · exact .ok ⟨_, _, _, rfl, rfl⟩

/-- What one sample has may have other contents, as long as `P` does not hold. -/
theorem Sampled.replace {r r' r'' : Except Fault Cells} (h : Agree (Sampled n i P row) r r')
    (htwins : Agree Twins r' r'') (hP : P → r'' = r') : Agree (Sampled n i P row) r r'' := by
  cases h with
  | error e =>
    cases htwins
    exact .error e
  | ok h =>
    obtain @⟨k, g, x, hk, hg, hx⟩ := h
    cases htwins with
    | ok htwins =>
      obtain ⟨m, u, v, hu, rfl⟩ := htwins
      cases hu
      refine .ok (.intro hk hg ?_)
      intro h
      have hcells := Except.ok.inj (hP h)
      cases hcells
      exact hx h

/-- **Powers of samples**, given that at an exponent that differs between the samples it would make no
    difference to have it for the whole row. -/
theorem Sampled.power (hi : i < n) (h : Sampled n i P p c d) (h' : Sampled n i P q c' d')
    (hsame : P → q = true →
      Cells.meet (Elementary.powCells true) d d' = Cells.meet (Elementary.powCells false) d d') :
    Agree (Sampled n i P (p || q))
      (Cells.meet (Elementary.powCells (Elementary.steadyInRows c.grid.shape c'.grid.shape)) c c')
      (Cells.meet (Elementary.powCells (Elementary.steadyInRows d.grid.shape d'.grid.shape)) d d') := by
  rw [h.shape.1, h.shape.2, h'.shape.1, h'.shape.2, Elementary.steadyInRows_along,
    Elementary.steadyInRows_along]
  cases q with
  | false => exact h.meet hi _ h'
  | true =>
    have hplain := h.meet hi (Elementary.powCells false) h'
    refine Sampled.replace hplain ?_ fun hP => hsame hP rfl
    cases h
    cases h'
    exact meet_powCells false true _ _

end Cells

/-! ## Numbers -/

namespace Numeric

variable {n i : Nat} {P : Prop} {p q row : Bool} {x y x' y' : Numeric}

/-- A number, where a free double is taken for a cell. -/
def asCell : Numeric → Numeric
  | real x => fixed (.double x)
  | z => z

/-- The numbers in trees without truth values. -/
def isNumeric : Numeric → Bool
  | truth _ => false
  | integer _ | real _ => true
  | fixed c => c.kind.isNumeric

theorem isNumeric_asCell (x : Numeric) : x.asCell.isNumeric = x.isNumeric := by
  cases x <;> rfl

/-- **Numbers and what one sample has in their place.**  A free whole number is the same for all samples. -/
inductive Sampled (n i : Nat) (P : Prop) : Bool → Numeric → Numeric → Prop where
  | whole (m : Int) : Sampled n i P false (integer m) (integer m)
  | cells {row : Bool} {c d : Cells} (h : c.Sampled n i P row d) : Sampled n i P row (fixed c) (fixed d)

theorem Sampled.isNumeric (h : Sampled n i P row x y) : x.isNumeric = true ∧ y.isNumeric = true := by
  cases h with
  | whole m => exact ⟨rfl, rfl⟩
  | cells h =>
    have hc := h.isNumeric
    refine ⟨hc, ?_⟩
    show CellKind.isNumeric _ = true
    rw [h.kind_eq]
    exact hc

/-- A whole number becomes a single cell beside cells. -/
theorem agree_integerCell {k : CellKind} (hk : k.isNumeric = true) (m : Int) :
    Agree (Cells.Sampled n i P false) (integerCell k m) (integerCell k m) := by
  have hround : ∀ (fault : Fault) (a : Option Float), Agree (Cells.Sampled n i P false)
      ((orFault fault a).map Cells.double) ((orFault fault a).map Cells.double) := by
    intro fault a
    cases a with
    | none => exact .error fault
    | some x => exact .ok (.single (k := .double) rfl x)
  cases k with
  | truth | half => cases hk
  | word =>
    unfold integerCell Cells.word?
    cases Number.wordOfInt m with
    | none => exact .error _
    | some w => exact .ok (.single (k := .word) rfl w)
  | unsigned =>
    unfold integerCell Cells.unsigned?
    dsimp only
    split
    · exact .ok (.single (k := .unsigned) rfl _)
    · exact .error _
  | double => exact hround _ _

theorem beside_asCell {k : CellKind} (hk : k.isNumeric = true) (x : Numeric) :
    x.asCell.beside k = x.beside k := by
  cases x with
  | truth b | integer m | fixed c => rfl
  | real u =>
    cases k with
    | truth | half => cases hk
    | word | unsigned | double => rfl

theorem Sampled.beside {k : CellKind} (hk : k.isNumeric = true) (h : Sampled n i P row x y) :
    Agree (Cells.Sampled n i P row) (x.beside k) (y.beside k) := by
  cases h with
  | whole m => exact agree_integerCell hk m
  | cells h => exact .ok h

/-- **Numbers beside cells of a kind.** -/
theorem sampled_beside {k : CellKind} (hk : k.isNumeric = true)
    (h : Sampled n i P row x.asCell y.asCell) :
    Agree (Cells.Sampled n i P row) (x.beside k) (y.beside k) := by
  rw [← beside_asCell hk x, ← beside_asCell hk y]
  exact h.beside hk

/-! ### Sum, difference, product and negation -/

theorem combine_fixed_left (op : Arith) (c : Cells) (y : Numeric) :
    combine op (fixed c) y = do return fixed (← Cells.meet op.onCells c (← y.beside c.kind)) := by
  cases y with
  | truth b | integer m | real u => rfl
  | fixed d =>
    show (Cells.meet op.onCells c d).map fixed = (Cells.meet op.onCells c d) >>= fun r => pure (fixed r)
    cases Cells.meet op.onCells c d <;> rfl

theorem combine_fixed_right (op : Arith) (x : Numeric) (d : Cells) :
    combine op x (fixed d) = do return fixed (← Cells.meet op.onCells (← x.beside d.kind) d) := by
  cases x with
  | truth b | integer m | real u => rfl
  | fixed c =>
    show (Cells.meet op.onCells c d).map fixed = (Cells.meet op.onCells c d) >>= fun r => pure (fixed r)
    cases Cells.meet op.onCells c d <;> rfl

theorem meet_doubles (op : Arith) (u v : Float) :
    Cells.meet op.onCells (.double u) (.double v) = .ok (.double (op.onReal u v)) := by
  cases op <;> rfl

/-- Free doubles may be taken for cells before the arithmetic or after it. -/
theorem combine_asCell (op : Arith) (hx : x.isNumeric = true) (hy : y.isNumeric = true) :
    (combine op x y).map asCell = (combine op x.asCell y.asCell).map asCell := by
  cases x with
  | truth b => cases hx
  | fixed c =>
    have hc : c.kind.isNumeric = true := hx
    show _ = (combine op (fixed c) y.asCell).map asCell
    rw [combine_fixed_left, combine_fixed_left, beside_asCell hc]
  | integer m =>
    cases y with
    | truth b => cases hy
    | integer k => rfl
    | fixed d => rfl
    | real v =>
      show ((realOfInt m) >>= fun u => pure (real (op.onReal u v))).map asCell
        = (((realOfInt m).map Cells.double) >>= fun c =>
            (Cells.meet op.onCells c (.double v)) >>= fun r => pure (fixed r)).map asCell
      cases realOfInt m with
      | error e => rfl
      | ok u =>
        show _ = ((Cells.meet op.onCells (.double u) (.double v)) >>= fun r => pure (fixed r)).map asCell
        rw [meet_doubles]
        rfl
  | real u =>
    cases y with
    | truth b => cases hy
    | real v =>
      show _ = ((Cells.meet op.onCells (.double u) (.double v)).map fixed).map asCell
      rw [meet_doubles]
      rfl
    | integer k =>
      show ((realOfInt k) >>= fun v => pure (real (op.onReal u v))).map asCell
        = (((realOfInt k).map Cells.double) >>= fun d =>
            (Cells.meet op.onCells (.double u) d) >>= fun r => pure (fixed r)).map asCell
      cases realOfInt k with
      | error e => rfl
      | ok v =>
        show _ = ((Cells.meet op.onCells (.double u) (.double v)) >>= fun r => pure (fixed r)).map asCell
        rw [meet_doubles]
        rfl
    | fixed d =>
      have hd : d.kind.isNumeric = true := hy
      show _ = (combine op (asCell (real u)) (fixed d)).map asCell
      rw [combine_fixed_right, combine_fixed_right, beside_asCell hd]

/-- **Arithmetic on samples.** -/
theorem sampled_combine (hi : i < n) (op : Arith) (hx : Sampled n i P p x.asCell x'.asCell)
    (hy : Sampled n i P q y.asCell y'.asCell) :
    Agree (fun r r' => Sampled n i P (p || q) r.asCell r'.asCell) (combine op x y)
      (combine op x' y') := by
  refine Agree.of_map ?_
  have hxn := hx.isNumeric
  have hyn := hy.isNumeric
  simp only [isNumeric_asCell] at hxn hyn
  rw [combine_asCell op hxn.1 hyn.1, combine_asCell op hxn.2 hyn.2]
  refine Agree.map (R := fun r r' => Sampled n i P (p || q) r.asCell r'.asCell) ?_ fun _ _ h => h
  generalize x.asCell = x, x'.asCell = x', y.asCell = y, y'.asCell = y' at hx hy
  -- a result of cells, from cells that meet
  have hmeet : ∀ {c d c' d' : Cells}, c.Sampled n i P p d → c'.Sampled n i P q d' →
      Agree (fun r r' => Sampled n i P (p || q) r.asCell r'.asCell)
        ((Cells.meet op.onCells c c') >>= fun r => pure (fixed r))
        ((Cells.meet op.onCells d d') >>= fun r => pure (fixed r)) := by
    intro c d c' d' h h'
    exact (h.meet hi op.onCells h').bind fun _ _ hr => .ok (.cells hr)
  cases hx with
  | cells h =>
    rw [combine_fixed_left, combine_fixed_left, h.kind_eq]
    exact (hy.beside h.isNumeric).bind fun _ _ h' => hmeet h h'
  | whole m =>
    cases hy with
    | whole k => exact .ok (.whole _)
    | cells h' =>
      rw [combine_fixed_right, combine_fixed_right, h'.kind_eq]
      exact (agree_integerCell h'.isNumeric m).bind fun _ _ h => hmeet h h'

/-- **Negatives of samples.** -/
theorem sampled_negate (hi : i < n) (h : Sampled n i P row x.asCell y.asCell) :
    Agree (fun r r' => Sampled n i P row r.asCell r'.asCell) x.negate y.negate := by
  have hnegate : ∀ z : Numeric, z.negate.map asCell = z.asCell.negate.map asCell := by
    intro z
    cases z <;> rfl
  refine Agree.of_map ?_
  rw [hnegate x, hnegate y]
  generalize x.asCell = x, y.asCell = y at h ⊢
  cases h with
  | whole m => exact .ok (.whole _)
  | cells h =>
    refine Agree.map ?_ fun _ _ hr => hr
    exact (h.negate hi).map fun _ _ hr => .cells hr

/-! ### Elementary functions -/

/-- A whole number on its own is a single cell. -/
theorem sampled_settle {m : Int} {c : Cells} (h : settle m = some c) : c.Sampled n i P false c := by
  unfold settle Cells.word? Cells.unsigned? at h
  cases hm : Number.wordOfInt m with
  | some w =>
    rw [hm] at h
    obtain rfl := Option.some.inj h
    exact .single (k := .word) rfl w
  | none =>
    rw [hm] at h
    dsimp only [Option.map_none, Option.orElse_eq_orElse, Option.orElse_none] at h
    split at h
    · obtain rfl := Option.some.inj h
      exact .single (k := .unsigned) rfl _
    · cases h

theorem sampled_alone (h : Sampled n i P row x.asCell y.asCell) :
    Agree (Cells.Sampled n i P row) x.alone y.alone := by
  have halone : ∀ z : Numeric, z.alone = z.asCell.alone := by
    intro z
    cases z <;> rfl
  rw [halone x, halone y]
  generalize x.asCell = x, y.asCell = y at h ⊢
  cases h with
  | cells h => exact .ok h
  | whole m =>
    show Agree _ (orFault _ (settle m)) (orFault _ (settle m))
    cases hm : settle m with
    | none => exact .error _
    | some c => exact .ok (sampled_settle hm)

/-- **Absolute values of samples.** -/
theorem sampled_abs (hi : i < n) (h : Sampled n i P row x.asCell y.asCell) :
    Sampled n i P row x.abs.asCell y.abs.asCell := by
  have habs : ∀ z : Numeric, z.abs.asCell = z.asCell.abs.asCell := by
    intro z
    cases z <;> rfl
  rw [habs x, habs y]
  generalize x.asCell = x, y.asCell = y at h ⊢
  cases h with
  | cells h => exact .cells (h.abs hi)
  | whole m =>
    unfold abs
    dsimp only
    cases hm : settle m with
    | none => exact .whole _
    | some c => exact .cells ((sampled_settle hm).abs hi)

theorem confine_asCell (limit : Float) (x : Numeric) :
    (x.confine limit).asCell = (x.asCell.confine limit).asCell := by
  cases x <;> rfl

/-- **Confined samples.** -/
theorem sampled_confine (hi : i < n) (limit : Float) (h : Sampled n i P row x.asCell y.asCell) :
    Sampled n i P row (x.confine limit).asCell (y.confine limit).asCell := by
  rw [confine_asCell limit x, confine_asCell limit y]
  generalize x.asCell = x, y.asCell = y at h ⊢
  cases h with
  | cells h => exact .cells (h.confine hi limit)
  | whole m =>
    unfold confine
    dsimp only
    cases hm : settle m with
    | none => exact .cells (.single (k := .double) rfl _)
    | some c => exact .cells ((sampled_settle hm).confine hi limit)

/-! ### Power -/

/-- Power as if each cell had an exponent of its own. -/
def plainPower (x e : Numeric) : Except Fault Cells := do
  let e ← e.beside x.kind
  let x ← x.beside e.kind
  Cells.meet (Elementary.powCells false) x e

theorem kind_asCell (x : Numeric) : x.asCell.kind = x.kind := by
  cases x <;> rfl

theorem Sampled.numericKind (h : Sampled n i P row x.asCell y.asCell) :
    y.kind = x.kind ∧ x.kind.isNumeric = true := by
  rw [← kind_asCell x, ← kind_asCell y]
  generalize x.asCell = x, y.asCell = y at h ⊢
  cases h with
  | whole m => exact ⟨rfl, rfl⟩
  | cells h => exact ⟨h.kind_eq, h.isNumeric⟩

/-- **Powers of samples**, given that at an exponent that differs between the samples it would make no
    difference to have it for the whole row. -/
theorem sampled_power (hi : i < n) {e e' : Numeric} (hx : Sampled n i P p x.asCell x'.asCell)
    (he : Sampled n i P q e.asCell e'.asCell)
    (hsame : P → q = true → power x' e' = plainPower x' e') :
    Agree (Cells.Sampled n i P (p || q)) (power x e) (power x' e') := by
  have hexponents := sampled_beside hx.numericKind.2 he
  unfold power plainPower at *
  rw [hx.numericKind.1] at hsame ⊢
  generalize e.beside x.kind = b, e'.beside x.kind = b' at hexponents hsame ⊢
  cases hexponents with
  | error fault => exact .error fault
  | @ok c c' hc =>
    have hbases : Agree (Cells.Sampled n i P p) (x.beside c.kind) (x'.beside c'.kind) := by
      rw [hc.kind_eq]
      exact sampled_beside hc.isNumeric hx
    dsimp only [bind, Except.bind] at hsame ⊢
    generalize x.beside c.kind = a, x'.beside c'.kind = a' at hbases hsame ⊢
    cases hbases with
    | error fault => exact .error fault
    | ok ha =>
      refine ha.power hi hc ?_
      intro hP hq
      have hsteady := hsame hP hq
      dsimp only at hsteady
      rw [ha.shape.2, hc.shape.2, Elementary.steadyInRows_along] at hsteady
      exact hsteady

/-- At an exponent that is not special a single number has the same power either way. -/
theorem power_eq_plainPower {e : Numeric} {k : CellKind} {u : k.Carrier} {z : Float}
    (hx : x.asCell = fixed ⟨k, .scalar u⟩) (he : e.asCell = fixed (.double z))
    (hk : k.isNumeric = true) (hz : Elementary.isSpecial z = false) : power x e = plainPower x e := by
  have hkind : x.kind = k := by
    rw [← kind_asCell, hx]
    rfl
  have hmeet : ∀ s : Bool, Cells.meet (Elementary.powCells s) ⟨k, .scalar u⟩ (.double z)
      = .ok (.double (Elementary.pow s (k.toFloat u) z)) := by
    intro s
    cases k with
    | truth | half => cases hk
    | word | unsigned | double => rfl
  unfold power plainPower
  rw [hkind, ← beside_asCell hk e, he]
  show (x.beside .double >>= fun x => _) = (x.beside .double >>= fun x => _)
  rw [← beside_asCell rfl x, hx]
  show Cells.meet (Elementary.powCells true) ⟨k, .scalar u⟩ (.double z)
    = Cells.meet (Elementary.powCells false) ⟨k, .scalar u⟩ (.double z)
  have hpow : Elementary.pow true (k.toFloat u) z = Elementary.pow false (k.toFloat u) z :=
    Elementary.rowPow_eq_plainPow hz _
  rw [hmeet, hmeet, hpow]

end Numeric

end ExprGraph

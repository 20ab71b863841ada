import ExprGraph.Proofs.Arity
import ExprGraph.Proofs.Sampling
import ExprGraph.Proofs.Variables
/-!
  Evaluating many samples at once.

  Main statement: a tree of built-in arithmetic, evaluated on rows of samples, fails as it does on each sample,
  and otherwise has a row of the values that it has on the samples (`Session.rows_evaluate_samples`).

  There is one exception.  Where one exponent serves a whole row, power takes shortcuts: the reciprocal for
  minus one, the square root for one half, the square for two.  Among the samples of a row of exponents it does
  not.  A shortcut may differ from the power in the last bit, and the square root differs from it at the negative
  infinity and the negative zero (`Session.element_ne_sample_of_root`).  At all other exponents the two are the
  same (`Value.power_eq_plainPower`).  Where they do not differ the elements are the values of the samples, and
  failures, kinds and shapes are alike in any case.

    * runs       one on rows and one on a sample, side by side (`Value.Sampled`);
    * step       each built-in function keeps the values related (`Operator.sampled_apply`);
    * induction  over the term, where the result is a row when there is a variable (`Term.sampled_value`).
-/

namespace ExprGraph

/-! ## Values -/

/-- The element of a row, with its kind. -/
def Cells.element (c : Cells) (i : Nat) : Cell := ⟨c.kind, c.grid.get [i]⟩

namespace Value

/-- The number of a fixed kind that a value is; a free double counts as one. -/
def cell? : Value → Option Cell
  | cell c => some c
  | real x => some ⟨.double, x⟩
  | _ => none

/-- The value that one sample has for a row: its element. -/
def sample (i : Nat) : Value → Value
  | array c => cell (c.element i)
  | v => v

/-- **Values and what one sample has in their place**: an array for a row, and otherwise a single number. -/
structure Sampled (n i : Nat) (P : Prop) (row : Bool) (v w : Value) : Prop where
  isArray : v.isArray = row
  single : w.isArray = false
  numbers : ∃ x y, v.numeric?.map Numeric.asCell = some x ∧ w.numeric?.map Numeric.asCell = some y
    ∧ Numeric.Sampled n i P row x y

variable {n i : Nat} {P : Prop} {p q row : Bool} {v w v' w' : Value}

/-- A value is a single number of a fixed kind, or a free double taken for one. -/
theorem cell?_eq_some_iff {e : Cell} :
    w.cell? = some e ↔ w.isArray = false ∧ w.numeric?.map Numeric.asCell = some (.fixed e.toCells) := by
  constructor
  · intro h
    cases w with
    | cell d | real x =>
      obtain rfl := Option.some.inj h
      exact ⟨rfl, rfl⟩
    | integer m | text s | truth b | absent | array d => cases h
  · rintro ⟨hsingle, h⟩
    obtain ⟨k, x⟩ := e
    cases w with
    | cell d | real y =>
      cases h
      rfl
    | array d => cases hsingle
    | integer m | text s | truth b | absent => cases h

theorem toNumeric_eq {x : Numeric} (h : v.numeric? = some x) : v.toNumeric = .ok x := by
  rw [toNumeric, h]
  rfl

theorem Sampled.exists_numeric (h : Sampled n i P row v w) :
    ∃ x y, v.numeric? = some x ∧ w.numeric? = some y
      ∧ Numeric.Sampled n i P row x.asCell y.asCell := by
  obtain ⟨_, _, hx, hy, hxy⟩ := h.numbers
  obtain ⟨x, hv, rfl⟩ := Option.map_eq_some_iff.mp hx
  obtain ⟨y, hw, rfl⟩ := Option.map_eq_some_iff.mp hy
  exact ⟨x, y, hv, hw, hxy⟩

theorem Sampled.toNumeric (h : Sampled n i P row v w) :
    Agree (fun x y => Numeric.Sampled n i P row x.asCell y.asCell) v.toNumeric w.toNumeric := by
  obtain ⟨x, y, hx, hy, hxy⟩ := h.exists_numeric
  rw [toNumeric_eq hx, toNumeric_eq hy]
  exact .ok hxy

/-! ### Results -/

/-- Cells as values. -/
theorem sampled_ofCells {c d : Cells} (h : c.Sampled n i P row d) :
    Sampled n i P row (ofCells c) (ofCells d) := by
  have hcells := h
  obtain @⟨k, g, x, hk, hg, hx⟩ := h
  cases row with
  | false =>
    obtain ⟨y, rfl⟩ := Grid.eq_scalar hg
    exact ⟨rfl, rfl, _, _, rfl, rfl, .cells hcells⟩
  | true =>
    obtain ⟨shape, cells, hlen⟩ := g
    obtain rfl : shape = [n] := hg
    exact ⟨rfl, rfl, _, _, rfl, rfl, .cells hcells⟩

/-- Two values are the same, except that a double may be free or not. -/
def SameButFree (v w : Value) : Prop :=
  v.isArray = w.isArray ∧ v.numeric?.map Numeric.asCell = w.numeric?.map Numeric.asCell

theorem Sampled.of_same (h : Sampled n i P row v w) (hv : SameButFree v' v) (hw : SameButFree w' w) :
    Sampled n i P row v' w' where
  isArray := hv.1.trans h.isArray
  single := hw.1.trans h.single
  numbers := by
    rw [hv.2, hw.2]
    exact h.numbers

/-- Doubles as values. -/
theorem sampled_ofDoubles {g g' : Grid Float} (h : (Cells.doubles g).Sampled n i P row (.doubles g')) :
    Sampled n i P row (ofDoubles g) (ofDoubles g') := by
  have hsame : ∀ g : Grid Float, SameButFree (ofDoubles g) (ofCells (.doubles g)) := by
    intro g
    unfold ofDoubles ofCells Cells.cell? Cells.doubles
    cases g.scalar? <;> exact ⟨rfl, rfl⟩
  exact (sampled_ofCells h).of_same (hsame g) (hsame g')

/-- Numbers as values. -/
theorem sampled_toValue {x y : Numeric} (h : Numeric.Sampled n i P row x.asCell y.asCell) :
    Sampled n i P row x.toValue y.toValue := by
  have hsame : ∀ z : Numeric, SameButFree z.toValue z.asCell.toValue := by
    intro z
    cases z <;> exact ⟨rfl, rfl⟩
  refine Sampled.of_same ?_ (hsame x) (hsame y)
  generalize x.asCell = x, y.asCell = y at h ⊢
  cases h with
  | whole m => exact ⟨rfl, rfl, _, _, rfl, rfl, .whole m⟩
  | cells h => exact sampled_ofCells h

/-! ### The built-in functions -/

theorem combine_eq (op : Arith) {a b : Value} {x y : Numeric} (ha : a.numeric? = some x)
    (hb : b.numeric? = some y) : combine op a b = do return (← Numeric.combine op x y).toValue := by
  unfold combine
  split
  · cases ha
  · cases ha
  · cases hb
  · rw [toNumeric_eq ha, toNumeric_eq hb]
    rfl

theorem sampled_combine (hi : i < n) (op : Arith) (h : Sampled n i P p v w)
    (h' : Sampled n i P q v' w') :
    Agree (Sampled n i P (p || q)) (combine op v v') (combine op w w') := by
  obtain ⟨x, y, hx, hy, hxy⟩ := h.exists_numeric
  obtain ⟨x', y', hx', hy', hxy'⟩ := h'.exists_numeric
  rw [combine_eq op hx hx', combine_eq op hy hy']
  exact (Numeric.sampled_combine hi op hxy hxy').bind fun _ _ hr => .ok (sampled_toValue hr)

theorem sampled_negate (hi : i < n) (h : Sampled n i P row v w) :
    Agree (Sampled n i P row) v.negate w.negate :=
  h.toNumeric.bind fun _ _ hx =>
    (Numeric.sampled_negate hi hx).bind fun _ _ hr => .ok (sampled_toValue hr)

theorem sampled_elementary (hi : i < n) (f : Float → Float) (h : Sampled n i P row v w) :
    Agree (Sampled n i P row) (v.elementary f) (w.elementary f) :=
  h.toNumeric.bind fun _ _ hx =>
    (Numeric.sampled_alone hx).bind fun _ _ hc => .ok (sampled_ofCells (hc.apply hi f))

theorem sampled_abs (hi : i < n) (h : Sampled n i P row v w) :
    Agree (Sampled n i P row) v.abs w.abs :=
  h.toNumeric.bind fun _ _ hx => .ok (sampled_toValue (Numeric.sampled_abs hi hx))

theorem sampled_sqrt (hi : i < n) (h : Sampled n i P row v w) :
    Agree (Sampled n i P row) v.sqrt w.sqrt :=
  (sampled_abs hi h).bind fun _ _ hr => sampled_elementary hi Float.sqrt hr

theorem sampled_exp (hi : i < n) (h : Sampled n i P row v w) :
    Agree (Sampled n i P row) v.exp w.exp :=
  h.toNumeric.bind fun _ _ hx =>
    sampled_elementary hi Float.exp (sampled_toValue (Numeric.sampled_confine hi expLimit hx))

theorem toDoubles_eq {x : Numeric} (h : v.numeric? = some x) :
    v.toDoubles = do return (← x.beside .double).toFloats := by
  cases v with
  | text s => cases h
  | absent => cases h
  | integer m | real u | truth b | cell c | array c =>
    obtain rfl := Option.some.inj h
    rfl

theorem sampled_toDoubles (hi : i < n) (h : Sampled n i P row v w) :
    Agree (fun g g' => (Cells.doubles g).Sampled n i P row (.doubles g')) v.toDoubles w.toDoubles := by
  obtain ⟨x, y, hx, hy, hxy⟩ := h.exists_numeric
  rw [toDoubles_eq hx, toDoubles_eq hy]
  exact (Numeric.sampled_beside rfl hxy).bind fun _ _ hc => .ok (hc.toFloats hi)

theorem sampled_protectedDivide (hi : i < n) (h : Sampled n i P p v w) (h' : Sampled n i P q v' w') :
    Agree (Sampled n i P (p || q)) (protectedDivide v v') (protectedDivide w w') := by
  refine (sampled_toDoubles hi h).bind fun _ _ hg => (sampled_toDoubles hi h').bind fun _ _ hg' => ?_
  have hquotient := Cells.Sampled.pointwise (m := .double) hi rfl Elementary.divide .shapeMismatch hg hg'
  exact hquotient.bind fun _ _ hr => .ok (sampled_ofDoubles hr)

theorem sampled_protectedLog (hi : i < n) (h : Sampled n i P row v w) :
    Agree (Sampled n i P row) v.protectedLog w.protectedLog :=
  (sampled_toDoubles hi h).bind fun _ _ hg =>
    .ok (sampled_ofDoubles (hg.ofDoubles hi Elementary.log))

/-- Power with a confined exponent, as if each cell had an exponent of its own. -/
def plainPower (base exponent : Value) : Except Fault Value := do
  let e := (← exponent.toNumeric).confine powerLimit
  return ofCells (← (← base.toNumeric).plainPower e)

theorem numeric?_ofCells (c : Cells) : (ofCells c).numeric? = some (.fixed c) := by
  obtain ⟨k, shape, cells, hlen⟩ := c
  cases shape with
  | cons m s => rfl
  | nil =>
    obtain ⟨x, hx⟩ := Grid.eq_scalar (g := (⟨[], cells, hlen⟩ : Grid k.Carrier)) rfl
    rw [hx]
    rfl

theorem eq_of_ofCells_eq {r r' : Except Fault Cells}
    (h : (do return ofCells (← r)) = (do return ofCells (← r') : Except Fault Value)) : r = r' := by
  cases r with
  | error e =>
    cases r' with
    | error e' => exact congrArg _ (Except.error.inj h)
    | ok d => cases h
  | ok c =>
    cases r' with
    | error e' => cases h
    | ok d =>
      have hnumeric := congrArg numeric? (Except.ok.inj h)
      rw [numeric?_ofCells, numeric?_ofCells] at hnumeric
      rw [Numeric.fixed.inj (Option.some.inj hnumeric)]

theorem sampled_power (hi : i < n) (h : Sampled n i P p v w) (h' : Sampled n i P q v' w')
    (hsame : P → q = true → w.power w' = w.plainPower w') :
    Agree (Sampled n i P (p || q)) (v.power v') (w.power w') := by
  obtain ⟨x, y, hx, hy, hxy⟩ := h.exists_numeric
  obtain ⟨x', y', hx', hy', hxy'⟩ := h'.exists_numeric
  have hconfine := Numeric.sampled_confine hi powerLimit hxy'
  unfold power plainPower at *
  rw [toNumeric_eq hy, toNumeric_eq hy'] at hsame ⊢
  rw [toNumeric_eq hx, toNumeric_eq hx']
  refine (Numeric.sampled_power hi hxy hconfine ?_).bind fun _ _ hr => .ok (sampled_ofCells hr)
  intro hP hq
  exact eq_of_ofCells_eq (hsame hP hq)

/-- **At an exponent that is not special a sample has the same power either way.** -/
theorem power_eq_plainPower {c d : Cell} (hv : v.cell? = some c) (hw : w.cell? = some d)
    (hc : c.kind.isNumeric = true) (hd : d.kind.isNumeric = true)
    (hspecial : Elementary.isSpecial (Elementary.confine powerLimit (d.kind.toFloat d.value)) = false) :
    v.power w = v.plainPower w := by
  obtain ⟨x, hvx, hx⟩ := Option.map_eq_some_iff.mp (cell?_eq_some_iff.mp hv).2
  obtain ⟨y, hwy, hy⟩ := Option.map_eq_some_iff.mp (cell?_eq_some_iff.mp hw).2
  obtain ⟨l, z⟩ := d
  have hconfined : (y.confine powerLimit).asCell
      = .fixed (.double (Elementary.confine powerLimit (l.toFloat z))) := by
    rw [Numeric.confine_asCell, hy]
    cases l with
    | truth | half => cases hd
    | word | unsigned | double => rfl
  unfold power plainPower
  rw [toNumeric_eq hvx, toNumeric_eq hwy]
  show (x.power _ >>= fun c => _) = (x.plainPower _ >>= fun c => _)
  rw [Numeric.power_eq_plainPower hx hconfined hc hspecial]

/-! ### Rows and numbers -/

/-- Whole numbers, words and doubles. -/
def isNumber : Value → Bool
  | integer _ | real _ | cell ⟨.word, _⟩ | cell ⟨.double, _⟩ => true
  | _ => false

/-- A number is the same for all samples. -/
theorem sampled_number (h : v.isNumber = true) : Sampled n i P false v v := by
  match v, h with
  | integer m, _ => exact ⟨rfl, rfl, _, _, rfl, rfl, .whole m⟩
  | real x, _ => exact ⟨rfl, rfl, _, _, rfl, rfl, .cells (.single (k := .double) rfl x)⟩
  | cell ⟨.word, x⟩, _ => exact ⟨rfl, rfl, _, _, rfl, rfl, .cells (.single rfl x)⟩
  | cell ⟨.double, x⟩, _ => exact ⟨rfl, rfl, _, _, rfl, rfl, .cells (.single rfl x)⟩

/-- A row has its elements for the samples. -/
theorem sampled_array (hi : i < n) {c : Cells} (hc : c.grid.shape = [n])
    (hk : c.kind.isNumeric = true) (hw : w.cell? = some (c.element i)) :
    Sampled n i P true (array c) w := by
  obtain ⟨hsingle, hnumber⟩ := cell?_eq_some_iff.mp hw
  refine ⟨rfl, hsingle, _, _, rfl, hnumber, .cells ?_⟩
  exact .intro hk hc fun _ => (Grid.pick_row hc hi).symm

/-- **A row of results** has an element for each sample, of the kind of the sample's result, and given `P`
    that result itself. -/
theorem Sampled.exists_array (hi : i < n) (h : Sampled n i P true v w) :
    ∃ c, v = array c ∧ c.grid.shape = [n] ∧ w.cell?.map Cell.kind = some c.kind
      ∧ (P → w.cell? = some (c.element i)) := by
  obtain ⟨harray, hsingle, x, y, hx, hy, hxy⟩ := h
  cases v with
  | array c =>
    obtain rfl := Option.some.inj hx
    cases hxy with
    | cells hc =>
      obtain @⟨k, g, z, hk, hg, hz⟩ := hc
      have hcell : w.cell? = some ⟨k, z⟩ := cell?_eq_some_iff.mpr ⟨hsingle, hy⟩
      refine ⟨_, rfl, hg, by rw [hcell]; rfl, ?_⟩
      intro hP
      rw [hcell, hz hP, Grid.pick_row hg hi]
      rfl
  | integer m | real u | text s | truth b | absent | cell e => cases harray

end Value

/-- The bindings of one sample. -/
def Bindings.sample (b : Bindings) (i : Nat) : Bindings := b.map fun entry => (entry.1, entry.2.sample i)

theorem Bindings.lookup_sample (b : Bindings) (i : Nat) (name : String) :
    (b.sample i).lookup name = (b.lookup name).map (Value.sample i) := by
  induction b with
  | nil => rfl
  | cons entry b ih =>
    obtain ⟨x, v⟩ := entry
    show List.lookup name ((x, v.sample i) :: sample b i) = _
    rw [List.lookup_cons, List.lookup_cons, ih]
    cases name == x <;> rfl

/-! ## Operators -/

variable {n i : Nat} {P : Prop}

/-- Lists of values and what one sample has in their places. -/
def Value.SampledAll (n i : Nat) (P : Prop) : List Value → List Value → Prop :=
  List.Forall₂ fun v w => Value.Sampled n i P v.isArray v w

namespace Primitive

variable {args args' : List Value}

theorem sampled_unary {f : Value → Except Fault Value}
    (hf : ∀ {row v w}, Value.Sampled n i P row v w → Agree (Value.Sampled n i P row) (f v) (f w))
    (h : Value.SampledAll n i P args args') (hlen : args.length = 1) :
    Agree (Value.Sampled n i P (args.any Value.isArray)) (unary f args) (unary f args') := by
  match args, args', h, hlen with
  | [v], [w], .cons h .nil, _ =>
    rw [List.any_cons, List.any_nil, Bool.or_false]
    exact hf h

theorem sampled_binary {f : Value → Value → Except Fault Value}
    (hf : ∀ {p q v w v' w'}, args = [v, v'] → args' = [w, w'] → Value.Sampled n i P p v w →
      Value.Sampled n i P q v' w' → Agree (Value.Sampled n i P (p || q)) (f v v') (f w w'))
    (h : Value.SampledAll n i P args args') (hlen : args.length = 2) :
    Agree (Value.Sampled n i P (args.any Value.isArray)) (binary f args) (binary f args') := by
  match args, args', h, hlen with
  | [v, v'], [w, w'], .cons h (.cons h' .nil), _ =>
    rw [List.any_cons, List.any_cons, List.any_nil, Bool.or_false]
    exact hf rfl rfl h h'

theorem sampled_foldlM {f : Value → Value → Except Fault Value}
    (hf : ∀ {p q v w v' w'}, Value.Sampled n i P p v w → Value.Sampled n i P q v' w' →
      Agree (Value.Sampled n i P (p || q)) (f v v') (f w w'))
    (hargs : Value.SampledAll n i P args args') {row : Bool} {v w : Value}
    (h : Value.Sampled n i P row v w) :
    Agree (Value.Sampled n i P (row || args.any Value.isArray)) (args.foldlM f v) (args'.foldlM f w) := by
  induction hargs generalizing row v w with
  | nil =>
    rw [List.any_nil, Bool.or_false]
    exact .ok h
  | cons h' _ ih =>
    rw [List.foldlM_cons, List.foldlM_cons, List.any_cons, ← Bool.or_assoc]
    exact (hf h h').bind fun _ _ hr => ih hr

theorem sampled_chain {f : Value → Value → Except Fault Value}
    (hf : ∀ {p q v w v' w'}, Value.Sampled n i P p v w → Value.Sampled n i P q v' w' →
      Agree (Value.Sampled n i P (p || q)) (f v v') (f w w'))
    (h : Value.SampledAll n i P args args') :
    Agree (Value.Sampled n i P (args.any Value.isArray)) (chain f args) (chain f args') := by
  cases h with
  | nil => exact .error _
  | cons h hrest =>
    rw [List.any_cons]
    exact sampled_foldlM hf hrest h

end Primitive

/-- **A built-in operator does for each sample what it does on the sample's values.**  For the power this
    needs, given `P`, that at an exponent that differs between the samples it would make no difference to have
    it for the whole row. -/
theorem Operator.sampled_apply (hi : i < n) {f : Operator} (hf : f ∈ builtins) {args args' : List Value}
    (hcount : f.Admits args.length) (h : Value.SampledAll n i P args args')
    (hsame : P → f.function = .power → ∀ v v' w w', args = [v, v'] → args' = [w, w'] →
      v'.isArray = true → w.power w' = w.plainPower w') :
    Agree (Value.Sampled n i P (args.any Value.isArray)) (f.apply args) (f.apply args') := by
  simp only [builtins, List.mem_cons, List.not_mem_nil, or_false] at hf
  rcases hf with rfl | rfl | rfl | rfl | rfl | rfl | rfl | rfl | rfl | rfl | rfl | rfl
  · exact Primitive.sampled_chain (Value.sampled_combine hi .add) h
  · exact Primitive.sampled_binary (fun _ _ => Value.sampled_combine hi .sub) h (hcount.2 2 rfl)
  · exact Primitive.sampled_chain (Value.sampled_combine hi .mul) h
  · exact Primitive.sampled_binary (fun _ _ => Value.sampled_protectedDivide hi) h (hcount.2 2 rfl)
  · refine Primitive.sampled_binary ?_ h (hcount.2 2 rfl)
    intro p q v w v' w' hargs hargs' hv hv'
    refine Value.sampled_power hi hv hv' ?_
    intro hP hq
    exact hsame hP rfl v v' w w' hargs hargs' (hv'.isArray.trans hq)
  · exact Primitive.sampled_unary (Value.sampled_negate hi) h (hcount.2 1 rfl)
  · exact Primitive.sampled_unary (Value.sampled_elementary hi Float.sin) h (hcount.2 1 rfl)
  · exact Primitive.sampled_unary (Value.sampled_elementary hi Float.cos) h (hcount.2 1 rfl)
  · exact Primitive.sampled_unary (Value.sampled_exp hi) h (hcount.2 1 rfl)
  · exact Primitive.sampled_unary (Value.sampled_protectedLog hi) h (hcount.2 1 rfl)
  · exact Primitive.sampled_unary (Value.sampled_sqrt hi) h (hcount.2 1 rfl)
  · exact Primitive.sampled_unary (Value.sampled_abs hi) h (hcount.2 1 rfl)

/-! ## Terms -/

namespace Term

/-- The term has a variable. -/
def hasVariable (t : Term) : Bool := !t.varNames.isEmpty

theorem hasVariable_eq_false_iff {t : Term} : t.hasVariable = false ↔ t.varNames = [] := by
  simp [hasVariable]

/-- An operator has the variables of its operands. -/
theorem hasVariable_of_op {t : Term} {f : Operator} (hp : t.payload = .op f) :
    t.hasVariable = t.operands.any hasVariable := by
  have hname : t.varName? = none := by
    rw [varName?, hp]
    rfl
  rw [hasVariable, varNames_of_not_var hname]
  induction t.operands with
  | nil => rfl
  | cons u us ih =>
    rw [List.flatMap_cons, List.any_cons, ← ih, hasVariable]
    cases u.varNames <;> rfl

theorem hasVariable_of_const {t : Term} {a : Value} (hp : t.payload = .const a) : t.hasVariable = false := by
  have hname : t.varName? = none := by
    rw [varName?, hp]
    rfl
  have hleaf : t.payload.isOperator = false := by
    rw [hp]
    rfl
  rw [hasVariable, varNames_of_not_var hname, operands_of_not_isOperator hleaf]
  rfl

theorem mem_varNames_of_var {t : Term} {name : String} (hp : t.payload = .var name) : name ∈ t.varNames :=
  mem_varNames_iff.mpr ⟨t, t.self_mem_postOrder, hp⟩

theorem hasVariable_of_mem {t : Term} {name : String} (h : name ∈ t.varNames) : t.hasVariable = true := by
  rw [hasVariable]
  cases hnames : t.varNames with
  | nil =>
    rw [hnames] at h
    cases h
  | cons x xs => rfl

/-- **Trees of arithmetic**: the operators are built in and have as many operands as they admit, and the
    constants are whole numbers, words and doubles. -/
structure Arithmetic (t : Term) : Prop where
  builtin : ∀ u ∈ t.postOrder, ∀ f, u.payload = .op f →
    f ∈ Operator.builtins ∧ f.Admits u.operands.length
  number : ∀ u ∈ t.postOrder, ∀ a, u.payload = .const a → a.isNumber = true

/-- **The variables are bound to rows of `n` samples**, which are words or doubles, and for each sample to its
    elements. -/
def Rows (t : Term) (n : Nat) (b : Bindings) (samples : Nat → Bindings) : Prop :=
  ∀ name ∈ t.varNames, ∃ c : Cells, b.lookup name = some (.array c) ∧ c.grid.shape = [n]
    ∧ (c.kind = .word ∨ c.kind = .double)
    ∧ ∀ i < n, ∃ w, (samples i).lookup name = some w ∧ w.cell? = some (c.element i)

/-- The elements of rows are bindings for the samples. -/
theorem rows_sample {t : Term} {b : Bindings} (h : ∀ name ∈ t.varNames, ∃ c : Cells,
    b.lookup name = some (.array c) ∧ c.grid.shape = [n] ∧ (c.kind = .word ∨ c.kind = .double)) :
    t.Rows n b b.sample := by
  intro name hname
  obtain ⟨c, hlook, hshape, hkind⟩ := h name hname
  refine ⟨c, hlook, hshape, hkind, ?_⟩
  intro i _
  refine ⟨.cell (c.element i), ?_, rfl⟩
  rw [Bindings.lookup_sample, hlook]
  rfl

/-- **The shortcuts of power make no difference**, in a sample, to any power whose exponent has a variable. -/
def ShortcutsHarmless (t : Term) (b : Bindings) : Prop :=
  ∀ u ∈ t.postOrder, ∀ f base exponent x e, u.payload = .op f → f.function = .power →
    u.operands = [base, exponent] → exponent.hasVariable = true →
    base.value Operator.apply b = .ok x → exponent.value Operator.apply b = .ok e →
    x.power e = x.plainPower e

variable {t u : Term} {b : Bindings} {samples : Nat → Bindings}

theorem arithmetic_var (name : String) : (bare (.var name)).Arithmetic where
  builtin := by
    intro u hu f hf
    obtain rfl := List.mem_singleton.mp hu
    cases hf
  number := by
    intro u hu a ha
    obtain rfl := List.mem_singleton.mp hu
    cases ha

theorem arithmetic_const {a : Value} (h : a.isNumber = true) : (bare (.const a)).Arithmetic where
  builtin := by
    intro u hu f hf
    obtain rfl := List.mem_singleton.mp hu
    cases hf
  number := by
    intro u hu a' ha
    obtain rfl := List.mem_singleton.mp hu
    obtain rfl := Payload.const.inj ha
    exact h

theorem arithmetic_linked {f : Operator} {ts : List Term} (hf : f ∈ Operator.builtins)
    (hcount : f.Admits ts.length) (h : ∀ u ∈ ts, u.Arithmetic) : (linked (.op f) ts).Arithmetic := by
  have hmem : ∀ u ∈ (linked (.op f) ts).postOrder,
      (∃ v ∈ ts, u ∈ v.postOrder) ∨ u = linked (.op f) ts := by
    intro u hu
    rw [postOrder_eq] at hu
    rcases List.mem_append.mp hu with hu | hu
    · exact .inl (List.mem_flatMap.mp hu)
    · exact .inr (List.mem_singleton.mp hu)
  constructor
  · intro u hu g hg
    rcases hmem u hu with ⟨v, hv, hu⟩ | rfl
    · exact (h v hv).builtin u hu g hg
    · obtain rfl := Payload.op.inj hg
      exact ⟨hf, hcount⟩
  · intro u hu a ha
    rcases hmem u hu with ⟨v, hv, hu⟩ | rfl
    · exact (h v hv).number u hu a ha
    · cases ha

theorem Arithmetic.operand (h : t.Arithmetic) (hu : u ∈ t.operands) : u.Arithmetic where
  builtin := fun c hc => h.builtin c (mem_postOrder_of_operand hu hc)
  number := fun c hc => h.number c (mem_postOrder_of_operand hu hc)

theorem Rows.operand (h : t.Rows n b samples) (hu : u ∈ t.operands) : u.Rows n b samples :=
  fun name hname => h name (mem_varNames_of_operand hu hname)

theorem ShortcutsHarmless.operand (h : t.ShortcutsHarmless b) (hu : u ∈ t.operands) : u.ShortcutsHarmless b :=
  fun c hc => h c (mem_postOrder_of_operand hu hc)

/-- The values of operands are arrays where the operands have variables. -/
theorem any_isArray_eq {us : List Term} {args : List Value}
    (h : List.Forall₂ (fun u v => v.isArray = u.hasVariable) us args) :
    args.any Value.isArray = us.any hasVariable := by
  induction h with
  | nil => rfl
  | cons hv _ ih => rw [List.any_cons, List.any_cons, hv, ih]

theorem Rows.sampled {name : String} (h : t.Rows n b samples) (hname : name ∈ t.varNames) (hi : i < n) :
    Agree (Value.Sampled n i P true) (b.find name) ((samples i).find name) := by
  obtain ⟨c, hlook, hshape, hkind, hsamples⟩ := h name hname
  obtain ⟨w, hlook', hw⟩ := hsamples i hi
  have hnumeric : c.kind.isNumeric = true := by
    rcases hkind with hk | hk <;> rw [hk] <;> rfl
  rw [Bindings.find, Bindings.find, hlook, hlook']
  exact .ok (Value.sampled_array hi hshape hnumeric hw)

/-- The condition on powers at the root of a term, whose operands have the given values. -/
theorem ShortcutsHarmless.root {f : Operator} {v v' w w' : Value} (h : t.ShortcutsHarmless b)
    (hp : t.payload = .op f) (hpower : f.function = .power)
    (hvalues : List.Forall₂ (fun u a => u.value Operator.apply b = .ok a) t.operands [w, w'])
    (hflags : List.Forall₂ (fun u a => a.isArray = u.hasVariable) t.operands [v, v'])
    (harray : v'.isArray = true) : w.power w' = w.plainPower w' := by
  match hus : t.operands, hvalues, hflags with
  | [base, exponent], .cons hbase (.cons hexponent .nil), .cons _ (.cons hflag .nil) =>
    exact h t t.self_mem_postOrder f base exponent w w' hp hpower hus (hflag.symm.trans harray)
      hbase hexponent

/-- **A term of arithmetic has on rows of samples what it has on each sample.** -/
theorem sampled_value (hi : i < n) (ht : t.Arithmetic) (hb : t.Rows n b samples)
    (hsame : P → t.ShortcutsHarmless (samples i)) :
    Agree (Value.Sampled n i P t.hasVariable) (t.value Operator.apply b)
      (t.value Operator.apply (samples i)) := by
  induction t with
  | step t ih =>
    have hoperands : ∀ u ∈ t.operands, Agree (Value.Sampled n i P u.hasVariable)
        (u.value Operator.apply b) (u.value Operator.apply (samples i)) := by
      intro u hu
      refine ih u (mem_children_of_mem_operands hu) (ht.operand hu) (hb.operand hu) ?_
      exact fun hP => (hsame hP).operand hu
    have hall : Agree (Value.SampledAll n i P) (t.operands.mapM (value Operator.apply b))
        (t.operands.mapM (value Operator.apply (samples i))) := by
      refine Agree.mapM fun u hu => (hoperands u hu).imp ?_
      intro v w h
      rw [h.isArray]
      exact h
    rw [value_eq, value_eq]
    cases hargs : t.operands.mapM (value Operator.apply b) with
    | error e =>
      rw [hall.error_iff.mp hargs]
      exact .error e
    | ok args =>
      obtain ⟨args', hargs', hsampled⟩ := hall.exists_of_ok hargs
      have hvalues := Pointwise.mapM_eq_ok_iff.mp hargs
      have hvalues' := Pointwise.mapM_eq_ok_iff.mp hargs'
      rw [hargs']
      show Agree _ (t.payload.value Operator.apply b args)
        (t.payload.value Operator.apply (samples i) args')
      cases hp : t.payload with
      | const a =>
        rw [hasVariable_of_const hp]
        exact .ok (Value.sampled_number (ht.number t t.self_mem_postOrder a hp))
      | var name =>
        have hname := mem_varNames_of_var hp
        rw [hasVariable_of_mem hname]
        exact hb.sampled hname hi
      | op f =>
        obtain ⟨hf, hadmits⟩ := ht.builtin t t.self_mem_postOrder f hp
        rw [hvalues.length_eq] at hadmits
        have hflags : List.Forall₂ (fun u v => v.isArray = u.hasVariable) t.operands args := by
          refine Pointwise.imp_mem hvalues ?_
          intro u hu v _ hv
          obtain ⟨w, -, hvw⟩ := (hoperands u hu).exists_of_ok hv
          exact hvw.isArray
        have hne : args.isEmpty = false :=
          List.isEmpty_eq_false_iff.mpr (List.ne_nil_of_length_pos hadmits.1)
        show Agree _ (if args.isEmpty then _ else f.apply args) (if args'.isEmpty then _ else f.apply args')
        rw [← Pointwise.isEmpty_eq hsampled, hne, hasVariable_of_op hp, ← any_isArray_eq hflags]
        refine Operator.sampled_apply hi hf hadmits hsampled ?_
        rintro hP hpower v v' w w' rfl rfl harray
        exact (hsame hP).root hp hpower hvalues' hflags harray

end Term

/-! ## In a session -/

namespace Session

variable {s : Session} {h : Handle} {t : Term} {b : Bindings} {samples : Nat → Bindings}

/-- **Evaluating rows of samples is evaluating every sample**, by either strategy, for trees of arithmetic.
    The rows fail exactly when a sample does, each sample alike; otherwise a tree without variables has the
    value that it has for each sample, and one with variables has a row of values, of the kind of each
    sample's value.  The element of the row is the sample's value when the shortcuts that power takes for one
    exponent, but not for one that differs between the samples, make no difference. -/
theorem rows_evaluate_samples (ht : s.store.termAt? h = some t) (harith : t.Arithmetic)
    (hrows : t.Rows n b samples) (k : Strategy) (hi : i < n) :
    (∀ e, s.value Operator.apply h k.name b = .error e
        ↔ s.value Operator.apply h k.name (samples i) = .error e)
      ∧ ∀ v, s.value Operator.apply h k.name b = .ok v →
        ∃ w, s.value Operator.apply h k.name (samples i) = .ok w
          ∧ (t.hasVariable = false → w = v ∧ v.isArray = false)
          ∧ (t.hasVariable = true → ∃ c, v = .array c ∧ c.grid.shape = [n]
            ∧ w.cell?.map Cell.kind = some c.kind
            ∧ (t.ShortcutsHarmless (samples i) → w.cell? = some (c.element i))) := by
  obtain ⟨x, hh, hx⟩ := Store.termAt?_eq_some_iff.mp ht
  have hvalue : ∀ b, s.value Operator.apply h k.name b = t.value Operator.apply b :=
    fun b => value_eq Operator.apply hh hx k b
  have hagree := Term.sampled_value (P := t.ShortcutsHarmless (samples i)) hi harith hrows id
  simp only [hvalue]
  refine ⟨fun e => hagree.error_iff, ?_⟩
  intro v hv
  obtain ⟨w, hw, hvw⟩ := hagree.exists_of_ok hv
  refine ⟨w, hw, ?_, ?_⟩
  · intro hground
    have hsame : t.value Operator.apply b = t.value Operator.apply (samples i) := by
      refine Term.value_congr ?_
      rw [Term.hasVariable_eq_false_iff.mp hground]
      intro name hname
      cases hname
    rw [hv, hw] at hsame
    exact ⟨(Except.ok.inj hsame).symm, hvw.isArray.trans hground⟩
  · intro hvar
    rw [hvar] at hvw
    exact hvw.exists_array hi

/-- The sum `x * 2 + x ^ y`, under handle 5. -/
def sumOfPower : List Operation :=
  [.variableLeaf (some "x") none, .constantLeaf (.integer 2),
   .linked (.op ⟨.multiply, "multiply", none, some "*", some .multiply⟩) (some [0, 1]), .variableLeaf (some "y") none,
   .linked (.op ⟨.power, "power", some 2, some "^", some .power⟩) (some [0, 3]),
   .linked (.op ⟨.add, "add", none, some "+", some .add⟩) (some [2, 4])]

/-- The term of the power. -/
def powerTerm : Term :=
  .linked (.op ⟨.power, "power", some 2, some "^", some .power⟩) [.bare (.var "x"), .bare (.var "y")]

/-- The term of the sum. -/
def sumOfPowerTerm : Term :=
  .linked (.op ⟨.add, "add", none, some "+", some .add⟩)
    [.linked (.op ⟨.multiply, "multiply", none, some "*", some .multiply⟩) [.bare (.var "x"), .bare (.const (.integer 2))],
     powerTerm]

/-- Two words, and two doubles. -/
def sumRows : Bindings :=
  [("x", .array (.words ⟨[2], [3, -1], rfl⟩)), ("y", .array (.doubles ⟨[2], [0.5, 3.0], rfl⟩))]

theorem arithmetic_powerTerm : powerTerm.Arithmetic := by
  refine Term.arithmetic_linked (by decide) ⟨by decide, by rintro m ⟨⟩; rfl⟩ ?_
  intro u hu
  rcases List.mem_pair.mp hu with rfl | rfl
  · exact Term.arithmetic_var "x"
  · exact Term.arithmetic_var "y"

/-- The second element of the row of sums is the sum of the second elements. -/
theorem rows_evaluate_samples_sumOfPower :
    (run Operator.apply sumOfPower).store.termAt? 5 = some sumOfPowerTerm ∧ sumOfPowerTerm.Arithmetic
      ∧ sumOfPowerTerm.Rows 2 sumRows sumRows.sample
      ∧ sumOfPowerTerm.ShortcutsHarmless (sumRows.sample 1)
      ∧ ∃ c w, (run Operator.apply sumOfPower).value Operator.apply 5 "recursive" sumRows = .ok (.array c)
        ∧ (run Operator.apply sumOfPower).value Operator.apply 5 "recursive" (sumRows.sample 1) = .ok w
        ∧ w.cell? = some (c.element 1) := by
  have ht : (run Operator.apply sumOfPower).store.termAt? 5 = some sumOfPowerTerm := rfl
  have hproduct : (Term.linked (.op ⟨.multiply, "multiply", none, some "*", some .multiply⟩)
      [.bare (.var "x"), .bare (.const (.integer 2))]).Arithmetic := by
    refine Term.arithmetic_linked (by decide) ⟨by decide, by rintro m ⟨⟩⟩ ?_
    intro u hu
    rcases List.mem_pair.mp hu with rfl | rfl
    · exact Term.arithmetic_var "x"
    · exact Term.arithmetic_const rfl
  have harith : sumOfPowerTerm.Arithmetic := by
    refine Term.arithmetic_linked (by decide) ⟨by decide, by rintro m ⟨⟩⟩ ?_
    intro u hu
    rcases List.mem_pair.mp hu with rfl | rfl
    · exact hproduct
    · exact arithmetic_powerTerm
  have hrows : sumOfPowerTerm.Rows 2 sumRows sumRows.sample := by
    refine Term.rows_sample ?_
    intro name hname
    have hnames : name ∈ ["x", "x", "y"] := hname
    simp only [List.mem_cons, List.not_mem_nil, or_false] at hnames
    rcases hnames with rfl | rfl | rfl
    · exact ⟨_, rfl, rfl, .inl rfl⟩
    · exact ⟨_, rfl, rfl, .inl rfl⟩
    · exact ⟨_, rfl, rfl, .inr rfl⟩
  have hshortcuts : sumOfPowerTerm.ShortcutsHarmless (sumRows.sample 1) := by
    intro u hu f base exponent x e hf hpower hus hvar hx he
    have hmem : u ∈ [.bare (.var "x"), .bare (.const (.integer 2)), _, .bare (.var "x"), .bare (.var "y"),
      powerTerm, sumOfPowerTerm] := hu
    simp only [List.mem_cons, List.not_mem_nil, or_false] at hmem
    rcases hmem with rfl | rfl | rfl | rfl | rfl | rfl | rfl
    · cases hf
    · cases hf
    · cases hf
      cases hpower
    · cases hf
    · cases hf
    · cases hus
      cases hx
      cases he
      -- the exponent is three
      have hspecial : Elementary.isSpecial (Elementary.confine powerLimit 3.0) = false := by decide +kernel
      exact Value.power_eq_plainPower rfl rfl rfl rfl hspecial
    · cases hf
      cases hpower
  obtain ⟨-, hvalue⟩ := rows_evaluate_samples ht harith hrows .recursive Nat.one_lt_two
  have hsum : ∃ v, (run Operator.apply sumOfPower).value Operator.apply 5 "recursive" sumRows = .ok v :=
    ⟨_, rfl⟩
  obtain ⟨v, hv⟩ := hsum
  obtain ⟨w, hw, -, hrow⟩ := hvalue v hv
  obtain ⟨c, rfl, -, -, helement⟩ := hrow rfl
  exact ⟨ht, harith, hrows, hshortcuts, c, w, hv, hw, helement hshortcuts⟩

/-- The power `x ^ y`, under handle 2. -/
def powerOfNames : List Operation :=
  [.variableLeaf (some "x") none, .variableLeaf (some "y") none,
   .linked (.op ⟨.power, "power", some 2, some "^", some .power⟩) (some [0, 1])]

/-- The negative infinity and four, and one half for both. -/
def rootRows : Bindings :=
  [("x", .array (.doubles ⟨[2], [-1.0 / 0.0, 4.0], rfl⟩)),
   ("y", .array (.doubles ⟨[2], [0.5, 0.5], rfl⟩))]

/-- **An element may differ from the sample's value.**  With a row of exponents the power of the negative
    infinity and one half is infinite, and with a single exponent it is a square root, which is not a
    number. -/
theorem element_ne_sample_of_root :
    (run Operator.apply powerOfNames).store.termAt? 2 = some powerTerm ∧ powerTerm.Arithmetic
      ∧ powerTerm.Rows 2 rootRows rootRows.sample
      ∧ ∀ k : Strategy, ∃ c w,
        (run Operator.apply powerOfNames).value Operator.apply 2 k.name rootRows = .ok (.array c)
        ∧ (run Operator.apply powerOfNames).value Operator.apply 2 k.name (rootRows.sample 0) = .ok w
        ∧ c.element 0 = ⟨.double, 1.0 / 0.0⟩ ∧ w.cell? = some ⟨.double, 0.0 / 0.0⟩
        ∧ w.cell? ≠ some (c.element 0) := by
  have ht : (run Operator.apply powerOfNames).store.termAt? 2 = some powerTerm := rfl
  have hrows : powerTerm.Rows 2 rootRows rootRows.sample := by
    refine Term.rows_sample ?_
    intro name hname
    have hnames : name ∈ ["x", "y"] := hname
    rcases List.mem_pair.mp hnames with rfl | rfl
    · exact ⟨_, rfl, rfl, .inr rfl⟩
    · exact ⟨_, rfl, rfl, .inr rfl⟩
  obtain ⟨v, hh, hv⟩ := Store.termAt?_eq_some_iff.mp ht
  have hinfinite : Elementary.pow false (-1.0 / 0.0) 0.5 = 1.0 / 0.0 := by decide +kernel
  have hnone : Elementary.pow true (-1.0 / 0.0) 0.5 = 0.0 / 0.0 := by decide +kernel
  have hdiffer : (0.0 / 0.0 : Float) ≠ 1.0 / 0.0 := by decide +kernel
  refine ⟨ht, arithmetic_powerTerm, hrows, ?_⟩
  intro k
  simp only [value_eq Operator.apply hh hv k]
  refine ⟨.doubles ⟨[2], [Elementary.pow false (-1.0 / 0.0) 0.5, Elementary.pow false 4.0 0.5], rfl⟩,
    .cell ⟨.double, Elementary.pow true (-1.0 / 0.0) 0.5⟩, rfl, rfl, ?_, ?_, ?_⟩
  · show (⟨.double, Elementary.pow false (-1.0 / 0.0) 0.5⟩ : Cell) = _
    rw [hinfinite]
  · show some (⟨.double, Elementary.pow true (-1.0 / 0.0) 0.5⟩ : Cell) = _
    rw [hnone]
  · show some (⟨.double, Elementary.pow true (-1.0 / 0.0) 0.5⟩ : Cell)
      ≠ some ⟨.double, Elementary.pow false (-1.0 / 0.0) 0.5⟩
    rw [hinfinite, hnone]
    intro h
    exact hdiffer (eq_of_heq (Cell.mk.inj (Option.some.inj h)).2)

end Session

end ExprGraph

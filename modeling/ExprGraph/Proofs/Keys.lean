import ExprGraph.Payload
/-!
  Equal payloads and their keys.

  Main statement: two equal payloads have one key, except that a whole number and a double of which one has a
  fixed kind are equal as soon as they are the same double, and then the keys differ wherever rounding has
  changed the whole number (`Payload.key_eq_iff_of_same`).

    * numbers    a number is whole, or a double, or a half (`Value.IsWhole`, `Value.IsDouble`)
    * alignment  two whole numbers and two doubles are compared exactly, and so are a free whole number and
                 a free double (`Numeric.align_whole` and the lemmas behind it)
    * keys       the key of a number is the exact number (`Value.key?_of_whole`, `Value.key?_of_double`)

  The exception does occur: `2^53 + 1` as a word equals the double `2^53` (`Payload.key_ne_of_same`).
-/

namespace ExprGraph

open Number (Exact)

/-! ## Numbers brought together -/

theorem Grid.agree_scalar {α β : Type} (r : α → β → Bool) (x : α) (y : β) :
    (scalar x).agree r (scalar y) = r x y := by
  simp [agree, scalar]

/-- Whole numbers are equal when they are the same number. -/
theorem Number.Exact.finite_equals (m n : Int) :
    (finite (m : Rat)).equals (finite (n : Rat)) = decide (m = n) := by
  simp [equals]

namespace Numeric

variable {x y : Numeric} {m n : Int} {u v : Float} {e f : Exact}

/-- A whole number, free or in a cell. -/
inductive IsWhole : Numeric → Int → Prop where
  | truth (b : Bool) : IsWhole (truth b) (if b then 1 else 0)
  | integer (n : Int) : IsWhole (integer n) n
  | cell {k : CellKind} (whole : k.isWhole = true) (x : k.Carrier) : IsWhole (fixed ⟨k, .scalar x⟩) (k.toInt x)

/-- A double, free or in a cell. -/
inductive IsDouble : Numeric → Float → Prop where
  | real (x : Float) : IsDouble (real x) x
  | cell (x : Float) : IsDouble (fixed (.double x)) x

theorem same_of_align (h : x.align y = .ok (.scalar e, .scalar f)) : x.same y = .ok (e.equals f) := by
  rw [same, h]
  exact congrArg Except.ok (Grid.agree_scalar _ e f)

/-- A cell that holds a whole number stands for it exactly. -/
theorem exactly_cell {k : CellKind} (hk : k.isWhole = true) (a : k.Carrier) :
    Cells.exactly ⟨k, .scalar a⟩ = .scalar (.finite (k.toInt a)) := by
  show Grid.scalar (k.exactly a) = _
  rw [CellKind.exactly, if_pos hk]

theorem align_cells {k l : CellKind} (hk : k.isWhole = true) (hl : l.isWhole = true) (a : k.Carrier)
    (b : l.Carrier) : Cells.align ⟨k, .scalar a⟩ ⟨l, .scalar b⟩
      = (.scalar (.finite (k.toInt a)), .scalar (.finite (l.toInt b))) := by
  rw [Cells.align, hk, hl, Bool.and_self, if_pos rfl, exactly_cell hk, exactly_cell hl]

/-- Beside a truth cell a whole number has to fit a word. -/
theorem alignInt_cell {k : CellKind} (hk : k.isWhole = true) (a : k.Carrier) (n : Int) :
    Cells.alignInt ⟨k, .scalar a⟩ n = .ok (.scalar (.finite (k.toInt a)), .finite n)
      ∨ Cells.alignInt ⟨k, .scalar a⟩ n = .error .outOfRange := by
  unfold Cells.alignInt
  split
  · exact .inr rfl
  · rw [exactly_cell hk]
    exact .inl rfl

theorem exactly_truth (b : Bool) : (truth b).exactly = .finite (if b then 1 else 0 : Int) := by
  cases b <;> rfl

/-- **Two whole numbers are brought together as they are**, if at all. -/
theorem align_whole (hx : x.IsWhole m) (hy : y.IsWhole n) :
    x.align y = .ok (.scalar (.finite m), .scalar (.finite n)) ∨ x.align y = .error .outOfRange := by
  cases hx with
  | truth a =>
    cases hy with
    | truth b =>
      left
      rw [← exactly_truth, ← exactly_truth]
      rfl
    | integer n =>
      left
      rw [← exactly_truth]
      rfl
    | @cell l hl b =>
      left
      show Except.ok (Cells.align ⟨.truth, .scalar a⟩ ⟨l, .scalar b⟩) = _
      rw [align_cells rfl hl]
      rfl
  | integer m =>
    cases hy with
    | truth b =>
      left
      rw [← exactly_truth]
      rfl
    | integer n => exact .inl rfl
    | @cell l hl b =>
      simp only [align]
      rcases alignInt_cell hl b m with h | h <;> rw [h]
      · exact .inl rfl
      · exact .inr rfl
  | @cell k hk a =>
    cases hy with
    | truth b =>
      left
      show Except.ok (Cells.align ⟨k, .scalar a⟩ ⟨.truth, .scalar b⟩) = _
      rw [align_cells hk rfl]
      rfl
    | integer n =>
      simp only [align]
      rcases alignInt_cell hk a n with h | h <;> rw [h]
      · exact .inl rfl
      · exact .inr rfl
    | @cell l hl b =>
      left
      show Except.ok (Cells.align ⟨k, .scalar a⟩ ⟨l, .scalar b⟩) = _
      rw [align_cells hk hl]

/-- **Two doubles are brought together as they are.** -/
theorem align_double (hx : x.IsDouble u) (hy : y.IsDouble v) :
    x.align y = .ok (.scalar (Number.exactly u), .scalar (Number.exactly v)) := by
  cases hx <;> cases hy <;> rfl

/-- The number has a fixed kind. -/
def isFixed : Numeric → Bool
  | fixed _ => true
  | _ => false

/-- **A free whole number and a free double are brought together as they are.** -/
theorem align_free (hx : x.IsWhole m) (hy : y.IsDouble u) (hxf : x.isFixed = false) (hyf : y.isFixed = false) :
    x.align y = .ok (.scalar (.finite m), .scalar (Number.exactly u))
      ∧ y.align x = .ok (.scalar (Number.exactly u), .scalar (.finite m)) := by
  cases hy with
  | cell u => cases hyf
  | real u =>
    cases hx with
    | cell hk a => cases hxf
    | integer m => exact ⟨rfl, rfl⟩
    | truth b =>
      rw [← exactly_truth]
      exact ⟨rfl, rfl⟩

end Numeric

/-! ## Values -/

namespace Value

variable {a b : Value} {m n : Int} {u v : Float} {x y : Numeric}

/-- A single number: a whole number, a double or a half. -/
def isSingle : Value → Bool
  | integer _ | real _ | truth _ | cell _ => true
  | text _ | absent | array _ => false

/-- **The value is a whole number**, free or in a cell. -/
def IsWhole (a : Value) (n : Int) : Prop := a.isSingle = true ∧ ∃ x, a.numeric? = some x ∧ x.IsWhole n

/-- **The value is a double**, free or in a cell. -/
def IsDouble (a : Value) (u : Float) : Prop := a.isSingle = true ∧ ∃ x, a.numeric? = some x ∧ x.IsDouble u

/-- The value is a cell, which keeps its kind. -/
def isFixed : Value → Bool
  | cell _ => true
  | _ => false

theorem isArray_of_isSingle (h : a.isSingle = true) : a.isArray = false := by
  cases a <;> first | rfl | cases h

theorem isFixed_eq (ha : a.isSingle = true) (hx : a.numeric? = some x) : x.isFixed = a.isFixed := by
  cases a <;> cases hx <;> first | rfl | cases ha

/-- Single numbers are compared as numbers. -/
theorem same_eq (ha : a.isSingle = true) (hb : b.isSingle = true) (hx : a.numeric? = some x)
    (hy : b.numeric? = some y) : a.same b = x.same y := by
  unfold same
  split
  · cases ha
  · cases ha
  · simp only [hx, hy, isArray_of_isSingle ha, isArray_of_isSingle hb]
    rfl

/-! ### Equality -/

theorem eq_of_same_whole (ha : a.IsWhole m) (hb : b.IsWhole n) (h : a.same b = .ok true) : m = n := by
  obtain ⟨hsa, x, hx, hxm⟩ := ha
  obtain ⟨hsb, y, hy, hyn⟩ := hb
  rw [same_eq hsa hsb hx hy] at h
  rcases Numeric.align_whole hxm hyn with halign | halign
  · rw [Numeric.same_of_align halign, Exact.finite_equals] at h
    exact of_decide_eq_true (Except.ok.inj h)
  · rw [Numeric.same, halign] at h
    cases h

theorem exactly_eq_of_same_double (ha : a.IsDouble u) (hb : b.IsDouble v) (h : a.same b = .ok true) :
    Number.exactly u = Number.exactly v := by
  obtain ⟨hsa, x, hx, hxu⟩ := ha
  obtain ⟨hsb, y, hy, hyv⟩ := hb
  rw [same_eq hsa hsb hx hy, Numeric.same_of_align (Numeric.align_double hxu hyv)] at h
  exact (of_decide_eq_true (Except.ok.inj h)).2

/-- A free whole number equals a free double only when it is that number. -/
theorem exactly_eq_of_same_free (ha : a.IsWhole m) (hb : b.IsDouble u) (haf : a.isFixed = false)
    (hbf : b.isFixed = false) (h : a.same b = .ok true ∨ b.same a = .ok true) :
    Number.exactly u = .finite m := by
  obtain ⟨hsa, x, hx, hxm⟩ := ha
  obtain ⟨hsb, y, hy, hyu⟩ := hb
  obtain ⟨hxy, hyx⟩ := Numeric.align_free hxm hyu ((isFixed_eq hsa hx).trans haf)
    ((isFixed_eq hsb hy).trans hbf)
  rw [same_eq hsa hsb hx hy, same_eq hsb hsa hy hx, Numeric.same_of_align hxy,
    Numeric.same_of_align hyx] at h
  rcases h with h | h
  · exact (of_decide_eq_true (Except.ok.inj h)).2.symm
  · exact (of_decide_eq_true (Except.ok.inj h)).2

/-- What is no number equals only what is the same. -/
theorem eq_of_same_of_none (ha : a.numeric? = none) (h : a.same b = .ok true) : a = b := by
  cases a with
  | text s =>
    cases b with
    | text t => exact congrArg text (of_decide_eq_true (Except.ok.inj h))
    | integer n | real u | truth t | absent | cell c | array c => cases Except.ok.inj h
  | absent =>
    cases b with
    | absent => rfl
    | integer n | real u | truth t | text s | cell c | array c => cases Except.ok.inj h
  | integer n | real u | truth t | cell c | array c => cases ha

theorem numeric?_of_same (ha : a.numeric? = some x) (h : a.same b = .ok true) :
    ∃ y, b.numeric? = some y := by
  cases hb : b.numeric? with
  | some y => exact ⟨y, rfl⟩
  | none =>
    unfold same at h
    split at h
    · cases ha
    · cases ha
    · simp only [ha, hb] at h
      cases Except.ok.inj h

/-! ### Keys -/

theorem key?_of_whole (h : a.IsWhole n) : a.key? = some (.number (.finite n)) := by
  obtain ⟨hs, x, hx, hn⟩ := h
  cases a with
  | integer m =>
    cases hx
    cases hn
    rfl
  | truth t =>
    cases hx
    cases hn
    rw [← Numeric.exactly_truth]
    rfl
  | real u =>
    cases hx
    cases hn
  | cell c =>
    obtain ⟨k, z⟩ := c
    cases hx
    cases hn with
    | cell hk _ =>
      rw [key?, CellKind.exactly, if_pos hk]
  | text s | absent | array c => cases hs

theorem key?_of_double (h : a.IsDouble u) : a.key? = some (.number (Number.exactly u)) := by
  obtain ⟨hs, x, hx, hu⟩ := h
  cases a with
  | real v =>
    cases hx
    cases hu
    rfl
  | integer m | truth t =>
    cases hx
    cases hu
  | cell c =>
    obtain ⟨k, z⟩ := c
    cases hx
    cases hu
    rfl
  | text s | absent | array c => cases hs

/-- A value that is neither an array nor a half. -/
def isPlain : Value → Bool
  | array _ | cell ⟨.half, _⟩ => false
  | _ => true

theorem plain_cases (h : a.isPlain = true) :
    a.numeric? = none ∨ (∃ n, a.IsWhole n) ∨ ∃ u, a.IsDouble u := by
  cases a with
  | text s | absent => exact .inl rfl
  | integer n => exact .inr (.inl ⟨n, rfl, _, rfl, .integer n⟩)
  | truth t => exact .inr (.inl ⟨_, rfl, _, rfl, .truth t⟩)
  | real u => exact .inr (.inr ⟨u, rfl, _, rfl, .real u⟩)
  | array c => cases h
  | cell c =>
    obtain ⟨k, x⟩ := c
    cases k with
    | truth | word | unsigned => exact .inr (.inl ⟨_, rfl, _, rfl, .cell rfl x⟩)
    | double => exact .inr (.inr ⟨x, rfl, _, rfl, .cell x⟩)
    | half => cases h

theorem exists_key (h : a.isPlain = true) : ∃ k, a.key? = some k := by
  cases a with
  | array c => cases h
  | integer n | real u | text s | truth t | absent | cell c => exact ⟨_, rfl⟩

/-- **A whole number beside a double that is another number.**  One of the two has a fixed kind, so they are
    not compared exactly, but as doubles. -/
structure Rounded (a b : Value) : Prop where
  fixed : a.isFixed = true ∨ b.isFixed = true
  differ : ∃ n u, a.IsWhole n ∧ b.IsDouble u ∧ Number.exactly u ≠ .finite n

theorem Rounded.key_ne (h : a.Rounded b) : a.key? ≠ b.key? := by
  obtain ⟨-, n, u, hn, hu, hne⟩ := h
  rw [key?_of_whole hn, key?_of_double hu]
  exact fun heq => hne (Key.number.inj (Option.some.inj heq)).symm

/-- A whole number and a double that are equal have one key, unless they were rounded. -/
theorem key_eq_of_not_rounded (ha : a.IsWhole n) (hb : b.IsDouble u)
    (h : a.same b = .ok true ∨ b.same a = .ok true) (hab : ¬ a.Rounded b) : a.key? = b.key? := by
  rw [key?_of_whole ha, key?_of_double hb]
  by_cases heq : Number.exactly u = .finite n
  · rw [heq]
  · cases haf : a.isFixed with
    | true => exact absurd ⟨.inl haf, n, u, ha, hb, heq⟩ hab
    | false =>
      cases hbf : b.isFixed with
      | true => exact absurd ⟨.inr hbf, n, u, ha, hb, heq⟩ hab
      | false => exact absurd (exactly_eq_of_same_free ha hb haf hbf h) heq

/-- **Equal values have one key**, unless they were rounded. -/
theorem key_eq_of_same (ha : a.isPlain = true) (hb : b.isPlain = true) (h : a.same b = .ok true)
    (hab : ¬ a.Rounded b) (hba : ¬ b.Rounded a) : a.key? = b.key? := by
  rcases plain_cases ha with hnone | ⟨n, hn⟩ | ⟨u, hu⟩
  · rw [eq_of_same_of_none hnone h]
  · obtain ⟨-, x, hx, -⟩ := id hn
    obtain ⟨y, hy⟩ := numeric?_of_same hx h
    rcases plain_cases hb with hnone | ⟨m, hm⟩ | ⟨v, hv⟩
    · rw [hy] at hnone
      cases hnone
    · rw [key?_of_whole hn, key?_of_whole hm, eq_of_same_whole hn hm h]
    · exact key_eq_of_not_rounded hn hv (.inl h) hab
  · obtain ⟨-, x, hx, -⟩ := id hu
    obtain ⟨y, hy⟩ := numeric?_of_same hx h
    rcases plain_cases hb with hnone | ⟨m, hm⟩ | ⟨v, hv⟩
    · rw [hy] at hnone
      cases hnone
    · exact (key_eq_of_not_rounded hm hu (.inr h) hba).symm
    · rw [key?_of_double hu, key?_of_double hv, exactly_eq_of_same_double hu hv h]

/-- A word and a free double are equal when they are the same double. -/
theorem same_word_real (w : Int64) (u : Float) :
    (word w).same (real u) = .ok ((Number.exactly (Number.ofWord w)).equals (Number.exactly u)) :=
  Numeric.same_of_align rfl

end Value

namespace Payload

/-- A payload whose constant, if it is one, is neither an array nor a half. -/
def isPlain : Payload → Bool
  | const a => a.isPlain
  | op _ | var _ => true

/-- **A constant whole number beside a constant double that is another number**, compared as doubles. -/
def Rounded (p q : Payload) : Prop := ∃ a b, p = const a ∧ q = const b ∧ a.Rounded b

variable {p q : Payload}

theorem Rounded.key_ne (h : p.Rounded q) : p.key? ≠ q.key? := by
  obtain ⟨a, b, rfl, rfl, hab⟩ := h
  exact fun heq => hab.key_ne (Option.map_injective (fun _ _ => PayloadKey.const.inj) heq)

/-- **Equal payloads have one key exactly when no rounding made them equal.**  Operators that agree in
    function, name, arity and symbol, variables of one name, texts, the absent value, truths, whole numbers
    of any size and kind, and doubles all have one key when they are equal; and so have a free whole number
    and a free double.  A whole number and a double of which one has a fixed kind are equal when they are the
    same double, and their keys then differ if the whole number is not that double. -/
theorem key_eq_iff_of_same (hp : p.isPlain = true) (hq : q.isPlain = true) (h : p.same q = .ok true) :
    (∃ k, p.key? = some k) ∧ (∃ k, q.key? = some k)
      ∧ (p.key? = q.key? ↔ ¬ p.Rounded q ∧ ¬ q.Rounded p) := by
  have hkey : ∀ {p : Payload}, p.isPlain = true → ∃ k, p.key? = some k := by
    intro p hp
    cases p with
    | op f | var x => exact ⟨_, rfl⟩
    | const a =>
      obtain ⟨k, hk⟩ := a.exists_key hp
      exact ⟨_, congrArg (Option.map PayloadKey.const) hk⟩
  refine ⟨hkey hp, hkey hq, fun heq => ⟨fun hpq => hpq.key_ne heq, fun hqp => hqp.key_ne heq.symm⟩, ?_⟩
  rintro ⟨hpq, hqp⟩
  cases p with
  | op f =>
    cases q with
    | op g => exact congrArg (fun f => some (PayloadKey.op f)) (of_decide_eq_true (Except.ok.inj h))
    | var y | const b => cases Except.ok.inj h
  | var x =>
    cases q with
    | var y => rw [of_decide_eq_true (Except.ok.inj h)]
    | op g | const b => cases Except.ok.inj h
  | const a =>
    cases q with
    | op g | var y => cases Except.ok.inj h
    | const b =>
      exact congrArg (Option.map PayloadKey.const) (Value.key_eq_of_same hp hq h
        (fun hab => hpq ⟨a, b, rfl, rfl, hab⟩) fun hba => hqp ⟨b, a, rfl, rfl, hba⟩)

/-- Three as a word and as a double: equal without any rounding, and filed under one key. -/
theorem key_eq_iff_of_same_three :
    (const (.word 3)).isPlain = true ∧ (const (.real 3.0)).isPlain = true
      ∧ (const (.word 3)).same (const (.real 3.0)) = .ok true
      ∧ (const (.word 3)).key? = (const (.real 3.0)).key?
      ∧ ¬ (const (.word 3)).Rounded (const (.real 3.0)) ∧ ¬ (const (.real 3.0)).Rounded (const (.word 3)) := by
  have hsame : (const (.word 3)).same (const (.real 3.0)) = .ok true := by
    refine (Value.same_word_real 3 3.0).trans (congrArg Except.ok ?_)
    decide +kernel
  have hkeys : (const (.word 3)).key? = (const (.real 3.0)).key? := by decide +kernel
  exact ⟨rfl, rfl, hsame, hkeys, (key_eq_iff_of_same rfl rfl hsame).2.2.mp hkeys⟩

/-- **Equal payloads may have different keys.**  As a double `2^53 + 1` is `2^53`. -/
theorem key_ne_of_same :
    (const (.word 9007199254740993)).same (const (.real 9007199254740992.0)) = .ok true
      ∧ ∃ k l, (const (.word 9007199254740993)).key? = some k
        ∧ (const (.real 9007199254740992.0)).key? = some l ∧ k ≠ l := by
  refine ⟨(Value.same_word_real _ _).trans (congrArg Except.ok ?_), _, _, rfl, rfl, ?_⟩
  · decide +kernel
  · decide +kernel

end Payload

end ExprGraph

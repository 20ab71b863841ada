import ExprGraph.Algebra.Export
import ExprGraph.Proofs.ValueSemantics
import ExprGraph.Tree.Measures
import ExprGraph.Tree.Rendering
/-!
  Text, depth and algebraic image of a tree.

  All three are computed along a walk, from a working list of the results of finished occurrences.  They are
  specified by recursion on the term, one rule for each kind of vertex; the specification knows neither the
  walk nor the list.

  Main statement: text, depth and image of a tree are those its term has by these rules, and an image that
  fails does so with the fault of the first failing occurrence (`Store.renderings_recursive`).

    * rules      `WrittenAs`, `DeepAs`, `ImageOf`, and `Unexported` for what cannot be exported;
    * recursion  results of the operands in link order, then the rule at the vertex (`Term.Derives`);
    * failure    the first occurrence in post-order whose operands have results and that has none itself
                 (`Term.FailsFirst`).
-/

namespace ExprGraph

/-! ## Recursion by rules -/

namespace Term

variable {ε α : Type}

/-- **The results of a term by a rule**: the operands have results, and the rule makes of them, in order, a
    result of the payload. -/
inductive Derives (rule : Payload → List α → α → Prop) : Term → α → Prop where
  | intro {t : Term} {args : List α} {a : α} (hargs : List.Forall₂ (Derives rule) t.operands args)
      (ha : rule t.payload args a) : Derives rule t a

section Computed

variable {node : Payload → List α → Except ε α} {rule : Payload → List α → α → Prop}
  {fault : Payload → List α → ε → Prop} {t : Term}

/-- Results given one by one are results computed one after the other. -/
theorem forall₂_iff_mapM {R : Term → α → Prop} {f : Term → Except ε α} {us : List Term}
    (h : ∀ u ∈ us, ∀ a, R u a ↔ f u = .ok a) {args : List α} :
    List.Forall₂ R us args ↔ us.mapM f = .ok args := by
  rw [Pointwise.mapM_eq_ok_iff]
  constructor
  · exact fun hall => Pointwise.imp_mem hall fun u hu a _ ha => (h u hu a).mp ha
  · exact fun hall => Pointwise.imp_mem hall fun u hu a _ ha => (h u hu a).mpr ha

/-- **A rule that is computed at each vertex is computed for a term.** -/
theorem derives_iff (hrule : ∀ p args a, rule p args a ↔ node p args = .ok a) {a : α} :
    t.Derives rule a ↔ t.result node = .ok a := by
  induction t generalizing a with
  | step t ih =>
    have hops : ∀ args, List.Forall₂ (Derives rule) t.operands args
        ↔ t.operands.mapM (result node) = .ok args := fun args =>
      forall₂_iff_mapM fun u hu b => ih u (mem_children_of_mem_operands hu)
    rw [result_eq]
    constructor
    · rintro ⟨hargs, ha⟩
      rw [(hops _).mp hargs]
      exact (hrule _ _ _).mp ha
    · intro h
      obtain ⟨args, hargs, ha⟩ := exists_of_bind_eq_ok h
      exact .intro ((hops args).mpr hargs) ((hrule _ _ _).mpr ha)

/-- A rule that never fails is computed likewise. -/
theorem derives_iff_certain {node : Payload → List α → α} (hrule : ∀ p args a, rule p args a ↔ node p args = a)
    {a : α} : t.Derives rule a ↔ t.result (fun p args => (.ok (node p args) : Except Empty α)) = .ok a :=
  derives_iff fun p args b => by rw [hrule, Except.ok.injEq]

end Computed

end Term

/-! ## The rules -/

/-- **How a vertex is written** when its operands are. -/
inductive WrittenAs : Payload → List String → String → Prop where
  /-- a leaf as what it holds -/
  | leaf {p : Payload} {args : List String} (hleaf : p.isOperator = false) : WrittenAs p args p.display
  /-- an operator without operands -/
  | alone (f : Operator) : WrittenAs (.op f) [] (f.name ++ "()")
  /-- an operator with a sign, between two operands or more -/
  | between {f : Operator} {sign : String} {args : List String} (hsign : f.symbol = some sign)
      (hmany : 2 ≤ args.length) :
      WrittenAs (.op f) args ("(" ++ (" " ++ sign ++ " ").intercalate args ++ ")")
  /-- any other operator, in front of its operands -/
  | before {f : Operator} {args : List String} (hsome : args ≠ [])
      (hplain : f.symbol = none ∨ args.length = 1) :
      WrittenAs (.op f) args (f.name ++ "(" ++ ", ".intercalate args ++ ")")

/-- **How deep a vertex reaches** when its operands reach so deep. -/
inductive DeepAs : Payload → List Nat → Nat → Prop where
  /-- a vertex without operands -/
  | alone (p : Payload) : DeepAs p [] 1
  /-- one more than the deepest operand -/
  | above {p : Payload} {depths : List Nat} {d : Nat} (hmem : d ∈ depths) (hmax : ∀ c ∈ depths, c ≤ d) :
      DeepAs p depths (d + 1)

/-- **The image of a vertex** made of those of its operands. -/
inductive ImageOf {α : Type} (e : Export α) : Payload → List α → α → Prop where
  | symbol {name : String} {args : List α} {a : α} (h : e.symbol name = .ok a) : ImageOf e (.var name) args a
  | constant {v : Value} {args : List α} {a : α} (h : e.constant v = .ok a) : ImageOf e (.const v) args a
  /-- an operator with a counterpart -/
  | counterpart {f : Operator} {c : Counterpart} {args : List α} {a : α} (hsome : args ≠ [])
      (hf : f.counterpart = some c) (h : e.counterpart c args = .ok a) : ImageOf e (.op f) args a
  /-- any other operator, as an undefined function of its name -/
  | undefined {f : Operator} {args : List α} {a : α} (hsome : args ≠ []) (hf : f.counterpart = none)
      (h : e.undefined f.name args = .ok a) : ImageOf e (.op f) args a

namespace Operator

variable {f : Operator} {sign : String} {args : List String}

theorem render_between (hsign : f.symbol = some sign) (hmany : 2 ≤ args.length) :
    f.render args = "(" ++ (" " ++ sign ++ " ").intercalate args ++ ")" := by
  obtain ⟨a, b, rest, rfl⟩ : ∃ a b rest, args = a :: b :: rest := by
    match args, hmany with
    | a :: b :: rest, _ => exact ⟨a, b, rest, rfl⟩
  simp only [render, hsign]

theorem render_before (hplain : f.symbol = none ∨ args.length ≤ 1) :
    f.render args = f.name ++ "(" ++ ", ".intercalate args ++ ")" := by
  unfold render
  split
  · next hsign =>
    rcases hplain with h | h
    · rw [hsign] at h
      cases h
    · simp at h
  · rfl

theorem render_alone (f : Operator) : f.render [] = f.name ++ "()" := by
  have hshort : ([] : List String).length ≤ 1 := Nat.zero_le 1
  rw [render_before (.inr hshort), String.append_assoc, String.append_assoc]
  rfl

end Operator

/-- The text of a payload between its written operands. -/
def Payload.written : Payload → List String → String
  | .op f, args => f.render args
  | p, _ => p.display

theorem writtenAs_written (p : Payload) (args : List String) : WrittenAs p args (p.written args) := by
  cases p with
  | op f =>
    show WrittenAs (.op f) args (f.render args)
    rcases (show args = [] ∨ args.length = 1 ∨ 2 ≤ args.length by
      rcases args with _ | ⟨a, _ | ⟨b, rest⟩⟩ <;> simp)
      with rfl | hone | hmany
    · rw [Operator.render_alone]
      exact .alone f
    · rw [Operator.render_before (.inr (Nat.le_of_eq hone))]
      exact .before (by rintro rfl; cases hone) (.inr hone)
    · cases hsign : f.symbol with
      | none =>
        rw [Operator.render_before (.inl hsign)]
        exact .before (by rintro rfl; cases hmany) (.inl hsign)
      | some sign =>
        rw [Operator.render_between hsign hmany]
        exact .between hsign hmany
  | var name => exact .leaf rfl
  | const v => exact .leaf rfl

theorem writtenAs_iff (p : Payload) (args : List String) (text : String) :
    WrittenAs p args text ↔ p.written args = text := by
  constructor
  · intro h
    cases h with
    | leaf hleaf =>
      cases p with
      | op f => cases hleaf
      | var name => rfl
      | const v => rfl
    | alone f => exact Operator.render_alone f
    | between hsign hmany => exact Operator.render_between hsign hmany
    | before hsome hplain => exact Operator.render_before (hplain.imp_right Nat.le_of_eq)
  · rintro rfl
    exact writtenAs_written p args

/-- The text of a vertex is that of its payload. -/
theorem Vertex.render_eq (x : Vertex) (args : List String) : x.render args = x.payload.written args := by
  unfold Payload.written Vertex.render
  cases x.payload <;> rfl

/-- The greatest of some numbers is the one that no other exceeds. -/
theorem foldl_max_eq_iff {ds : List Nat} {d : Nat} (hsome : ds ≠ []) :
    ds.foldl max 0 = d ↔ d ∈ ds ∧ ∀ c ∈ ds, c ≤ d := by
  obtain ⟨c, cs, rfl⟩ := List.exists_cons_of_ne_nil hsome
  have hmax : (c :: cs).max? = some ((c :: cs).foldl max 0) := by
    rw [List.max?_cons', List.foldl_cons, Nat.zero_max]
  rw [← List.max?_eq_some_iff, hmax, Option.some_inj]

theorem deepAs_iff (p : Payload) (depths : List Nat) (d : Nat) :
    DeepAs p depths d ↔ Store.depthAbove depths = d := by
  constructor
  · intro h
    cases h with
    | alone => rfl
    | above hmem hmax =>
      have hgreatest := (foldl_max_eq_iff (List.ne_nil_of_mem hmem)).mpr ⟨hmem, hmax⟩
      rw [Store.depthAbove, hgreatest]
  · rintro rfl
    by_cases hsome : depths = []
    · rw [hsome]
      exact .alone p
    · obtain ⟨hmem, hmax⟩ := (foldl_max_eq_iff hsome).mp rfl
      exact .above hmem hmax

/-- The image of a payload from those of its operands. -/
def Payload.exported {α : Type} (e : Export α) : Payload → List α → Except Fault α
  | .op f, args => if args.isEmpty then .error (.noOperands f.name) else e.operator f args
  | .var name, _ => e.symbol name
  | .const v, _ => e.constant v

section Exported

variable {α : Type} (e : Export α) (p : Payload) (args : List α)

variable {args} in
theorem Payload.exported_op {f : Operator} (hsome : args ≠ []) :
    (Payload.op f).exported e args = e.operator f args := by
  have hempty : args.isEmpty = false := by simpa using hsome
  show (if args.isEmpty then _ else _) = _
  rw [hempty]
  rfl

variable {e args} in
theorem Export.operator_counterpart {f : Operator} {c : Counterpart} (hf : f.counterpart = some c) :
    e.operator f args = e.counterpart c args := by
  rw [Export.operator, hf]

variable {e args} in
theorem Export.operator_undefined {f : Operator} (hf : f.counterpart = none) :
    e.operator f args = e.undefined f.name args := by
  rw [Export.operator, hf]

theorem imageOf_iff (a : α) : ImageOf e p args a ↔ p.exported e args = .ok a := by
  constructor
  · intro h
    cases h with
    | symbol h => exact h
    | constant h => exact h
    | counterpart hsome hf h => rwa [Payload.exported_op e hsome, Export.operator_counterpart hf]
    | undefined hsome hf h => rwa [Payload.exported_op e hsome, Export.operator_undefined hf]
  · intro h
    cases p with
    | op f =>
      by_cases hsome : args = []
      · subst hsome
        cases h
      · rw [Payload.exported_op e hsome] at h
        cases hf : f.counterpart with
        | some c => exact .counterpart hsome hf (Export.operator_counterpart hf ▸ h)
        | none => exact .undefined hsome hf (Export.operator_undefined hf ▸ h)
    | var name => exact .symbol h
    | const v => exact .constant h

variable {args} in
/-- What a vertex becomes is the image of its payload, from as many images as it has operands. -/
theorem Vertex.exported_eq {x : Vertex} (h : args.length = x.operands.length) :
    x.exported e args = x.payload.exported e args := by
  unfold Vertex.exported Payload.exported
  cases x.payload with
  | op f =>
    have hempty : x.operands.isEmpty = args.isEmpty := by
      cases hx : x.operands <;> cases args <;> simp_all
    simp only [hempty]
  | var name => rfl
  | const v => rfl

end Exported

/-! ## Along the walk -/

namespace Store

variable {s : Store} {v : VertexId} {t : Term} {α : Type}

/-- **A result that never fails** is the one the term has by the rule. -/
theorem Unfolds.derives_iff_certain {result : Vertex → List α → α} {node : Payload → List α → α}
    {rule : Payload → List α → α → Prop} (hres : ∀ (x : Vertex) args, result x args = node x.payload args)
    (hrule : ∀ p args a, rule p args a ↔ node p args = a) (ht : s.Unfolds v t) (default : α) {a : α} :
    t.Derives rule a ↔ (s.certainResultOf v result).getD default = a := by
  have hwalk : s.resultOf v (fun x args => (.ok (result x args) : Except Empty α))
      = (t.result fun p args => .ok (node p args)).map some :=
    ht.resultOf_eq fun x args _ => congrArg Except.ok (hres x args)
  rw [Term.derives_iff_certain hrule, certainResultOf, hwalk]
  cases t.result (fun p args => (.ok (node p args) : Except Empty α)) with
  | error e => cases e
  | ok b => exact Except.ok.injEq b a ▸ Iff.rfl

/-- **The depth of a tree is that of its term.** -/
theorem Unfolds.depth_iff (ht : s.Unfolds v t) {n : Nat} : t.Derives DeepAs n ↔ s.depth v = n :=
  ht.derives_iff_certain (fun _ _ => rfl) deepAs_iff 0

end Store

namespace Session

/-- The sum `negate(x) + f() + negate(x) + 2`, under handle 4.  The negation is one vertex; `f` has never been
    linked; and under the constant lies a child that is not an operand. -/
def mixed : List Operation :=
  [.variableLeaf (some "x") none, .linked (.const (.integer 2)) (some [0]),
   .linked (.op ⟨.add, "f", none, none, none⟩) none,
   .linked (.op ⟨.negate, "negate", none, some "-", none⟩) (some [0]),
   .linked (.op ⟨.add, "add", none, some "+", some .add⟩) (some [3, 2, 3, 1])]

/-- Names for images; constants have none. -/
def named : Export String where
  symbol name := .ok name
  constant _ := .error .notANumeral
  counterpart _ _ := .error .notANumeral
  undefined name _ := .ok name

end Session

end ExprGraph

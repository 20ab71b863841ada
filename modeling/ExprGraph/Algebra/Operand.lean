import ExprGraph.Algebra.Modulus
import ExprGraph.Fault
/-!
  What operators are applied to.

  An operand is an expression, or something that can become one (a truth value, a tuple), or nothing that could
  stand in an expression.  Truth values, tuples and arrays can be arguments of undefined functions and of the
  exponential, exponents, and parts of sums and products; nothing else can be done with them
  (`Operand.term`), but that the entries of arrays can be added and scaled.  With what is no expression nothing
  can be done at all (`Operand.toAlgebra`).
-/

namespace ExprGraph

/-- What an operator of algebra is applied to. -/
inductive Operand where
  | expression (e : Algebra)
  /-- a truth value; as a part of an expression it becomes a constant -/
  | truth (b : Bool)
  /-- several expressions; as a part of an expression they become a tuple -/
  | list (es : List Algebra)
  /-- no value -/
  | absent
  /-- the name of something that has no place in an expression -/
  | foreign (name : String)

namespace Operand

/-- The operand as an expression, or the given fault. -/
def toAlgebra (fault : Fault) : Operand → Except Fault Algebra
  | expression e => .ok e
  | truth b => .ok (.truth b)
  | list es => .ok (.apply .tuple es)
  | absent | foreign _ => .error fault

/-- The operand as something to calculate with. -/
def term : Operand → Except Fault Algebra
  | expression e => if e.isInert then .error .kindMismatch else .ok e
  | truth _ | list _ | absent | foreign _ => .error .kindMismatch

/-- The entries and the axes of an array. -/
def array? : Operand → Option (List Algebra × Algebra)
  | expression (.apply .array [.apply .tuple es, axes]) => some (es, axes)
  | _ => none

/-- An array of entries along axes. -/
def ofEntries (es : List Algebra) (axes : Algebra) : Algebra := .apply .array [.apply .tuple es, axes]

end Operand

namespace Algebra

/-- **The sum of operands.**  What is nothing to calculate with has no multiples. -/
def addOperands (args : List Operand) : Except Fault Algebra := do
  let es ← args.mapM (Operand.toAlgebra .notANumeral)
  let inert := es.filter isInert
  if (distinct inert).length < inert.length then .error .kindMismatch else .ok (sumOf es)

/-- **The product of operands.**  One that is nothing to calculate with can be a factor, though not of a
    rational number alone. -/
def multiplyOperands (args : List Operand) : Except Fault Algebra := do
  let es ← args.mapM (Operand.toAlgebra .notANumeral)
  let (inert, others) := (es.filter fun e => !e.isOne).partition isInert
  match inert with
  | [] => .ok (productOf es)
  | [t] =>
    match others with
    | [] => .ok t
    | [number (.exact q)] => if q = 0 then .ok (int 0) else .error .kindMismatch
    | others =>
      let p := productOf others
      .ok (if p.isZero || p.isUndefined then p else if p.isOne then t else product (p.factors ++ [t]))
  | _ => .error .kindMismatch

/-- A power of what is nothing to calculate with. -/
def inertPower (b x : Algebra) : Except Fault Algebra :=
  if x.isComplexInfinity || x.isUndefined then .ok undefined
  else match x.integer? with
    | some 0 => .ok (int 1)
    | some 1 => .ok b
    | some n => if n = -1 && b.same (truth false) then .ok complexInfinity else .error .kindMismatch
    | none => .error .kindMismatch

/-- A power whose exponent is nothing to calculate with. -/
def inertExponent (b x : Algebra) : Except Fault Algebra :=
  match b with
  | power _ y => if y.isReal then .error .kindMismatch else .ok (power b x)
  | b => if b.isZero || b.isOne then .error .kindMismatch else .ok (powerOf b x)

/-- **The power of two operands.** -/
def powerOperands (b x : Operand) : Except Fault Algebra := do
  let b ← b.toAlgebra .notANumeral
  let x ← x.toAlgebra .notANumeral
  if b.isInert then inertPower b x
  else if x.isInert then inertExponent b x
  else return powerOf b x

/-- **The negative of an operand**; that of an array entry by entry. -/
def negateOperand (x : Operand) : Except Fault Algebra :=
  match x.array? with
  | some (es, axes) => .ok (Operand.ofEntries (es.map negate) axes)
  | none => x.term.map negate

/-- **The difference of two operands**; that of arrays with the same axes entry by entry. -/
def subtractOperands (x y : Operand) : Except Fault Algebra :=
  match x.array?, y.array? with
  | some (es, axes), some (fs, axes') =>
    if axes.same axes' then .ok (Operand.ofEntries (List.zipWith difference es fs) axes)
    else .error .shapeMismatch
  | _, _ => do return difference (← x.term) (← y.term)

/-- **The quotient of two operands**; that of an array and a single expression entry by entry. -/
def divideOperands (x y : Operand) : Except Fault Algebra :=
  match x.array? with
  | some (es, axes) =>
    match y with
    | .list _ | .expression (.apply .tuple _) | .expression (.apply .array _) => .error .shapeMismatch
    | y => do
      let d ← y.term
      return Operand.ofEntries (es.map fun e => quotient e d) axes
  | none => do return quotient (← x.term) (← y.term)

end Algebra

end ExprGraph

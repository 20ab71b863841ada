import ExprGraph.Algebra.Formula.Grammar
import ExprGraph.Algebra.Formula.Names
/-!
  What formulas stand for.

  Operations are carried out on expressions, from the inside out and from the left.  A name that is not taken
  is a symbol, and an undefined function when it is called.
-/

namespace ExprGraph

namespace Formula

/-- The operand that a name stands for. -/
def ofName (s : String) : Operand :=
  match constant? s with
  | some x => x
  | none => if isTaken s then .foreign s else .expression (.symbol s)

/-- The whole part of the quotient of two numbers, or what it leaves. -/
def wholeQuotient (rest : Bool) (a b : Algebra) : Except Fault Algebra :=
  match a.rational?, b.rational? with
  | some p, some q =>
    if q = 0 then .ok .undefined
    else
      let k := (p / q).floor
      .ok (if rest then .rational (p - q * k) else .int k)
  | _, _ => .error .notANumeral

/-- **An operation on two operands**; both must be expressions, and no truth values. -/
def operate (op : FormulaOperation) (x y : Operand) : Except Fault Algebra := do
  let a ← x.term
  let b ← y.term
  match op with
  | .add => return .sumOf [a, b]
  | .subtract => return .difference a b
  | .multiply => return .productOf [a, b]
  | .divide => return .quotient a b
  | .power => return .powerOf a b
  | .floorDivide => wholeQuotient false a b
  | .remainder => wholeQuotient true a b

/-- **The application of a name.**  An undefined function takes any arguments that are expressions; the
    exponential takes a truth value too. -/
def applyName (s : String) (args : List Operand) : Except Fault Algebra :=
  match function? s, args with
  | some f, [x] => do
    if s = "exp" then return f (← x.toAlgebra .kindMismatch) else return f (← x.term)
  | some _, _ => .error .kindMismatch
  | none, [.expression (.symbol x)] =>
    if isTaken s && !plainFunctions.contains s then .error .notANumeral
    else if (constant? s).isSome then .error .kindMismatch
    else .ok (.apply (.undefined s) [.symbol x])
  | none, args =>
    if (constant? s).isSome then .error .kindMismatch
    else if isTaken s then .error .notANumeral
    else do return .apply (.undefined s) (← args.mapM (Operand.toAlgebra .kindMismatch))

mutual

/-- **What a formula stands for.** -/
def value : Formula → Except Fault Operand
  | .number q => .ok (.expression (.number q))
  | .name s => .ok (ofName s)
  | .positive f => do return .expression (← (← value f).term)
  | .negative f => do return .expression (← (← value f).term).negate
  | .operation op f g => do
    let x ← value f
    let y ← value g
    return .expression (← operate op x y)
  | .call s args => do return .expression (← applyName s (← values args))
  | .list fs => do return .list (← (← values fs).mapM (Operand.toAlgebra .kindMismatch))
  | .misused fs => do
    let _ ← values fs
    .error .kindMismatch

/-- What several formulas stand for. -/
def values : List Formula → Except Fault (List Operand)
  | [] => .ok []
  | f :: fs => do
    let x ← value f
    return x :: (← values fs)

end

end Formula

/-- **The operand that a text stands for.** -/
def Operand.ofText (s : String) : Except Fault Operand :=
  match Formula.read? s with
  | some f => f.value
  | none => .error .notANumeral

end ExprGraph

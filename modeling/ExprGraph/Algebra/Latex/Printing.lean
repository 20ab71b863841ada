import ExprGraph.Algebra.Power
import ExprGraph.Algebra.Latex.Naming
import ExprGraph.Number.Leading
import ExprGraph.Number.Notation
/-!
  Expressions of algebra in LaTeX.

  Sums and products are shown in their order.  A minus sign goes in front of a product or between the terms of
  a sum, negative numeric exponents and denominators make fractions, exponents `1/n` make roots, and the
  exponent of a function stands behind its name.  Sums and negative numbers inside products, and anything but
  symbols, numbers and functions under an exponent, stand in parentheses.
-/

namespace ExprGraph

namespace Algebra

/-! ## Pieces -/

/-- Parentheses that grow with what is in them. -/
def inParens (s : String) : String := "\\left(" ++ s ++ "\\right)"

/-- A fraction. -/
def fractionText (a b : String) : String := "\\frac" ++ Latex.braced a ++ Latex.braced b

/-- A decimal with the digits that its bits stand for, or as a product with a power of ten.  It is
    written out from a few zeros behind the point up to as many digits as it has. -/
def decimalText (x : Number.Binary) (bits : Nat) : String :=
  if x.isZero then "0.0"
  else
    let digits := Scalar.digitsOf bits
    let d := Number.Binary.places digits x.abs
    let ds := Number.dropZeros d.digits
    (if x.isNegative then "-" else "") ++
      if min (-((digits / 3 : Nat) : Int)) (-5) < d.exponent ∧ d.exponent < digits then
        Number.positionalText true ⟨ds, d.exponent⟩
      else
        Number.positionalText true ⟨ds, 0⟩ ++ " \\cdot 10^" ++ Latex.braced (toString d.exponent)

/-- A number. -/
def scalarText : Scalar → String
  | .decimal x bits => decimalText x bits
  | .exact q =>
    if q.den = 1 then toString q.num
    else (if q.num < 0 then "- " else "") ++ fractionText (toString q.num.natAbs) (toString q.den)
  | .infinite negative => if negative then "-\\infty" else "\\infty"
  | .undefined => "\\text\x7bNaN\x7d"

/-- A named constant. -/
def constantText : NamedConstant → String
  | .e => "e"
  | .pi => "\\pi"
  | .i => "i"
  | .complexInfinity => "\\tilde\x7b\\infty\x7d"
  | .yes => "\\text\x7bTrue\x7d"
  | .no => "\\text\x7bFalse\x7d"

/-- The text ends with a digit, apart from closing braces and blanks. -/
def endsWithDigit (s : String) : Bool :=
  ((s.toList.reverse.dropWhile fun c => c == '\x7d' || c == ' ').head?.map Char.isDigit).getD false

/-- The text begins with a digit, or with a fraction of whole numbers. -/
def startsWithNumber (s : String) : Bool :=
  let cs := s.toList
  let front := "\\frac\x7b".toList
  (cs.head?.map Char.isDigit).getD false
    || (cs.take front.length == front && ((cs.drop front.length).head?.map Char.isDigit).getD false
      && ((cs.drop front.length).dropWhile Char.isDigit).take 2 == "\x7d\x7b".toList)

/-- Factors side by side; two numbers have a dot between them. -/
def sideBySide : List String → String
  | [] => "1"
  | [s] => s
  | s :: t :: rest =>
    s ++ (if endsWithDigit s && startsWithNumber t then " \\cdot " else " ") ++ sideBySide (t :: rest)

/-- A tuple; a comma stands behind a single part. -/
def tupleText (parts : List String) : String :=
  let list := match parts with
    | [s] => s ++ ","
    | parts => ", \\  ".intercalate parts
  "\\left( " ++ list ++ "\\right)"

/-- The texts cut into so many rows. -/
def cutRows : Nat → Nat → List String → List (List String)
  | 0, _, _ => []
  | rows + 1, size, ss => ss.take size :: cutRows rows size (ss.drop size)

/-- The entries along the axes: side by side along the last one, below each other along the one before it, and
    so in turn.  Those below each other are put in a block, and a single one of them in brackets. -/
def alongAxes (block : String → String) : List Nat → List String → String
  | [], ss => String.join ss
  | n :: lengths, ss =>
    let parts := (cutRows n (lengths.foldl (· * ·) 1) ss).map (alongAxes block lengths)
    if lengths.length % 2 = 0 then " & ".intercalate parts
    else
      let s := block ("\\\\".intercalate parts)
      if parts.length = 1 then "\\left[" ++ s ++ "\\right]" else s

/-- An array.  It is set as a matrix, or with a column for each entry of the first axis when its rows are
    long; one without entries cannot be written. -/
def arrayText (lengths : List Nat) (ss : List String) : Except Fault String :=
  let wide := 10 < lengths.getLastD 0
  let kind := if wide then "array" else "matrix"
  let columns := if wide then Latex.braced (String.ofList (List.replicate (lengths.headD 0) 'c')) else ""
  let block := fun s : String => "\\left[\\begin" ++ Latex.braced kind ++ columns ++ s
    ++ "\\end" ++ Latex.braced kind ++ "\\right]"
  if ss.isEmpty then .error .missingOperand
  else
    let s := alongAxes block lengths ss
    .ok (if lengths.length % 2 = 1 then block s else s)

/-- A function with its arguments, and with an exponent behind its name. -/
def applyText (f : FunctionName) (args : List String) (exponent : Option String) : Except Fault String :=
  let behind := fun s : String => match exponent with
    | some x => s ++ "^" ++ Latex.braced x
    | none => s
  let around := fun s : String => match exponent with
    | some x => inParens s ++ "^" ++ Latex.braced x
    | none => s
  let list := ",".intercalate args
  match f with
  | .abs => .ok (behind ("\\left|" ++ Latex.braced list ++ "\\right|"))
  | .exp => .ok (around ("e^" ++ Latex.braced list))
  | .log => .ok (behind ("\\log" ++ Latex.braced ("\\left(" ++ list ++ " \\right)")))
  | .tuple => .ok (tupleText args)
  | .between => .ok ("\\left\\langle " ++ ", ".intercalate args ++ "\\right\\rangle")
  | .re | .im => .ok (around ("\\operatorname" ++ Latex.braced f.name ++ Latex.braced (inParens list)))
  | f => do
    let name := Latex.functionName f.name
    let name := if exponent.isSome && name.toList.contains '^' then inParens name else name
    return (← Latex.fillPattern (behind name)) ++ Latex.braced ("\\left(" ++ list ++ " \\right)")

/-! ## Structure -/

/-- A factor above and below the line of a fraction. -/
def aboveBelow (f : Algebra) : List Algebra × List Algebra :=
  let (b, x) := f.baseExponent
  match f with
  | number (.exact q) =>
    if q.den = 1 then ([f], []) else (if q.num = 1 then [] else [int q.num], [int q.den])
  | power _ _ | apply .exp _ =>
    if x.isNumeric && x.sign.isNegative then ([], [powerOf b x.negate]) else ([f], [])
  | f => ([f], [])

/-- A negative number, a product with such a factor, or a sum. -/
def isLoose : Algebra → Bool
  | sum _ => true
  | e => e.hasMinus

/-- Factors in the order of their keys; those that are nothing to calculate with stand behind the others. -/
def inRow (fs : List Algebra) : List Algebra :=
  let (inert, others) := fs.partition isInert
  sortByKey others ++ inert

/-- The expression stands under an exponent without parentheses. -/
def isTight : Algebra → Bool
  | number (.exact q) => decide (0 ≤ q) && q.den == 1
  | number q => !q.isNegative
  | symbol _ | apply _ _ | constant _ => true
  | _ => false

/-- Writes an expression; what is nested deeper than the bound is left out. -/
def write : Nat → Algebra → Except Fault String
  | 0, _ => .ok ""
  | depth + 1, e =>
    let row := fun fs : List Algebra =>
      match inRow fs with
      | [] => .ok "1"
      | [f] => write depth f
      | f :: fs => do
        let first := match f with
          | product _ => false
          | f => f.isLoose
        let s ← write depth f
        return sideBySide ((if first then inParens s else s) :: (← fs.mapM fun f =>
          if f.isLoose then inParens <$> write depth f else write depth f))
    let quotient := fun fs : List Algebra =>
      let parts := fs.map aboveBelow
      match parts.flatMap Prod.snd with
      | [] => row fs
      | below => do return fractionText (← row (parts.flatMap Prod.fst)) (← row below)
    let term := fun t : Algebra => match t with
      | sum _ => inParens <$> write depth t
      | t => write depth t
    match e with
    | symbol name => .ok (Latex.name name)
    | number q => .ok (scalarText q)
    | constant c => .ok (constantText c)
    | apply .array [apply .tuple es, apply .tuple lengths] => do
      arrayText (lengths.map fun n => (n.integer?.getD 0).toNat) (← es.mapM (write depth))
    | apply f args => do applyText f (← args.mapM (write depth)) none
    | sum ts =>
      if ts.any isInert then .error .kindMismatch
      else match ts with
      | [] => .ok "0"
      | t :: rest => do
        rest.foldlM (fun s t => do
          if t.hasMinus then return s ++ " - " ++ (← term t.negateSingle)
          else return s ++ " + " ++ (← term t)) (← term t)
    | product fs =>
      if (product fs).hasMinus then
        match negateSingle (product fs) with
        | sum ts => (fun s => "- (" ++ s ++ ")") <$> write depth (sum ts)
        | e => ("- " ++ ·) <$> quotient e.factors
      else quotient fs
    | power b x =>
      let inside := fun _ : Unit => match b with
        | symbol name => let s := Latex.name name; .ok (if s.contains '^' then inParens s else s)
        | number (.decimal y _) => do
          let s ← write depth b
          return Latex.braced (if y.isNegative then inParens s else s)
        | b => if b.isTight then write depth b else inParens <$> write depth b
      let standard := fun _ : Unit => do
        let exponent ← write depth x
        match b with
        | apply f args => applyText f (← args.mapM (write depth)) (some exponent)
        | _ => return (← inside ()) ++ "^" ++ Latex.braced exponent
      match x with
      | number (.exact q) =>
        if q.num.natAbs = 1 ∧ 1 < q.den then do
          let root := "\\sqrt" ++ (if q.den = 2 then "" else "[" ++ toString q.den ++ "]")
            ++ Latex.braced (← write depth b)
          return if q < 0 then fractionText "1" root else root
        else if q < 0 then quotient [e]
        else standard ()
      | _ => standard ()

/-- **An expression in LaTeX.** -/
def latex (e : Algebra) : Except Fault String := write (2 * e.size + 2) e

end Algebra

end ExprGraph

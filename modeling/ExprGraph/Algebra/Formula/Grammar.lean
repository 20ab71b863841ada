import ExprGraph.Algebra.Formula.Token
/-!
  The grammar of formulas.

  Sums and differences bind weakest, then products and quotients, then signs, then powers, then calls.
  Operators of one level are applied from the left, powers from the right; the exponent of a power may have a
  sign.  A comma makes a list.  Words that have a meaning of their own elsewhere are no names (`isReserved`).

  Only names can be called, and no formula has parts with names of their own.  Both can be written all the
  same (`Formula.misused`).
-/

namespace ExprGraph

/-- An operation between two formulas. -/
inductive FormulaOperation where
  | add
  | subtract
  | multiply
  | divide
  | floorDivide
  | remainder
  | power
  deriving DecidableEq

/-- A formula. -/
inductive Formula where
  | number (q : Scalar)
  | name (s : String)
  | positive (f : Formula)
  | negative (f : Formula)
  | operation (op : FormulaOperation) (f g : Formula)
  | call (s : String) (args : List Formula)
  | list (fs : List Formula)
  /-- formulas put together in a way that has no meaning -/
  | misused (fs : List Formula)

namespace Formula

/-- Words that cannot be names. -/
def reserved : List String :=
  ["and", "as", "assert", "async", "await", "break", "class", "continue", "def", "del", "elif", "else",
   "except", "finally", "for", "from", "global", "if", "import", "in", "is", "lambda", "nonlocal", "not", "or",
   "pass", "raise", "return", "try", "while", "with", "yield"]

/-- The word cannot be a name. -/
def isReserved (s : String) : Bool := reserved.contains s

/-- The levels of operations with two sides. -/
inductive Level where
  | sum
  | product

namespace Level

/-- The operation of a sign, on its level. -/
def operation? : Level → String → Option FormulaOperation
  | sum, "+" => some .add
  | sum, "-" => some .subtract
  | product, "*" => some .multiply
  | product, "/" => some .divide
  | product, "//" => some .floorDivide
  | product, "%" => some .remainder
  | _, _ => none

end Level

/-- A formula that has been read, and the tokens behind it. -/
abbrev Read := Option (Formula × List Token)

mutual

/-- Reads the operations of a level, bounded. -/
def readLevel : Nat → Level → List Token → Read
  | 0, _, _ => none
  | depth + 1, level, ts => do
    let (f, rest) ← readOperand depth level ts
    readMore depth level f rest

/-- Reads what stands between two operations of a level, bounded. -/
def readOperand : Nat → Level → List Token → Read
  | 0, _, _ => none
  | depth + 1, .sum, ts => readLevel depth .product ts
  | depth + 1, .product, ts => readSigned depth ts

/-- Reads more operations of a level behind a formula, bounded. -/
def readMore : Nat → Level → Formula → List Token → Read
  | 0, _, _, _ => none
  | depth + 1, level, f, ts =>
    match ts with
    | .sign s :: rest =>
      match level.operation? s with
      | some op => do
        let (g, rest) ← readOperand depth level rest
        readMore depth level (.operation op f g) rest
      | none => some (f, ts)
    | ts => some (f, ts)

/-- Reads a power with signs in front, bounded. -/
def readSigned : Nat → List Token → Read
  | 0, _ => none
  | depth + 1, ts =>
    match ts with
    | .sign "-" :: rest => (readSigned depth rest).map fun r => (.negative r.1, r.2)
    | .sign "+" :: rest => (readSigned depth rest).map fun r => (.positive r.1, r.2)
    | ts => do
      let (f, rest) ← readAtom depth ts
      let (f, rest) ← readBehind depth f rest
      match rest with
      | .sign "**" :: rest => do
        let (x, rest) ← readSigned depth rest
        return (.operation .power f x, rest)
      | rest => return (f, rest)

/-- Reads a numeral, a name or what stands in parentheses, bounded. -/
def readAtom : Nat → List Token → Read
  | 0, _ => none
  | depth + 1, ts =>
    match ts with
    | .number q :: rest => some (.number q, rest)
    | .name s :: rest =>
      if isReserved s then none
      else match rest with
        | .sign "(" :: rest => do
          let (args, rest) ← readArguments depth rest
          return (.call s args, rest)
        | rest => return (.name s, rest)
    | .sign "(" :: .sign ")" :: rest => some (.list [], rest)
    | .sign "(" :: rest => do
      let (f, rest) ← readLevel depth .sum rest
      match rest with
      | .sign ")" :: rest => return (f, rest)
      | .sign "," :: rest => do
        let (fs, rest) ← readArguments depth rest
        return (.list (f :: fs), rest)
      | _ => none
    | _ => none

/-- Reads calls and names of parts behind a formula, bounded. -/
def readBehind : Nat → Formula → List Token → Read
  | 0, _, _ => none
  | depth + 1, f, ts =>
    match ts with
    | .sign "(" :: rest => do
      let (args, rest) ← readArguments depth rest
      readBehind depth (.misused (f :: args)) rest
    | .sign "." :: .name s :: rest => if isReserved s then none else readBehind depth (.misused [f]) rest
    | ts => some (f, ts)

/-- Reads formulas between commas up to the closing parenthesis, bounded; a comma may stand behind the last
    one. -/
def readArguments : Nat → List Token → Option (List Formula × List Token)
  | 0, _ => none
  | depth + 1, ts =>
    match ts with
    | .sign ")" :: rest => some ([], rest)
    | ts => do
      let (f, rest) ← readLevel depth .sum ts
      match rest with
      | .sign ")" :: rest => return ([f], rest)
      | .sign "," :: rest => do
        let (fs, rest) ← readArguments depth rest
        return (f :: fs, rest)
      | _ => none

end

/-- Reads the rest of a list without parentheses, bounded. -/
def readList : Nat → List Token → Option (List Formula)
  | 0, _ => none
  | _ + 1, [] => some []
  | depth + 1, ts => do
    match ← readLevel (8 * ts.length + 8) .sum ts with
    | (f, []) => return [f]
    | (f, .sign "," :: rest) => return f :: (← readList depth rest)
    | _ => none

/-- **Reads a formula**, or nothing when the text is none. -/
def read? (s : String) : Option Formula :=
  let ts := tokens s
  match readLevel (8 * ts.length + 8) .sum ts with
  | some (f, []) => some f
  | some (f, .sign "," :: rest) => (readList (ts.length + 1) rest).map fun fs => .list (f :: fs)
  | _ => none

end Formula

end ExprGraph

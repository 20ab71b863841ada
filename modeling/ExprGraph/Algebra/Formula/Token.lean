import ExprGraph.Algebra.Scalar
import ExprGraph.Number.Notation
import ExprGraph.Text.Alphanumeric
/-!
  The tokens of a formula.

  Numerals are whole numbers (decimal, or with the mark `0x`, `0o` or `0b`), and decimals with a point or an
  exponent; one underscore may stand between two digits.  A numeral that ends in `j` is that many times the
  imaginary unit.  A decimal keeps as many digits as are written, and at least fifteen.

  Names begin with a letter or an underscore.  Line ends are ignored, and so is all behind a `#`.
-/

namespace ExprGraph.Formula

/-- A token. -/
inductive Token where
  | number (q : Scalar)
  | name (s : String)
  /-- an operator, a bracket, a comma or a dot -/
  | sign (s : String)
  /-- a character that has no place in a formula -/
  | stray
  deriving DecidableEq

/-! ## Digits -/

/-- The value of a digit in bases up to sixteen. -/
def digitOf (c : Char) : Nat :=
  if c.isDigit then c.toNat - '0'.toNat else c.toLower.toNat - 'a'.toNat + 10

/-- A letter that counts as a digit in base sixteen. -/
def isHexDigit (c : Char) : Bool := c.isDigit || ('a' ≤ c.toLower && c.toLower ≤ 'f')

/-- The number that digits stand for. -/
def ofDigits (base : Nat) (ds : List Char) : Nat := ds.foldl (fun n c => base * n + digitOf c) 0

/-- The digits that go on, each behind at most one underscore, and the rest. -/
def moreDigits (p : Char → Bool) : List Char → List Char × List Char
  | '_' :: c :: rest =>
    if p c then let r := moreDigits p rest; (c :: r.1, r.2) else ([], '_' :: c :: rest)
  | c :: rest => if p c then let r := moreDigits p rest; (c :: r.1, r.2) else ([], c :: rest)
  | [] => ([], [])

/-- A run of digits in front, and the rest. -/
def digitRun (p : Char → Bool) : List Char → List Char × List Char
  | c :: rest => if p c then let r := moreDigits p rest; (c :: r.1, r.2) else ([], c :: rest)
  | [] => ([], [])

/-! ## Numerals -/

/-- The most digits of a whole number. -/
def digitLimit : Nat := 4300

/-- The greatest size of an exponent of ten. -/
def exponentLimit : Nat := 100000

/-- A decimal from its digits, the power of ten of the last one, and whether it has a point. -/
def decimal? (ds : List Char) (e : Int) (hasPoint : Bool) : Option Scalar :=
  let n := ofDigits 10 ds
  if exponentLimit < e.natAbs || (!hasPoint && digitLimit < e) then none
  else
    let q : Rat := if e < 0 then mkRat n (Nat.pow 10 e.natAbs) else (n * Nat.pow 10 e.natAbs : Nat)
    let written := (Number.natDigits n).length
    let whole := if q.den = 1 ∧ !hasPoint then (Number.natDigits q.num.natAbs).length else 0
    if digitLimit < whole then none
    else
      let bits := Scalar.bitsFor (max 15 (max written whole))
      some (.decimal (.ofRat .nearest bits q) bits)

/-- An exponent in front, if there is one, and the rest. -/
def exponentPart (cs : List Char) : Option Int × List Char :=
  match cs with
  | c :: rest =>
    if c == 'e' || c == 'E' then
      let (negative, digits) : Bool × List Char := match rest with
        | '-' :: r => (true, r)
        | '+' :: r => (false, r)
        | r => (false, r)
      match digitRun Char.isDigit digits with
      | ([], _) => (none, cs)
      | (ds, r) => (some (if negative then -(ofDigits 10 ds : Int) else ofDigits 10 ds), r)
    else (none, cs)
  | [] => (none, [])

/-- The base that a mark stands for, with its digits. -/
def markedBase? (c : Char) : Option (Nat × (Char → Bool)) :=
  match c.toLower with
  | 'x' => some (16, isHexDigit)
  | 'o' => some (8, fun c => '0' ≤ c && c ≤ '7')
  | 'b' => some (2, fun c => c == '0' || c == '1')
  | _ => none

/-- A whole number with a mark in front. -/
def markedNumber? (cs : List Char) : Option (Nat × List Char) :=
  match cs with
  | '0' :: c :: rest => do
    let (base, p) ← markedBase? c
    match moreDigits p rest with
    | ([], _) => none
    | (ds, r) => some (ofDigits base ds, r)
  | _ => none

/-- A numeral in front and the rest; nothing in place of a number stands for one that cannot be read. -/
def numeral (cs : List Char) : Option Scalar × List Char :=
  match markedNumber? cs with
  | some (n, rest) => (some (.exact n), rest)
  | none =>
    let (whole, rest) := digitRun Char.isDigit cs
    let (hasPoint, fraction, rest) : Bool × List Char × List Char := match rest with
      | '.' :: r => let (ds, r) := digitRun Char.isDigit r; (true, ds, r)
      | r => (false, [], r)
    let (exponent, rest) := exponentPart rest
    if hasPoint || exponent.isSome then
      (decimal? (whole ++ fraction) (exponent.getD 0 - fraction.length) hasPoint, rest)
    else
      match whole with
      | '0' :: _ =>
        if whole.all (· == '0') then (some (.exact 0), rest) else (none, rest)
      | ds => (if digitLimit < ds.length then none else some (.exact (ofDigits 10 ds)), rest)

/-- The tokens of a numeral; a `j` behind it is the imaginary unit as a factor. -/
def numeralTokens (cs : List Char) : List Token × List Char :=
  let (q, rest) := numeral cs
  let token := match q with
    | some q => Token.number q
    | none => .stray
  match rest with
  | 'j' :: r | 'J' :: r => ([token, .sign "*", .name "I"], r)
  | r => ([token], r)

/-! ## Names and signs -/

/-- The character may stand in a name. -/
def isNameChar (c : Char) : Bool := c == '_' || Text.isLetter c || (Text.digitValue? c).isSome

/-- Signs that are numbers without being letters or digits: raised, lowered, enclosed and fractions. -/
def numberSigns : List (Nat × Nat) :=
  [(0xb2, 0xb3), (0xb9, 0xb9), (0xbc, 0xbe), (0x2070, 0x2070), (0x2074, 0x2079), (0x2080, 0x2089),
   (0x2150, 0x215f), (0x2189, 0x2189), (0x2460, 0x249b), (0x24ea, 0x24ff), (0x2776, 0x2793)]

/-- The character may begin a name. -/
def beginsName (c : Char) : Bool :=
  c == '_' || (Text.isLetter c && !Text.inRanges numberSigns c.toNat)

/-- The sign in front, the longest one first; a raised power has two. -/
def signToken? (cs : List Char) : Option (Token × List Char) :=
  match cs with
  | '*' :: '*' :: rest | '^' :: rest => some (.sign "**", rest)
  | '/' :: '/' :: rest => some (.sign "//", rest)
  | c :: rest => if "+-*/%(),.".toList.contains c then some (.sign c.toString, rest) else none
  | [] => none

/-- The tokens of a text, for at most so many steps. -/
def tokensFrom : Nat → List Char → List Token
  | 0, _ => []
  | steps + 1, cs =>
    match cs with
    | [] => []
    | c :: rest =>
      if c == ' ' || c == '\t' || c == '\x0c' then tokensFrom steps rest
      else if c == '#' then []
      else if c.isDigit || (c == '.' && (rest.head?.map Char.isDigit).getD false) then
        let (tokens, rest) := numeralTokens cs
        tokens ++ tokensFrom steps rest
      else if isNameChar c then
        let name := cs.takeWhile isNameChar
        (if beginsName c then .name (String.ofList name) else .stray)
          :: tokensFrom steps (cs.dropWhile isNameChar)
      else match signToken? cs with
        | some (token, rest) => token :: tokensFrom steps rest
        | none => .stray :: tokensFrom steps rest

/-- **The tokens of a text.** -/
def tokens (s : String) : List Token :=
  let cs := (s.toList.filter (· != '\n')).dropWhile Text.isBlank
  let cs := (cs.reverse.dropWhile Text.isBlank).reverse
  tokensFrom (cs.length + 1) cs

end ExprGraph.Formula

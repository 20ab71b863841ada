import ExprGraph.Number.Exact
import ExprGraph.Text.Blank
/-!
  Reading a double from text.

  A numeral is an optional sign and then a special word (`inf`, `infinity`, `nan`, in any case) or
  decimal digits with at most one point and an optional exponent.  Blanks around it are ignored,
  underscores may separate digits, and digits of all scripts count.  The value is the double nearest
  to the decimal that was written.
-/

namespace ExprGraph.Number

/-- Blanks become spaces and digits of all scripts plain digits. -/
def plainChar (c : Char) : Char :=
  if Text.isBlank c then ' '
  else if c.toNat < 0x80 then c
  else match Text.digitValue? c with
    | some d => Char.ofNat ('0'.toNat + d)
    | none => c

/-- Takes out underscores; each must stand between two digits. -/
def dropUnderscores : Char → List Char → Option (List Char)
  | before, [] => if before = '_' then none else some []
  | before, '_' :: rest => if before.isDigit then dropUnderscores '_' rest else none
  | before, c :: rest =>
    if before = '_' ∧ !c.isDigit then none else (dropUnderscores c rest).map (c :: ·)

/-- A run of digits as a number. -/
def natOfDigits (ds : List Char) : Nat :=
  ds.foldl (fun n c => 10 * n + (c.toNat - '0'.toNat)) 0

/-- The exponent part, the whole rest of the numeral; an empty rest is exponent zero. -/
def readExponent : List Char → Option Int
  | [] => some 0
  | c :: rest =>
    if c = 'e' ∨ c = 'E' then
      let (negative, digits) := match rest with
        | '-' :: r => (true, r)
        | '+' :: r => (false, r)
        | r => (false, r)
      if digits.isEmpty ∨ !digits.all Char.isDigit then none
      else some (if negative then -(natOfDigits digits : Int) else natOfDigits digits)
    else none

/-- The double nearest to `m · 10^e`.  Exponents far outside the range of doubles are settled first. -/
def ofDecimal (m : Nat) (e : Int) : Float :=
  if m = 0 then 0.0
  else
    let top := e + (Nat.toDigits 10 m).length
    if 400 < top then 1.0 / 0.0
    else if top < -400 then 0.0
    else Float.ofScientific m (decide (e < 0)) e.natAbs

/-- Digits, point, digits, exponent; at least one digit in front of the exponent. -/
def readUnsigned (s : List Char) : Option Float :=
  let whole := s.takeWhile Char.isDigit
  let (fraction, rest) := match s.dropWhile Char.isDigit with
    | '.' :: r => (r.takeWhile Char.isDigit, r.dropWhile Char.isDigit)
    | r => ([], r)
  if whole.isEmpty ∧ fraction.isEmpty then none
  else (readExponent rest).map fun e =>
    ofDecimal (natOfDigits (whole ++ fraction)) (e - fraction.length)

/-- A numeral without its sign. -/
def readMagnitude (s : List Char) : Option Float :=
  let word := String.ofList (s.map Char.toLower)
  if word = "inf" ∨ word = "infinity" then some (1.0 / 0.0)
  else if word = "nan" then some (0.0 / 0.0)
  else readUnsigned s

/-- **Reads a double**, or nothing when the text is no numeral. -/
def read? (text : String) : Option Float :=
  let chars := (text.toList.map plainChar).dropWhile (· == ' ')
  let chars := (chars.reverse.dropWhile (· == ' ')).reverse
  match dropUnderscores ' ' chars with
  | none => none
  | some ('-' :: s) => (readMagnitude s).map fun x => -x
  | some ('+' :: s) => readMagnitude s
  | some s => readMagnitude s

end ExprGraph.Number

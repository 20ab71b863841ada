import ExprGraph.Number.Notation
/-!
  Numbers in a column.

  A column writes every number of a list at one width, so that they line up: whole numbers at the right
  end, doubles at the point.  A column of doubles is positional, with up to eight digits behind the
  point and blanks where a number has fewer, unless its magnitudes are too large, too small or too far
  apart; then every number is written with an exponent, and all with equally many digits.
-/

namespace ExprGraph.Number

/-- A text filled up with blanks in front. -/
def padFront (width : Nat) (s : String) : String :=
  String.ofList (List.replicate (width - s.length) ' ' ++ s.toList)

/-- A text filled up at the end. -/
def padEnd (fill : Char) (width : Nat) (s : String) : String :=
  String.ofList (s.toList ++ List.replicate (width - s.length) fill)

/-- The greatest length of a list of texts. -/
def widest (texts : List String) : Nat := texts.foldl (fun n s => max n s.length) 0

/-- **A column of whole numbers.** -/
def wholeColumn (ns : List Int) : List String :=
  let texts := ns.map toString
  texts.map (padFront (widest texts))

/-- At most this many digits stand behind the point of a column. -/
def columnPlaces : Nat := 8

/-- The pieces of a written double. -/
structure Pieces where
  /-- sign and digits in front of the point -/
  whole : String
  /-- digits behind the point -/
  fraction : String
  /-- the exponent of the first digit -/
  exponent : Int

/-- The fraction digits of a whole number of units in the last place, zeros at the end dropped. -/
def fractionText (places units : Nat) : String :=
  let ds := natDigits units
  let ds := List.replicate (places - ds.length) 0 ++ ds
  digitText (ds.reverse.dropWhile (· == 0)).reverse

/-- A magnitude around its point: its shortest digits, or rounded when those run past the last place. -/
def positionalPieces (g : Magnitude) : Pieces :=
  if g.mantissa == 0 then ⟨"0", "", 0⟩
  else
    let d := shortest g
    let whole := (d.exponent + 1).toNat
    if (d.digits.length : Int) - 1 - d.exponent ≤ columnPlaces then
      let front := d.digits.take whole
      let front := if whole = 0 then [0] else front ++ List.replicate (whole - front.length) 0
      let zeros := List.replicate (-d.exponent - 1).toNat 0
      let rest := d.digits.drop whole
      ⟨digitText front, if rest.isEmpty then "" else digitText (zeros ++ rest), d.exponent⟩
    else
      let (num, den) := ratioAt g columnPlaces
      let units := roundDiv num den
      ⟨toString (units / Nat.pow 10 columnPlaces),
        fractionText columnPlaces (units % Nat.pow 10 columnPlaces), d.exponent⟩

/-- A magnitude behind its first digit: its shortest digits, or rounded when those are too many. -/
def exponentPieces (g : Magnitude) : Pieces :=
  if g.mantissa == 0 then ⟨"0", "", 0⟩
  else
    let d := shortest g
    let d := if d.digits.length ≤ columnPlaces + 1 then d else
      let r := digitsAt (columnPlaces + 1) g
      ⟨dropZeros r.digits, r.exponent⟩
    ⟨digitText (d.digits.take 1), digitText (d.digits.drop 1), d.exponent⟩

/-- The magnitudes of a column call for exponents. -/
def wantsExponent (xs : List Float) : Bool :=
  match xs.map Float.abs |>.filter fun x => x != 0.0 with
  | [] => false
  | x :: rest =>
    let top := rest.foldl (fun a b => if a < b then b else a) x
    let low := rest.foldl (fun a b => if b < a then b else a) x
    decide (top ≥ 1e8) || decide (low < 0.0001) || decide (top / low > 1000.0)

/-- The text of a double that is not finite. -/
def specialText (x : Float) : String :=
  if x.isNaN then "nan" else if x < 0.0 then "-inf" else "inf"

/-- The pieces of a finite double, with its sign. -/
def signedPieces (cut : Magnitude → Pieces) (x : Float) : Pieces :=
  let f := Fields.ofBits x.toBits
  let p := cut f.magnitude
  ⟨(if f.negative then "-" else "") ++ p.whole, p.fraction, p.exponent⟩

/-- **A column of doubles.** -/
def realColumn (xs : List Float) : List String :=
  let finite := xs.filter Float.isFinite
  let exponents := wantsExponent finite
  let cut := signedPieces (if exponents then exponentPieces else positionalPieces)
  let pieces := finite.map cut
  let places := widest (pieces.map Pieces.fraction)
  let power := (widest (pieces.map fun p => digitText (natDigits p.exponent.natAbs))).max 2
  let right := if exponents then power + 2 + places else places
  let specials := widest ((xs.filter fun x => !x.isFinite).map specialText)
  let left := (widest (pieces.map Pieces.whole)).max (specials - (right + 1))
  xs.map fun x =>
    if !x.isFinite then padFront (left + right + 1) (specialText x)
    else
      let p := cut x
      let front := padFront left p.whole ++ "."
      if exponents then
        let digits := digitText (natDigits p.exponent.natAbs)
        front ++ padEnd '0' places p.fraction ++ (if p.exponent < 0 then "e-" else "e+")
          ++ String.ofList (List.replicate (power - digits.length) '0') ++ digits
      else front ++ padEnd ' ' places p.fraction

example : wholeColumn [1, 20, -3] = [" 1", "20", "-3"] := by decide +kernel

end ExprGraph.Number

import ExprGraph.Fault
import ExprGraph.Text.Alphanumeric
/-!
  How LaTeX writes names.

  A name may carry superscripts (behind `^` or `__`) and subscripts (behind `_`); digits at the end of its
  first part are a subscript too.  Each part is spelled by itself: Greek letters and a few other symbols
  by their command, and an accent, face or bracket at the end of the part (`xbar`, `xvec`) around what
  stands in front of it.

  The written name of a function is a pattern for the whole application: a doubled percent sign in it stands
  for one, and a single one opens a directive, for which there is nothing to put in (`fillPattern`).
-/

namespace ExprGraph

namespace Latex

/-- A text in braces. -/
def braced (s : String) : String := "\x7b" ++ s ++ "\x7d"

/-- Greek letters that have a command of their own name. -/
def greekLetters : List String :=
  ["alpha", "beta", "gamma", "delta", "epsilon", "zeta", "eta", "theta", "iota", "kappa", "lambda",
   "mu", "nu", "xi", "omicron", "pi", "rho", "sigma", "tau", "upsilon", "phi", "chi", "psi", "omega"]

/-- Greek letters that are spelled otherwise. -/
def greekSpellings : List (String × String) :=
  [("Gamma", "\\Gamma"), ("Delta", "\\Delta"), ("Theta", "\\Theta"), ("Lambda", "\\Lambda"),
   ("Xi", "\\Xi"), ("omicron", "o"), ("Pi", "\\Pi"), ("Sigma", "\\Sigma"), ("Upsilon", "\\Upsilon"),
   ("Phi", "\\Phi"), ("Psi", "\\Psi"), ("Omega", "\\Omega"), ("lamda", "\\lambda"),
   ("Lamda", "\\Lambda"), ("khi", "\\chi"), ("varepsilon", "\\varepsilon"),
   ("varkappa", "\\varkappa"), ("varphi", "\\varphi"), ("varpi", "\\varpi"), ("varrho", "\\varrho"),
   ("varsigma", "\\varsigma"), ("vartheta", "\\vartheta")]

/-- Greek capitals that look like Latin ones. -/
def greekCapitals : List (String × String) :=
  [("Alpha", "A"), ("Beta", "B"), ("Epsilon", "E"), ("Zeta", "Z"), ("Eta", "H"), ("Iota", "I"),
   ("Kappa", "K"), ("Mu", "M"), ("Nu", "N"), ("Omicron", "O"), ("Rho", "P"), ("Tau", "T"),
   ("Chi", "X"), ("Khi", "X")]

/-- Other symbols that have a command of their own name. -/
def otherSymbols : List String :=
  ["aleph", "beth", "daleth", "gimel", "ell", "eth", "hbar", "hslash", "mho", "wp"]

/-- What an ending puts in front of and behind the rest of a part, longer endings first. -/
def endings : List (String × String × String) :=
  let command := fun name : String => (name, "\\" ++ name ++ "\x7b", "\x7d")
  [command "mathring", command "ddddot",
   command "dddot", command "check", command "breve", command "acute", command "grave",
   command "tilde", ("prime", "\x7b", "\x7d'"),
   command "ddot", ("bold", "\\boldsymbol\x7b", "\x7d"), ("frak", "\\mathfrak\x7b", "\x7d"),
   ("norm", "\\left\\|\x7b", "\x7d\\right\\|"),
   command "dot", command "hat", command "bar", command "vec", ("prm", "\x7b", "\x7d'"),
   ("cal", "\\mathcal\x7b", "\x7d"), ("scr", "\\mathscr\x7b", "\x7d"),
   ("avg", "\\left\\langle\x7b", "\x7d\\right\\rangle"),
   ("abs", "\\left|\x7b", "\x7d\\right|"), ("mag", "\\left|\x7b", "\x7d\\right|"),
   ("bm", "\\boldsymbol\x7b", "\x7d")]

/-- The small letter of a character, where it is one of the Latin alphabet.  The sign of the kelvin is a
    capital letter too. -/
def smallLetter (c : Char) : Char := if c == '\u212A' then 'k' else c.toLower

/-- A text in small letters. -/
def inSmallLetters (s : String) : String := s.map smallLetter

/-- The spelling of a part that is a symbol of its own. -/
def symbol? (s : String) : Option String :=
  let small := inSmallLetters s
  match greekSpellings.lookup s, greekCapitals.lookup s with
  | some t, _ => some t
  | none, some c => some ("\\mathrm" ++ braced c)
  | none, none =>
    if greekLetters.contains small then some ("\\" ++ small)
    else if otherSymbols.contains s then some ("\\" ++ s) else none

/-- The spelling of one part of a name. -/
def spell : Nat → String → String
  | 0, s => s
  | depth + 1, s =>
    match symbol? s with
    | some t => t
    | none =>
      let fits := fun e : String × String × String =>
        e.1.length < s.length
          && (inSmallLetters s).toList.reverse.take e.1.length == e.1.toList.reverse
      match endings.find? fits with
      | some (ending, front, back) =>
        front ++ spell depth (String.ofList (s.toList.take (s.length - ending.length))) ++ back
      | none => s

/-- A name cut into its first part, superscripts and subscripts. -/
structure Parts where
  first : String
  supers : List String
  subs : List String

/-- The characters up to the next mark of a super- or subscript. -/
def untilMark (s : List Char) : List Char := s.takeWhile fun c => c != '^' && c != '_'

/-- The scripts behind the first part. -/
def scripts : Nat → List Char → List (Bool × String)
  | 0, _ => []
  | bound + 1, s =>
    let take := fun above : Bool => fun rest : List Char =>
      let part := untilMark rest
      (above, String.ofList part) :: scripts bound (rest.drop part.length)
    match s with
    | '_' :: '_' :: rest => take true rest
    | '_' :: rest => take false rest
    | '^' :: rest => take true rest
    | _ => []

/-- Digits at the end of a word of letters, of any script; a line feed behind them goes. -/
def splitDigits (s : String) : String × Option String :=
  let word := match s.toList.reverse with
    | '\n' :: rest => rest
    | cs => cs
  let digits := word.takeWhile fun c => (Text.digitValue? c).isSome
  let letters := word.drop digits.length
  if !digits.isEmpty && !letters.isEmpty && letters.all Text.isLetter then
    (String.ofList letters.reverse, some (String.ofList digits.reverse))
  else (s, none)

/-- Cuts a name.  The first part has at least one character, or two after a double underscore. -/
def parts (s : String) : Parts :=
  let cs := s.toList
  let skip := if cs.take 2 == ['_', '_'] then 2 else 1
  let front := cs.take skip ++ untilMark (cs.drop skip)
  let found := scripts cs.length (cs.drop front.length)
  let (first, digits) := splitDigits (String.ofList front)
  let subs := (found.filter fun f => !f.1).map Prod.snd
  ⟨first, (found.filter Prod.fst).map Prod.snd, digits.toList ++ subs⟩

/-- **A name in LaTeX.**  One with a brace in it is taken to be LaTeX already. -/
def name (s : String) : String :=
  if s.toList.contains '\x7b' then s
  else
    let p := parts s
    let spellPart := fun t : String => spell t.length t
    let above := if p.supers.isEmpty then "" else "^" ++ braced (" ".intercalate (p.supers.map spellPart))
    let below := if p.subs.isEmpty then "" else "_" ++ braced (" ".intercalate (p.subs.map spellPart))
    spellPart p.first ++ above ++ below

/-- Names of functions that have a command. -/
def functionCommands : List String :=
  ["arcsin", "arccos", "arctan", "sin", "cos", "tan", "sinh", "cosh", "tanh", "sqrt", "ln", "log",
   "sec", "csc", "cot", "coth", "re", "im", "frac", "root", "arg"]

/-- The place of the first such character. -/
def placeOf (c : Char) (cs : List Char) : Option Nat := cs.findIdx? (· == c)

/-- **A function name in LaTeX**: a command, a single letter with its scripts, or an operator name with
    its scripts outside.  A mark at the very beginning opens no script. -/
def functionName (s : String) : String :=
  let t := name s
  let cs := t.toList
  let marks := [placeOf '^' cs, placeOf '_' cs].filterMap id
  if functionCommands.contains t then "\\" ++ t
  else if cs.length = 1 ∨ cs.head? = some '\\' ∨ marks.contains 1 then t
  else
    let cut := ((marks.filter (0 < ·)).min?).getD cs.length
    "\\operatorname" ++ braced (String.ofList (cs.take cut)) ++ String.ofList (cs.drop cut)

/-! ## Patterns -/

/-- The digits in front of a text as a number, unless it is greater than the bound, and the rest. -/
def leadingCount? (bound : Nat) (cs : List Char) : Option (List Char) :=
  let digits := cs.takeWhile Char.isDigit
  if digits.foldl (fun n c => 10 * n + (c.toNat - 48)) 0 ≤ bound then some (cs.drop digits.length) else none

/-- A width and a count of places are at most so great. -/
def widthBound : Nat := 9223372036854775807

/-- The count of places is at most so great. -/
def placesBound : Nat := 2147483647

/-- The letters that make a percent sign ask for something to put in. -/
def isConversion (c : Char) : Bool := "sraciduoxXeEfFgG".toList.contains c

/-- Why a directive fails, whose percent sign stands in front of the text.  A key or a star asks for
    something at once; otherwise flags, a width, a count of places and the letter of a size may precede the
    letter that asks. -/
def directiveFault (cs : List Char) : Fault :=
  let size := fun cs : List Char => match cs with
    | 'h' :: rest | 'l' :: rest | 'L' :: rest => rest
    | cs => cs
  let letter := fun cs : List Char => match (size cs).head? with
    | some c => if isConversion c then .unfilledPattern else .malformedPattern
    | none => .malformedPattern
  let places := fun cs : List Char => match cs with
    | '.' :: '*' :: _ => .unfilledPattern
    | '.' :: rest => ((leadingCount? placesBound rest).map letter).getD .malformedPattern
    | cs => letter cs
  match cs with
  | '(' :: _ => .unfilledPattern
  | cs =>
    match cs.dropWhile fun c => "-+ #0".toList.contains c with
    | '*' :: _ => .unfilledPattern
    | rest => ((leadingCount? widthBound rest).map places).getD .malformedPattern

/-- Fills a pattern with nothing. -/
def fillFrom : List Char → Except Fault (List Char)
  | [] => .ok []
  | '%' :: '%' :: rest => (fillFrom rest).map ('%' :: ·)
  | '%' :: rest => .error (directiveFault rest)
  | c :: rest => (fillFrom rest).map (c :: ·)

/-- **A pattern filled with nothing.** -/
def fillPattern (s : String) : Except Fault String := (fillFrom s.toList).map String.ofList

end Latex

end ExprGraph

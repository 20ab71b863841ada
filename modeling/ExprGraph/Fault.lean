import ExprGraph.Text.Quoted
/-!
  What can go wrong, by cause.

  Every operation of the library that can fail does so with a `Fault`.  Faults that the library states
  itself carry a sentence (`Fault.message?`); faults of plain arithmetic are told apart by cause alone.
  Two causes concern the names of a user (`unbound`, `undefinedTree`): they are recoverable, and the
  sentence of each is fixed by its kind (`Recoverable`).
-/

namespace ExprGraph

/-- The recoverable kinds of failure. -/
inductive Recoverable where
  | variableNotFound
  | treeNotInScope
  deriving DecidableEq

namespace Recoverable

/-- All recoverable kinds. -/
def all : List Recoverable := [.variableNotFound, .treeNotInScope]

/-- The kind as one word. -/
def word : Recoverable → String
  | .variableNotFound => "var_not_found"
  | .treeNotInScope => "tree_not_in_scope"

/-- The kind a word names. -/
def ofWord? (w : String) : Option Recoverable := all.find? fun k => k.word == w

/-- The sentence of a kind. -/
def sentence : Recoverable → String
  | .variableNotFound => "Found variable in tree but not map"
  | .treeNotInScope => "Tree not defined in scope - use define(name, tree)"

/-- The sentence with a detail behind a colon, when there is one. -/
def explain (k : Recoverable) : Option String → String
  | none => k.sentence
  | some detail => k.sentence ++ ": " ++ detail

/-- The sentence about one name. -/
def about (k : Recoverable) (name : Option String) : String := k.explain (name.map Text.quoted)

end Recoverable

/-- The cause of a failure. -/
inductive Fault where
  /-- a variable has no value in the bindings -/
  | unbound (name : String)
  /-- no tree was published under the name -/
  | undefinedTree (name : String)
  /-- an operator vertex without operands was evaluated, folded or exported -/
  | noOperands (operator : String)
  /-- an operator was linked to no children -/
  | nothingToLink (operator : String)
  /-- an operator was linked to a number of children other than its arity -/
  | wrongCount (operator : String) (expected got : Nat)
  /-- no operator is registered under the name -/
  | unknownOperator (name : String)
  /-- a tree was made of something that is no payload -/
  | payloadExpected (kind : String)
  /-- a child is no tree -/
  | childExpected (kind : String)
  /-- what was to be published is no tree -/
  | treeExpected (kind : String)
  /-- neither an operator nor a function -/
  | operatorExpected (kind : String)
  /-- an operator was made of something that cannot be called -/
  | functionExpected
  /-- a declared arity below one -/
  | arityNotPositive
  /-- a variable name that is no text -/
  | nameNotText
  /-- no evaluation strategy of that name -/
  | unknownStrategy (name : String)
  /-- no traversal order of that name -/
  | unknownOrder (name : String)
  /-- an operator function gave up with a text of its own -/
  | raised (text : String)
  /-- an operator function asked for an operand that is not there -/
  | missingOperand
  /-- values of kinds that do not go together -/
  | kindMismatch
  /-- a number too large for the arithmetic it meets -/
  | outOfRange
  /-- a text that is no numeral -/
  | notANumeral
  /-- a percent sign in a pattern that opens no directive -/
  | malformedPattern
  /-- a pattern that asks for more than it is given -/
  | unfilledPattern
  /-- array shapes that do not broadcast -/
  | shapeMismatch
  /-- an array of other than one element was asked for its truth -/
  | ambiguousTruth
  /-- the best of no values -/
  | nothingToChoose
  /-- no recoverable kind of that name -/
  | unknownKind
  /-- no log level of that name -/
  | unknownLevel
  /-- nothing is kept under the name -/
  | noSuchName (name : String)
  /-- the handle was released, or never given out -/
  | staleHandle
  /-- the links below a handle run in a circle -/
  | circular
  deriving DecidableEq

namespace Fault

/-- The sentence of a fault; faults of plain arithmetic have none. -/
def message? : Fault → Option String
  | unbound name => some (Recoverable.variableNotFound.about (some name))
  | undefinedTree name => some (Recoverable.treeNotInScope.about (some name))
  | noOperands op => some ("Operator '" ++ op ++ "' found no operands")
  | nothingToLink op => some ("Operator '" ++ op ++ "' requires at least one operand")
  | wrongCount op expected got =>
    some ("Operator '" ++ op ++ "' expects " ++ toString expected ++ " operand(s), got " ++ toString got)
  | unknownOperator name => some ("Unknown operator '" ++ name ++ "'")
  | payloadExpected kind =>
    some ("Tree data must be an Operator, Variable or Constant, got " ++ kind)
  | childExpected kind => some ("Children must be Tree handles, got " ++ kind)
  | treeExpected kind => some ("Only Tree handles can be defined, got " ++ kind)
  | operatorExpected kind => some ("Expected an Operator or a callable, got " ++ kind)
  | functionExpected => some "Operator function must be callable"
  | arityNotPositive => some "Operator arity must be a positive integer"
  | nameNotText => some "Variable name must be a string"
  | unknownStrategy name =>
    some ("Unknown evaluation strategy '" ++ name ++ "', expected one of ('iterative', 'recursive')")
  | unknownOrder name => some ("Invalid traversal_order: " ++ name)
  | raised text => some text
  | noSuchName name => some name
  | staleHandle => some "The handle was released"
  | circular => some "The links run in a circle"
  | missingOperand | kindMismatch | outOfRange | notANumeral | malformedPattern | unfilledPattern
  | shapeMismatch | ambiguousTruth | nothingToChoose | unknownKind | unknownLevel => none

/-- The structure of the tree is at fault, not the values in it. -/
def isMalformed : Fault → Bool
  | noOperands _ | nothingToLink _ | wrongCount _ _ _ => true
  | _ => false

end Fault

/-- A report on a failure, as it is handed to a user. -/
inductive Report where
  /-- about a name, or about none in particular -/
  | named (kind : Recoverable) (name : Option String)
  /-- about a kind, with a free detail -/
  | detailed (kind : Recoverable) (detail : Option String)
  /-- about the structure of a tree -/
  | malformed (text : String)
  deriving DecidableEq

namespace Report

/-- The sentence of a report. -/
def text : Report → String
  | named kind name => kind.about name
  | detailed kind detail => kind.explain detail
  | malformed text => text

/-- The recoverable kind, if the report has one. -/
def kind? : Report → Option Recoverable
  | named kind _ | detailed kind _ => some kind
  | malformed _ => none

end Report

end ExprGraph

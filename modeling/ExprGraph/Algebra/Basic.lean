import ExprGraph.Algebra.Scalar
/-!
  Expressions of symbolic algebra.

  Sums and products have any number of parts; a product with a numeric factor has it in front, and neither
  has a part of its own kind.  Symbols stand for complex numbers of which nothing is known.  Besides the
  functions that algebra knows there are undefined ones, which have nothing but a name.
-/

namespace ExprGraph

/-- A constant that is no number to calculate with. -/
inductive NamedConstant where
  /-- the base of the natural logarithm -/
  | e
  | pi
  /-- the imaginary unit -/
  | i
  /-- the infinity of the complex plane, without direction -/
  | complexInfinity
  | yes
  | no
  deriving DecidableEq

namespace NamedConstant

/-- The name of the kind of a constant. -/
def name : NamedConstant → String
  | e => "Exp1"
  | pi => "Pi"
  | i => "ImaginaryUnit"
  | complexInfinity => "ComplexInfinity"
  | yes => "BooleanTrue"
  | no => "BooleanFalse"

/-- The sign of a constant. -/
def sign : NamedConstant → String
  | e => "E"
  | pi => "pi"
  | i => "I"
  | complexInfinity => "zoo"
  | yes => "True"
  | no => "False"

/-- The constant is a truth value. -/
def isTruth : NamedConstant → Bool
  | yes | no => true
  | _ => false

end NamedConstant

/-- The head of a function application. -/
inductive FunctionName where
  | sin
  | cos
  | sinh
  | cosh
  | exp
  | log
  /-- the absolute value -/
  | abs
  /-- the real part -/
  | re
  /-- the imaginary part -/
  | im
  /-- the angle of a point in the plane, given its second and first coordinate -/
  | angle
  /-- the angle of a complex number -/
  | argument
  /-- some number between two bounds -/
  | between
  /-- several expressions in a row -/
  | tuple
  /-- an array: the tuple of its entries, and that of the lengths of its axes -/
  | array
  /-- a function known by its name alone -/
  | undefined (name : String)
  deriving DecidableEq

namespace FunctionName

/-- The name of a function. -/
def name : FunctionName → String
  | sin => "sin"
  | cos => "cos"
  | sinh => "sinh"
  | cosh => "cosh"
  | exp => "exp"
  | log => "log"
  | abs => "Abs"
  | re => "re"
  | im => "im"
  | angle => "atan2"
  | argument => "arg"
  | between => "AccumulationBounds"
  | tuple => "Tuple"
  | array => "ImmutableDenseNDimArray"
  | undefined name => name

/-- The function is known by its name alone. -/
def isUndefined : FunctionName → Bool
  | undefined _ => true
  | _ => false

end FunctionName

/-- An expression of algebra. -/
inductive Algebra where
  | symbol (name : String)
  | number (q : Scalar)
  | constant (c : NamedConstant)
  | sum (terms : List Algebra)
  | product (factors : List Algebra)
  | power (base exponent : Algebra)
  | apply (f : FunctionName) (args : List Algebra)

namespace Algebra

/-- A rational number. -/
def rational (q : Rat) : Algebra := number (.exact q)

/-- A whole number. -/
def int (n : Int) : Algebra := rational n

/-- One half. -/
def half : Algebra := rational (mkRat 1 2)

/-- The imaginary unit. -/
def i : Algebra := constant .i

/-- The infinity without direction. -/
def complexInfinity : Algebra := constant .complexInfinity

/-- The result of what has none. -/
def undefined : Algebra := number .undefined

/-- The infinity with a sign. -/
def infinity : Algebra := number (.infinite false)

/-- The base of the natural logarithm. -/
def e : Algebra := constant .e

mutual

/-- A text that tells expressions apart. -/
def code : Algebra → String
  | symbol name => "s" ++ name.quote
  | number q => "n" ++ q.text
  | constant c => "c" ++ c.name
  | sum terms => "+(" ++ codes terms ++ ")"
  | product factors => "*(" ++ codes factors ++ ")"
  | power base exponent => "^(" ++ code base ++ code exponent ++ ")"
  | apply f args => (match f with
      | .undefined name => "u" ++ name.quote
      | f => "f" ++ f.name) ++ "(" ++ codes args ++ ")"

/-- The texts of several expressions, one after the other. -/
def codes : List Algebra → String
  | [] => ""
  | e :: es => code e ++ "," ++ codes es

end

/-- The two expressions are the same. -/
def same (a b : Algebra) : Bool := a.code == b.code

mutual

/-- Number of parts of an expression, itself included. -/
def size : Algebra → Nat
  | symbol _ | number _ | constant _ => 1
  | sum es | product es | apply _ es => sizes es + 1
  | power b x => size b + size x + 1

/-- Number of parts of several expressions. -/
def sizes : List Algebra → Nat
  | [] => 0
  | e :: es => size e + sizes es

end

mutual

/-- Neither a symbol nor an undefined function occurs. -/
def isNumeric : Algebra → Bool
  | symbol _ => false
  | number _ | constant _ => true
  | sum es | product es => areNumeric es
  | power b x => isNumeric b && isNumeric x
  | apply f es => !f.isUndefined && areNumeric es

/-- All expressions are numeric. -/
def areNumeric : List Algebra → Bool
  | [] => true
  | e :: es => isNumeric e && areNumeric es

end

mutual

/-- A symbol occurs. -/
def hasSymbol : Algebra → Bool
  | symbol _ => true
  | number _ | constant _ => false
  | sum es | product es | apply _ es => haveSymbol es
  | power b x => hasSymbol b || hasSymbol x

/-- A symbol occurs in one of the expressions. -/
def haveSymbol : List Algebra → Bool
  | [] => false
  | e :: es => hasSymbol e || haveSymbol es

end

/-- The parts of a sum. -/
def terms : Algebra → List Algebra
  | sum ts => ts
  | e => [e]

/-- The parts of a product. -/
def factors : Algebra → List Algebra
  | product fs => fs
  | e => [e]

/-- A product of given factors, of which none is a number. -/
def ofFactors : List Algebra → Algebra
  | [] => int 1
  | [e] => e
  | fs => product fs

/-- The numeric factor of an expression and what it multiplies. -/
def coefficient : Algebra → Scalar × Algebra
  | number q => (q, int 1)
  | product (number q :: fs) => (q, ofFactors fs)
  | e => (.exact 1, e)

/-- The number, if the expression is one. -/
def number? : Algebra → Option Scalar
  | number q => some q
  | _ => none

/-- The exact number, if the expression is one. -/
def rational? (e : Algebra) : Option Rat := e.number?.bind Scalar.rational?

/-- The expression is the number zero. -/
def isZero (e : Algebra) : Bool := e.number?.any Scalar.isZero

/-- The expression is the exact number one. -/
def isOne (e : Algebra) : Bool := e.number?.any (Scalar.isExactly 1)

/-- The whole number, if the expression is one. -/
def integer? (e : Algebra) : Option Int := e.number?.bind Scalar.integer?

/-- The expression is the undefined number. -/
def isUndefined (e : Algebra) : Bool :=
  match e with
  | number .undefined => true
  | _ => false

/-- The expression is the infinity without direction. -/
def isComplexInfinity (e : Algebra) : Bool :=
  match e with
  | constant .complexInfinity => true
  | _ => false

/-- The expression is nothing to calculate with: a truth value, a tuple or an array. -/
def isInert (e : Algebra) : Bool :=
  match e with
  | constant c => c.isTruth
  | apply .tuple _ | apply .array _ => true
  | _ => false

/-- The expression of a truth value. -/
def truth (b : Bool) : Algebra := constant (if b then .yes else .no)

/-- The expression is an infinity with a sign. -/
def isInfiniteNumber (e : Algebra) : Bool :=
  match e with
  | number (.infinite _) => true
  | _ => false

/-- The expression is an infinity, of whatever kind. -/
def isInfinity (e : Algebra) : Bool := e.isInfiniteNumber || e.isComplexInfinity

end Algebra

end ExprGraph

import ExprGraph.Value.Comparison
import ExprGraph.Value.Elementary
/-!
  Operators.

  An operator is a function of an ordered list of operands with a name, and possibly with an arity, an infix
  symbol, and a counterpart in algebra.  Twelve operators are built in (`Operator.builtins`); others are made of a function by
  `Operator.make`, which checks the arity and lends a nameless operator the name of its function.

  Wherever an operator is asked for, a name, a function or an operator will do (`OperatorLike`).
-/

namespace ExprGraph

/-- The primitive functions an operator can be built on. -/
inductive Primitive where
  | add
  | subtract
  | multiply
  | divide
  | power
  | negate
  | sin
  | cos
  | exp
  | log
  | sqrt
  | abs
  /-- sum from zero -/
  | sum
  /-- product from one -/
  | product
  /-- the first operand less the second -/
  | difference
  /-- number of operands -/
  | count
  /-- the first operand -/
  | first
  /-- the last operand -/
  | last
  /-- always gives up -/
  | fail
  /-- the first greatest operand -/
  | max
  /-- the first least operand -/
  | min
  /-- sum from zero, under no name of its own -/
  | anonymousSum
  /-- sum from zero with some operands fixed beforehand, here none; every copy is a function of its own -/
  | partialSum (copy : Nat)
  deriving DecidableEq

namespace Primitive

/-- The name a function lends to an operator that has none. -/
def ownName : Primitive → String
  | add => "_add"
  | subtract => "_subtract"
  | multiply => "_multiply"
  | divide => "_divide"
  | power => "_power"
  | negate => "_negate"
  | sin => "_sin"
  | cos => "_cos"
  | exp => "_exp"
  | log => "_log"
  | sqrt => "_sqrt"
  | abs => "_abs"
  | sum => "_sum"
  | product => "_product"
  | difference => "_difference"
  | count => "_count"
  | first => "_first"
  | last => "_last"
  | fail => "_fail"
  | max => "max"
  | min => "min"
  | anonymousSum => "<lambda>"
  | partialSum _ => "operator"

/-- A number above those of all copies of the function. -/
def nextCopy : Primitive → Nat
  | partialSum copy => copy + 1
  | _ => 0

/-- **A deep copy of a function.**  Plain functions are their own copies; one with operands fixed beforehand
    is copied into a new function, numbered from `fresh` on. -/
def deepCopy (fresh : Nat) : Primitive → Primitive
  | partialSum copy => partialSum (fresh + copy)
  | f => f

/-- A function of the first operand. -/
def unary (f : Value → Except Fault Value) : List Value → Except Fault Value
  | a :: _ => f a
  | [] => .error .missingOperand

/-- A function of the first two operands. -/
def binary (f : Value → Value → Except Fault Value) : List Value → Except Fault Value
  | a :: b :: _ => f a b
  | _ => .error .missingOperand

/-- Combines the operands from left to right; there must be at least one. -/
def chain (f : Value → Value → Except Fault Value) : List Value → Except Fault Value
  | a :: rest => rest.foldlM f a
  | [] => .error .kindMismatch

/-- **The value of a function on its operands.** -/
def eval : Primitive → List Value → Except Fault Value
  | add => chain Value.add
  | subtract => binary Value.sub
  | multiply => chain Value.mul
  | divide => binary Value.protectedDivide
  | power => binary Value.power
  | negate => unary Value.negate
  | sin => unary Value.sin
  | cos => unary Value.cos
  | exp => unary Value.exp
  | log => unary Value.protectedLog
  | sqrt => unary Value.sqrt
  | abs => unary Value.abs
  | sum | anonymousSum | partialSum _ => fun operands => operands.foldlM Value.add (.integer 0)
  | product => fun operands => operands.foldlM Value.mul (.integer 1)
  | difference => binary Value.sub
  | count => fun operands => .ok (.integer operands.length)
  | first => unary .ok
  | last => fun operands => unary .ok operands.reverse
  | fail => fun _ => .error (.raised "boom")
  | max => Value.greatest
  | min => Value.least

end Primitive

/-- What an operator can become in algebra. -/
inductive Counterpart where
  | add
  | subtract
  | multiply
  | divide
  | power
  | negate
  | sin
  | cos
  | exp
  | log
  | sqrt
  | abs
  deriving DecidableEq

/-- An operator. -/
structure Operator where
  /-- what it computes -/
  function : Primitive
  /-- the name by which it is written -/
  name : String
  /-- the number of operands it must be linked to, when declared -/
  arity : Option Nat
  /-- the sign written between its operands, when it has one -/
  symbol : Option String
  /-- what it becomes in algebra, when that is not an undefined function of its name -/
  counterpart : Option Counterpart
  deriving DecidableEq

namespace Operator

/-- What an operator does to its operands. -/
abbrev Interpretation := Operator → List Value → Except Fault Value

/-- An operator computes its function. -/
def apply : Interpretation := fun op => op.function.eval

/-- What counts of an operator when it is compared with others: everything but its counterpart. -/
def compared (f : Operator) : Operator := { f with counterpart := none }

/-- An operator of the given function, or of nothing that can be called.  A declared arity is positive,
    and an empty name gives way to that of the function. -/
def make (function : Option Primitive) (name : String) (arity : Option Int)
    (symbol : Option String) : Except Fault Operator :=
  match function with
  | none => .error .functionExpected
  | some f =>
    if arity.any fun n => decide (n < 1) then .error .arityNotPositive
    else .ok ⟨f, if name.isEmpty then f.ownName else name, arity.map Int.toNat, symbol, none⟩

/-- **The operators that are built in**, in their order. -/
def builtins : List Operator :=
  [⟨.add, "add", none, some "+", some .add⟩,
   ⟨.subtract, "subtract", some 2, some "-", some .subtract⟩,
   ⟨.multiply, "multiply", none, some "*", some .multiply⟩,
   ⟨.divide, "divide", some 2, some "/", some .divide⟩,
   ⟨.power, "power", some 2, some "^", some .power⟩,
   ⟨.negate, "negate", some 1, none, some .negate⟩,
   ⟨.sin, "sin", some 1, none, some .sin⟩,
   ⟨.cos, "cos", some 1, none, some .cos⟩,
   ⟨.exp, "exp", some 1, none, some .exp⟩,
   ⟨.log, "log", some 1, none, some .log⟩,
   ⟨.sqrt, "sqrt", some 1, none, some .sqrt⟩,
   ⟨.abs, "abs", some 1, none, some .abs⟩]

/-- The built-in operator of a name. -/
def builtin (name : String) : Except Fault Operator :=
  match builtins.find? fun op => op.name == name with
  | some op => .ok op
  | none => .error (.unknownOperator name)

end Operator

/-- What may stand where an operator is asked for. -/
inductive OperatorLike where
  /-- the name of a registered operator -/
  | named (name : String)
  /-- an operator -/
  | operator (op : Operator)
  /-- a bare function -/
  | function (f : Primitive)
  /-- something else, of a kind -/
  | other (kind : String)

namespace OperatorLike

/-- An operator as it is, or a bare function wrapped into one; names are not looked up here. -/
def wrap : OperatorLike → Except Fault Operator
  | operator op => .ok op
  | function f => Operator.make (some f) "" none none
  | other kind => .error (.operatorExpected kind)
  | named _ => .error (.operatorExpected "str")

/-- An operator, a wrapped function, or the built-in operator of a name. -/
def resolve : OperatorLike → Except Fault Operator
  | named name => Operator.builtin name
  | spec => spec.wrap

end OperatorLike

end ExprGraph

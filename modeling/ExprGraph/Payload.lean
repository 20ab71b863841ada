import ExprGraph.Operator
import ExprGraph.Value.Written
/-!
  What a vertex of an expression holds: an operator, a variable or a constant.

  Payloads are compared by what they mean (`Payload.same`) and filed under a key (`Payload.key?`); the
  constants among them inherit both from their values.
-/

namespace ExprGraph

/-- What a vertex holds. -/
inductive Payload where
  | op (op : Operator)
  | var (name : String)
  | const (value : Value)

/-- The three kinds of payload. -/
inductive PayloadKind where
  | op
  | var
  | const
  deriving DecidableEq

namespace PayloadKind

/-- All kinds, in order. -/
def all : List PayloadKind := [.op, .var, .const]

/-- The number of a kind. -/
def number : PayloadKind → Nat
  | op => 0
  | var => 1
  | const => 2

/-- The name of a kind, in capitals. -/
def name : PayloadKind → String
  | op => "OPERATOR"
  | var => "VARIABLE"
  | const => "CONSTANT"

/-- The name of a kind within a sentence. -/
def lowerName : PayloadKind → String
  | op => "operator"
  | var => "variable"
  | const => "constant"

/-- The name of a kind at the head of a sentence, which is also that of its type. -/
def headName : PayloadKind → String
  | op => "Operator"
  | var => "Variable"
  | const => "Constant"

end PayloadKind

/-- What a table files a payload under. -/
inductive PayloadKey where
  | op (op : Operator)
  | var (name : String)
  | const (key : Key)
  deriving DecidableEq

namespace Payload

/-- The kind of a payload. -/
def kind : Payload → PayloadKind
  | op _ => .op
  | var _ => .var
  | const _ => .const

/-- The payload is an operator. -/
def isOperator : Payload → Bool
  | op _ => true
  | _ => false

/-- The value of a constant. -/
def value? : Payload → Option Value
  | const v => some v
  | _ => none

/-- A payload for reading: a name, or the value. -/
def display : Payload → String
  | op f => f.name
  | var name => name
  | const v => v.display

/-- A payload in the form that would make it again; an operator stands under its name. -/
def literal : Payload → String
  | op f => f.name
  | var name => "Variable(name=" ++ Text.quoted name ++ ")"
  | const v => "Constant(value=" ++ v.literal ++ ")"

/-- **Equality of payloads.**  Operators agree in function, name, arity and symbol. -/
def same : Payload → Payload → Except Fault Bool
  | op a, op b => .ok (decide (a.compared = b.compared))
  | var x, var y => .ok (decide (x = y))
  | const v, const w => v.same w
  | _, _ => .ok false

/-- A number above those of all copies of functions in the payload. -/
def nextCopy : Payload → Nat
  | op f => f.function.nextCopy
  | var _ | const _ => 0

/-- **A deep copy of a payload**: that of an operator has a copy of its function. -/
def deepCopy (fresh : Nat) : Payload → Payload
  | op f => op { f with function := f.function.deepCopy fresh }
  | p => p

/-- **The key of a payload**; a constant has one when its value has. -/
def key? : Payload → Option PayloadKey
  | op f => some (.op f.compared)
  | var name => some (.var name)
  | const v => v.key?.map .const

end Payload

end ExprGraph

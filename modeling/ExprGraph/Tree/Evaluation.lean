import ExprGraph.Tree.Results
/-!
  The value of a tree.

  A constant has its value, a variable the value it is bound to, and an operator vertex the value of its
  operator on the values of its operands; an operator vertex without operands has none.  The value is
  computed by one of two strategies: along a post-order walk with a working list (`iterative`), or by
  descent (`recursive`).  Both look at the vertices in the same order, so the first thing that goes wrong
  is the same for both.

  What the operators do is a parameter (`Operator.Interpretation`).
-/

namespace ExprGraph

/-- Values for variables. -/
abbrev Bindings := List (String × Value)

namespace Bindings

/-- The value bound to a name. -/
def find (b : Bindings) (name : String) : Except Fault Value := orFault (.unbound name) (b.lookup name)

end Bindings

/-- How a tree is evaluated. -/
inductive Strategy where
  | iterative
  | recursive
  deriving DecidableEq

namespace Strategy

/-- All strategies. -/
def all : List Strategy := [.iterative, .recursive]

/-- The name of a strategy. -/
def name : Strategy → String
  | iterative => "iterative"
  | recursive => "recursive"

/-- The strategy of a name. -/
def ofName (name : String) : Except Fault Strategy :=
  orFault (.unknownStrategy name) (all.find? fun k => k.name == name)

end Strategy

/-- The value of a vertex whose operands have the given values. -/
def Vertex.value (apply : Operator.Interpretation) (b : Bindings) (x : Vertex) (args : List Value) :
    Except Fault Value :=
  match x.payload with
  | .op f => if x.operands.isEmpty then .error (.noOperands f.name) else apply f args
  | .var name => b.find name
  | .const v => .ok v

namespace Store

/-- Evaluates along a walk. -/
def evaluateAlong (apply : Operator.Interpretation) (s : Store) (b : Bindings) (root : VertexId) :
    Except Fault Value := do
  match ← s.resultOf root (Vertex.value apply b) with
  | some v => return v
  | none => .error .staleHandle

/-- Evaluates by descent, down to the given depth. -/
def evaluateBelow (apply : Operator.Interpretation) (s : Store) (b : Bindings) :
    Nat → VertexId → Except Fault Value
  | 0, _ => .error .circular
  | depth + 1, v =>
    match s.vertex? v with
    | none => .error .staleHandle
    | some x => do x.value apply b (← x.operands.mapM (evaluateBelow apply s b depth))

/-- **The value of a tree** under an interpretation of the operators. -/
def evaluateWith (apply : Operator.Interpretation) (s : Store) (strategy : Strategy) (b : Bindings)
    (root : VertexId) : Except Fault Value :=
  match strategy with
  | .iterative => evaluateAlong apply s b root
  | .recursive => evaluateBelow apply s b s.vertices.size root

/-- **The value of a tree.** -/
def evaluate (s : Store) (strategy : Strategy) (b : Bindings) (root : VertexId) :
    Except Fault Value :=
  s.evaluateWith Operator.apply strategy b root

end Store

end ExprGraph

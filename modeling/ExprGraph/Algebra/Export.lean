import ExprGraph.Algebra.Formula.Value
import ExprGraph.Algebra.Latex.Printing
import ExprGraph.Tree.Results
/-!
  From trees to expressions of algebra.

  A variable becomes the symbol of its name, and a constant the number of its value or what its text says as a
  formula.  An operator becomes its counterpart in algebra, if it has one, and an undefined function of its name
  otherwise.  An operator vertex without operands becomes nothing.

  What symbols, constants, counterparts and undefined functions are is a parameter (`Export`);
  `Algebra.standard` is the one in use.
-/

namespace ExprGraph

/-- What the parts of a tree become. -/
structure Export (α : Type) where
  symbol : String → Except Fault α
  constant : Value → Except Fault α
  counterpart : Counterpart → List α → Except Fault α
  undefined : String → List α → Except Fault α

/-- What an operator becomes. -/
def Export.operator {α : Type} (e : Export α) (f : Operator) (args : List α) : Except Fault α :=
  match f.counterpart with
  | some c => e.counterpart c args
  | none => e.undefined f.name args

/-- What a vertex becomes when its operands are exported. -/
def Vertex.exported {α : Type} (e : Export α) (x : Vertex) (args : List α) : Except Fault α :=
  match x.payload with
  | .op f => if x.operands.isEmpty then .error (.noOperands f.name) else e.operator f args
  | .var name => e.symbol name
  | .const v => e.constant v

namespace Store

/-- **A tree exported**, or the first failure. -/
def exportWith {α : Type} (e : Export α) (s : Store) (root : VertexId) : Except Fault α := do
  match ← s.resultOf root (Vertex.exported e) with
  | some a => return a
  | none => .error .staleHandle

end Store

namespace Algebra

/-- The expression of a double. -/
def ofReal (x : Float) : Algebra :=
  if x.isNaN then undefined
  else if x.isInf then number (.infinite (decide (x < 0.0)))
  else number (.decimal (.ofFloat x) 53)

/-- The expression of a half; there is none for the one that is no number. -/
def ofHalf (h : Number.Half) : Except Fault Algebra :=
  let x := h.toFloat
  if x.isNaN then .error .notANumeral
  else if x.isInf then .ok (ofReal x)
  else .ok (number (.decimal (.ofFloat x) 11))

/-- The expression of a cell. -/
def ofCell : Cell → Except Fault Algebra
  | ⟨.truth, b⟩ => .ok (truth b)
  | ⟨.half, h⟩ => ofHalf h
  | ⟨.double, x⟩ => .ok (ofReal x)
  | c => .ok (int (c.kind.toInt c.value))

/-- The expression of an array. -/
def ofArray (c : Cells) : Except Fault Algebra := do
  let es ← c.grid.cells.mapM fun x => ofCell ⟨c.kind, x⟩
  return Operand.ofEntries es (apply .tuple (c.grid.shape.map fun n : Nat => int n))

/-- The operand of a value. -/
def ofValue : Value → Except Fault Operand
  | .integer n => .ok (.expression (int n))
  | .real x => .ok (.expression (ofReal x))
  | .truth b => .ok (.expression (truth b))
  | .cell c => do return .expression (← ofCell c)
  | .array c => do return .expression (← ofArray c)
  | .text s => Operand.ofText s
  | .absent => .ok .absent

/-- An expression of the first operand. -/
def unary (f : Operand → Except Fault Algebra) : List Operand → Except Fault Algebra
  | x :: _ => f x
  | [] => .error .missingOperand

/-- An expression of the first two operands. -/
def binary (f : Operand → Operand → Except Fault Algebra) : List Operand → Except Fault Algebra
  | x :: y :: _ => f x y
  | _ => .error .missingOperand

/-- A function of operands that can be calculated with. -/
def ofTerm (f : Algebra → Algebra) (x : Operand) : Except Fault Algebra := x.term.map f

/-- The expression of a counterpart. -/
def ofCounterpart : Counterpart → List Operand → Except Fault Algebra
  | .add => addOperands
  | .subtract => binary subtractOperands
  | .multiply => multiplyOperands
  | .divide => binary divideOperands
  | .power => binary powerOperands
  | .negate => unary negateOperand
  | .sin => unary (ofTerm sinOf)
  | .cos => unary (ofTerm cosOf)
  | .exp => unary fun x => (x.toAlgebra .kindMismatch).map expOf
  | .log => unary (ofTerm fun e => logOf (absOf e))
  | .sqrt => unary (ofTerm fun e => sqrtOf (absOf e))
  | .abs => unary (ofTerm absOf)

/-- Trees as expressions of algebra. -/
def standard : Export Operand where
  symbol name := .ok (.expression (symbol name))
  constant := ofValue
  counterpart c args := do return .expression (← ofCounterpart c args)
  undefined name args := do
    return .expression (apply (.undefined name) (← args.mapM (Operand.toAlgebra .kindMismatch)))

end Algebra

namespace Store

/-- **The expression of a tree.**  A truth value or a list written as a text is none on its own. -/
def algebra (s : Store) (root : VertexId) : Except Fault Algebra := do
  match ← s.exportWith Algebra.standard root with
  | .expression e => return e
  | .truth _ | .list _ | .absent | .foreign _ => .error .kindMismatch

/-- **A tree in LaTeX.** -/
def latex (s : Store) (root : VertexId) : Except Fault String := do
  match ← s.exportWith Algebra.standard root with
  | .absent => return "\\text\x7bNone\x7d"
  | .foreign name => orFault .kindMismatch (Formula.functionText? name)
  | x => (← x.toAlgebra .kindMismatch).latex

end Store

end ExprGraph

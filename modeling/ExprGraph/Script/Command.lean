import ExprGraph.Algebra.Export
import ExprGraph.Session
import ExprGraph.Store.Snapshot
import ExprGraph.Tree.Measures
/-!
  Scripts: commands, and what they answer.

  A script works on a table of named tree handles, and on tables of named name sets, builders and walks.
  Each command is one call on the library, with names in place of what they stand for.
-/

namespace ExprGraph

/-- How a script describes an operator. -/
inductive OperatorSpec where
  /-- by name -/
  | named (name : String)
  /-- the built-in operator of a name -/
  | builtin (name : String)
  /-- as a bare function, or as something that cannot be called -/
  | bare (f : Option Primitive)
  /-- as a new operator -/
  | made (f : Option Primitive) (name : String) (arity : Option Int) (symbol : Option String)

namespace OperatorSpec

/-- What a description stands for; names are left to whoever looks them up. -/
def decode : OperatorSpec → Except Fault OperatorLike
  | named name => .ok (.named name)
  | builtin name => (Operator.builtin name).map .operator
  | bare (some f) => .ok (.function f)
  | bare none => .ok (.other "int")
  | made f name arity symbol => (Operator.make f name arity symbol).map .operator

/-- The operator a description stands for. -/
def operator (spec : OperatorSpec) : Except Fault Operator := do (← spec.decode).resolve

end OperatorSpec

/-- How a script describes a payload.  What is given as the name of a variable may be no text. -/
inductive PayloadSpec where
  | op (f : OperatorSpec)
  | var (name : Option String)
  | const (v : Value)

namespace PayloadSpec

/-- The payload a description stands for. -/
def payload : PayloadSpec → Except Fault Payload
  | op f => f.operator.map .op
  | var (some name) => .ok (.var name)
  | var none => .error .nameNotText
  | const v => .ok (.const v)

end PayloadSpec

namespace Script

/-- What a script gives where a tree is asked for: the name of a handle, or something else of a kind. -/
inductive Argument where
  | named (name : String)
  | other (kind : String)

/-- What can be asked about one tree. -/
inductive Query where
  | payload
  | size
  | depth
  | variableNames
  | usage
  | isConstant
  | text
  | textLength
  /-- the text as that of a tree -/
  | treeText
  /-- the literal form of the vertex, with its children and owners counted -/
  | vertexText
  | problems
  /-- the payloads in the order of the given name -/
  | listing (order : String)
  /-- the payloads in post-order, each with its owners while all are held -/
  | owners
  | isSole
  /-- owners, children and operands of the vertex -/
  | counts
  | algebra
  | latex

/-- A command on trees. -/
inductive TreeCommand where
  /-- makes a constant leaf -/
  | constant (target : String) (v : Value)
  /-- makes a variable leaf, observed by a set if one is named -/
  | variable (target : String) (name : Option String) (observed : Option String)
  /-- makes an operator vertex with children -/
  | operator (target : String) (f : OperatorSpec) (children : List Argument)
  /-- makes a vertex of a payload -/
  | vertex (target : String) (p : PayloadSpec)
  /-- tries to make a vertex of something that is no payload -/
  | noVertex (kind : String)
  /-- makes a vertex with links that nothing checks -/
  | linked (target : String) (p : PayloadSpec) (children : Option (List String))
  /-- applies an operator over and over to the last result and another tree -/
  | chain (target : String) (f : OperatorSpec) (count : Nat) (leaf other : String) (onRight : Bool)
  /-- applies an operator over and over to the last result twice -/
  | double (target : String) (f : OperatorSpec) (count : Nat) (leaf : String)
  | link (h : String) (children : List Argument)
  | share (target h : String)
  | clone (target h : String)
  | drop (h : String)
  /-- puts handles of the children under the given names, as far as they go -/
  | children (h : String) (targets : List String)
  | evaluate (h : String) (bindings : Bindings) (strategy : String)
  | query (h : String) (q : Query)
  | walk (target h : String)
  | next (walk : String) (count : Nat)
  | alike (a b : String)
  | coincide (a b : String)
  | heap

/-- A command on name sets and builders. -/
inductive BuilderCommand where
  | makeSet (target : String) (names : List String)
  | addToSet (set name : String)
  | showSet (set : String)
  | make (target : String) (observed : Option String) (operators : Table OperatorSpec)
  | constant (b target : String) (v : Value)
  | variable (b target : String) (name : Option String)
  | operator (b target : String) (f : OperatorSpec) (children : List Argument)
  | register (b : String) (f : OperatorSpec) (name : Option String)
  | registry (b : String)
  | observed (b : String)
  | define (b name : String) (tree : Argument)
  | isDefined (b name : String)
  /-- fetches a published tree; the returned names can be kept as a set -/
  | resolve (b name : String) (target set : Option String)

/-- A command on the log.  Levels are given by name, and without one they are moderate. -/
inductive LogCommand where
  | configure (level file : Option String)
  | setLevel (level : Option String)
  | showLogger
  | say (m : Message)
  /-- gives information for a level and those above it -/
  | inform (text : String) (level : Option String)
  | showFile

/-- A command of a script. -/
inductive Command where
  | tree (c : TreeCommand)
  | builder (c : BuilderCommand)
  | log (c : LogCommand)
  /-- folds constants; answers the number of folded operators, or logs it -/
  | fold (h : String) (summary : Bool)
  /-- runs commands that build and publish a tree, and fetches it -/
  | build (b name : String) (target : Option String) (steps : List Command)

/-- The answer of a command. -/
inductive Answer where
  | done
  | value (v : Value)
  | payload (p : Payload)
  | children (ps : Option (List Payload))
  | visited (ps : List (Option Payload))
  | number (n : Nat)
  | truth (b : Bool)
  | text (s : String)
  | texts (ss : List String)
  | usage (u : Usage)
  | problems (texts : List String) (valid : Bool)
  | owners (vs : List (String × Nat))
  | counts (owners children operands : Nat)
  | heap (handles : Table Nat) (rows : List Snapshot.Row)
  | algebra (e : Algebra)
  | registry (operators : Table Operator)
  | level (l : LogLevel)
  | logger (g : Logger)
  | logFile (file : Option LogFile)

end Script

end ExprGraph

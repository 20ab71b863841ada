import ExprGraph.Number.Half
import ExprGraph.Number.Notation
import ExprGraph.Number.Reading
import ExprGraph.Text.Quoted
import ExprGraph.Value.Arithmetic
import ExprGraph.Value.Comparison
import ExprGraph.Value.Elementary
import ExprGraph.Value.Written
import ExprGraph.Operator
import ExprGraph.Payload
import ExprGraph.Store.Ownership
import ExprGraph.Store.Linking
import ExprGraph.Store.Cloning
import ExprGraph.Walk.Visiting
import ExprGraph.Tree.Results
import ExprGraph.Tree.Evaluation
import ExprGraph.Tree.Measures
import ExprGraph.Tree.Rendering
import ExprGraph.Tree.Validity
import ExprGraph.Tree.Likeness
import ExprGraph.Tree.Folding
import ExprGraph.Store.Snapshot
import ExprGraph.Log
import ExprGraph.Session
import ExprGraph.Construction
import ExprGraph.Algebra.Export
import ExprGraph.Algebra.Latex.Naming
import ExprGraph.Algebra.Latex.Printing
import ExprGraph.Script.Command
import ExprGraph.Script.Running
import ExprGraph.Script.Inspection
import ExprGraph.Proofs.Lookup
import ExprGraph.Proofs.Term
import ExprGraph.Proofs.Unfolding
import ExprGraph.Proofs.Owners
import ExprGraph.Proofs.Holding
import ExprGraph.Proofs.Balancing
import ExprGraph.Proofs.Release
import ExprGraph.Proofs.Rewriting
import ExprGraph.Proofs.CopyOnWrite
import ExprGraph.Proofs.Walking
import ExprGraph.Proofs.TermValue
import ExprGraph.Proofs.Evaluating
import ExprGraph.Proofs.TermFolding
import ExprGraph.Proofs.Folding
import ExprGraph.Proofs.Operations
import ExprGraph.Proofs.Agreement
import ExprGraph.Proofs.Values
import ExprGraph.Proofs.Isolation
import ExprGraph.Proofs.Meaning
import ExprGraph.Proofs.Copying
import ExprGraph.Proofs.Ledger
import ExprGraph.Proofs.ValueSemantics
import ExprGraph.Proofs.Steps
import ExprGraph.Proofs.Moves
import ExprGraph.Proofs.Owned
import ExprGraph.Proofs.Keeping
import ExprGraph.Proofs.Soundness
import ExprGraph.Proofs.Staying
import ExprGraph.Proofs.Touring
import ExprGraph.Proofs.Rules
import ExprGraph.Proofs.PublicTours
import ExprGraph.Proofs.VertexRules
import ExprGraph.Proofs.Overcounting
import ExprGraph.Proofs.Variables
import ExprGraph.Proofs.Tracing
import ExprGraph.Proofs.Problems
import ExprGraph.Proofs.Arity
import ExprGraph.Proofs.Sampling
import ExprGraph.Proofs.Vectorised
import ExprGraph.Proofs.BottomUp
import ExprGraph.Proofs.Regions
import ExprGraph.Proofs.Unsharing
import ExprGraph.Proofs.Idempotence
import ExprGraph.Proofs.Framing
import ExprGraph.Proofs.Activities
import ExprGraph.Proofs.ObservedNames
import ExprGraph.Proofs.Numbering
import ExprGraph.Proofs.Publishing
import ExprGraph.Proofs.Snapshots
import ExprGraph.Proofs.Listing
import ExprGraph.Proofs.Likeness
import ExprGraph.Proofs.Interrupted
import ExprGraph.Proofs.SelfLikeness
import ExprGraph.Proofs.Stability
import ExprGraph.Proofs.Renderings
import ExprGraph.Proofs.Levels
import ExprGraph.Proofs.Replicas
import ExprGraph.Proofs.Attempts
import ExprGraph.Proofs.Refusals
import ExprGraph.Proofs.Broadcasting
import ExprGraph.Proofs.Keys
import ExprGraph.Proofs.Wrapping
import ExprGraph.Proofs.Console
import ExprGraph.Proofs.Stacks
import ExprGraph.Proofs.Occurrences
import ExprGraph.Proofs.WorkingList
import ExprGraph.Proofs.FoldingRounds

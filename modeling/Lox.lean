import Lox.CallTree.Agreement
import Lox.CallTree.Basic
import Lox.CallTree.Machine
import Lox.CallTree.Routine
import Lox.CommandLine.Arguments
import Lox.CommandLine.Run
import Lox.Diagnostic
import Lox.Execution.Evaluate
import Lox.Execution.Run
import Lox.Execution.State
import Lox.Fault
import Lox.Host
import Lox.Host.Definition
import Lox.Main
import Lox.Parse.Budget
import Lox.Parse.Phrase
import Lox.Parse.Problem
import Lox.Parse.Program
import Lox.Scope.Basic
import Lox.Scope.Resolve
import Lox.Session
import Lox.Store.Basic
import Lox.Text.WhiteSpace
import Lox.Token.Basic
import Lox.Token.Character
import Lox.Token.Scan
import Lox.Token.Segment
import Lox.Tree.Access
import Lox.Tree.Basic
import Lox.Tree.Render
import Lox.Value.Basic
import Lox.Value.Builtin
import Lox.Value.Operator
import Lox.Proofs.Token.Form
import Lox.Proofs.Token.Partition
import Lox.Proofs.Token.Blank
import Lox.Proofs.Token.LineBreak
import Lox.Proofs.Token.Respaced
import Lox.Proofs.Value.Data
import Lox.Proofs.Value.Arithmetic
import Lox.Proofs.CallTree.Ends
import Lox.Proofs.CallTree.Steps
import Lox.Proofs.CallTree.Order
import Lox.Proofs.CallTree.Similar
import Lox.Proofs.Grammar.Basic
import Lox.Proofs.Grammar.Reading
import Lox.Proofs.Grammar.Recovery
import Lox.Proofs.Grammar.Position
import Lox.Proofs.Grammar.Progress
import Lox.Proofs.Grammar.Chunk
import Lox.Proofs.Grammar.Soundness
import Lox.Proofs.Grammar.Completeness
import Lox.Proofs.Grammar.WellFormed
import Lox.Proofs.Grammar.Numbering
import Lox.Proofs.Scope.Place
import Lox.Proofs.Scope.Sites
import Lox.Proofs.Scope.Resolution
import Lox.Proofs.Scope.Positions
import Lox.Proofs.Scope.Lexical
import Lox.Proofs.Scope.Standing
import Lox.Proofs.Scope.LexicalResolution
import Lox.Proofs.Tree.Alike
import Lox.Proofs.Grammar.Alike
import Lox.Proofs.Grammar.Isolation
import Lox.Proofs.Scope.Alike
import Lox.Proofs.Value.Alike
import Lox.Proofs.Execution.Built
import Lox.Proofs.Execution.Growth
import Lox.Proofs.Execution.Alike
import Lox.Proofs.Execution.Additions
import Lox.Proofs.Execution.Links
import Lox.Proofs.Store.Laws
import Lox.Proofs.Session.Run
import Lox.Proofs.Session.History
import Lox.Proofs.Session.Layout
import Lox.Proofs.Session.Moment
import Lox.Proofs.Session.Functions
import Lox.Proofs.Session.Control
import Lox.Proofs.Session.Declarations
import Lox.Proofs.Session.Correspondence
import Lox.Proofs.Session.Depths
import Lox.Proofs.Session.Alike
import Lox.Proofs.Session.Rejection
import Lox.Proofs.Session.Lookup
import Lox.Proofs.Session.Faults
import Lox.Proofs.Session.Consistency
import Lox.Proofs.Session.Admissible
import Lox.Proofs.Session.Equivalence
import Lox.Proofs.Grammar.Joined
import Lox.Proofs.Session.Joined
import Lox.Proofs.Session.Reporting
import Lox.Proofs.Session.Learning
import Lox.Proofs.CallTree.Following
import Lox.Proofs.Session.Sandbox
import Lox.Proofs.Grammar.Loops
import Lox.Proofs.Session.Termination
import Lox.Proofs.Session.Limit
import Lox.Proofs.Token.Renamed
import Lox.Proofs.Tree.Renamed
import Lox.Proofs.Scope.Renamed
import Lox.Proofs.Grammar.Renamed
import Lox.Proofs.Value.Renamed
import Lox.Proofs.CallTree.Developing
import Lox.Proofs.Execution.Renamed
import Lox.Proofs.Session.Renamed
import Lox.Proofs.Session.LocalNames
import Lox.Proofs.Tree.Recast
import Lox.Proofs.Scope.Recast
import Lox.Proofs.Value.Indistinct
import Lox.Proofs.Value.Recast
import Lox.Proofs.Execution.Bare
import Lox.Proofs.Execution.Recast
import Lox.Proofs.CallTree.Endings
import Lox.Proofs.Execution.Loop
import Lox.Proofs.Session.Nesting
import Lox.Proofs.Session.Loops
import Lox.Proofs.Grammar.Context
import Lox.Proofs.Session.Recast
import Lox.Proofs.Session.Compound
import Lox.Proofs.Token.Literal
import Lox.Proofs.Session.Number
import Lox.Proofs.Tree.Outline
import Lox.Proofs.Grammar.Legible
import Lox.Proofs.Grammar.Written
import Lox.Proofs.Session.Overflow
import Lox.Proofs.Text.WhiteSpace
import Lox.Proofs.Host.Command

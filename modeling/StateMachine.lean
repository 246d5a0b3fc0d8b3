import StateMachine.Document.Description
import StateMachine.Document.Journal
import StateMachine.Draft.Build
import StateMachine.Graph.Adjacency
import StateMachine.Graph.Linked
import StateMachine.Graph.RootedTree
import StateMachine.Machine.Diagram
import StateMachine.Machine.Term
import StateMachine.Proofs.Acceptance
import StateMachine.Proofs.Alignment
import StateMachine.Proofs.Backtracks
import StateMachine.Proofs.Chronicle
import StateMachine.Proofs.Conservative
import StateMachine.Proofs.Cursor
import StateMachine.Proofs.Deterministic
import StateMachine.Proofs.Diagram
import StateMachine.Proofs.Document.Description
import StateMachine.Proofs.Document.Journal
import StateMachine.Proofs.Document.Limits
import StateMachine.Proofs.Draft.Order
import StateMachine.Proofs.Draft.Resolution
import StateMachine.Proofs.Draft.Survivors
import StateMachine.Proofs.Explore.Cover
import StateMachine.Proofs.Explore.First
import StateMachine.Proofs.Graph.Levels
import StateMachine.Proofs.Graph.Native
import StateMachine.Proofs.Graph.Predecessors
import StateMachine.Proofs.Graph.Reach
import StateMachine.Proofs.Graph.RootedTree
import StateMachine.Proofs.Level
import StateMachine.Proofs.Meter
import StateMachine.Proofs.Puzzle.Brackets
import StateMachine.Proofs.Puzzle.Palindrome
import StateMachine.Proofs.Replay
import StateMachine.Proofs.Retention
import StateMachine.Proofs.SearchTree.Effort
import StateMachine.Proofs.SearchTree.Explore
import StateMachine.Proofs.SearchTree.Reordering
import StateMachine.Proofs.StepLimit
import StateMachine.Proofs.Table.Basic
import StateMachine.Proofs.Table.Run
import StateMachine.Proofs.Table.Search
import StateMachine.Proofs.Text.Decimal
import StateMachine.Proofs.TrailLimit
import StateMachine.Proofs.Unwind
import StateMachine.Proofs.Work
import StateMachine.Puzzle.Brackets
import StateMachine.Puzzle.Change
import StateMachine.Puzzle.Queens
import StateMachine.Run.Direct
import StateMachine.Script.Program
import StateMachine.Search.Basic

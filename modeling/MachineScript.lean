import MachineScript.Engine.Host
import MachineScript.Main
import MachineScript.Proofs.Grammar
import MachineScript.Proofs.Grammar.Brackets
import MachineScript.Proofs.Grammar.Completeness
import MachineScript.Proofs.Grammar.Closing
import MachineScript.Proofs.Placement
import MachineScript.Proofs.Run
import MachineScript.Proofs.Run.Quiet
import MachineScript.Proofs.Run.Errands
import MachineScript.Proofs.Coherence
import MachineScript.Proofs.Tick
import MachineScript.Proofs.Turns
import MachineScript.Proofs.Run.Launches
import MachineScript.Proofs.Succession
import MachineScript.Proofs.Moves
import MachineScript.Proofs.Phases
import MachineScript.Proofs.Reachable
import MachineScript.Proofs.TransitionQueue
import MachineScript.Proofs.Sharing
import MachineScript.Proofs.LexicalStack
import MachineScript.Proofs.Waiting
import MachineScript.Proofs.History
import MachineScript.Proofs.LaunchQueue
import MachineScript.Proofs.FaultIsolation
import MachineScript.Proofs.Ownership
import MachineScript.Proofs.Layout
import MachineScript.Proofs.Lowering
import MachineScript.Proofs.Purity
import MachineScript.Proofs.Run.Calls
import MachineScript.Proofs.Run.Polls
import MachineScript.Proofs.Declarations
import MachineScript.Proofs.Points
import MachineScript.Proofs.Run.Visibility
import MachineScript.Proofs.Visibility
import MachineScript.Proofs.StaticScope
import MachineScript.Proofs.CallDepth
import MachineScript.Proofs.Bounds
import MachineScript.Proofs.Run.Registrations
import MachineScript.Proofs.Run.Firings
import MachineScript.Proofs.Chronicle
import MachineScript.Proofs.Handlers
import MachineScript.Proofs.OneShot
import MachineScript.Proofs.Halting
import MachineScript.Proofs.Termination
import MachineScript.Proofs.Timekeeping
import MachineScript.Proofs.Source.Bytes
import MachineScript.Proofs.Source.Layout
import MachineScript.Proofs.Source.Reading
import MachineScript.Proofs.UnreachableSteps
import MachineScript.Proofs.Grammar.Keywords
import MachineScript.Proofs.Run.Failures
import MachineScript.Proofs.Transitions
import MachineScript.Proofs.Run.Pending
import MachineScript.Proofs.Run.Sweeps
import MachineScript.Proofs.Polls
import MachineScript.Proofs.Source.Concatenation
import MachineScript.Proofs.Grammar.Lookahead
import MachineScript.Proofs.Variables
import MachineScript.Proofs.Variables.Setting
import MachineScript.Proofs.Variables.Assigning
import MachineScript.Proofs.Library.Arithmetic
import MachineScript.Proofs.Number.Rounding
import MachineScript.Proofs.Number.Packing
import MachineScript.Proofs.Number.Scientific
import MachineScript.Proofs.Number.Shortest
import MachineScript.Proofs.Number.Text
import MachineScript.Proofs.Number.Integers
import MachineScript.Proofs.Library.Extremes
import MachineScript.Proofs.Source.Display
import MachineScript.Proofs.Outline.Entries
import MachineScript.Proofs.Outline.Lines
import MachineScript.Proofs.Outline
import MachineScript.Proofs.BracketPairs
import MachineScript.Proofs.StackDiscipline
import MachineScript.Proofs.Interning

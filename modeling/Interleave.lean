import Interleave.Assembly
import Interleave.Attachments
import Interleave.Choice
import Interleave.CommandLine.Answer
import Interleave.CommandLine.Request
import Interleave.Decimal
import Interleave.Demo
import Interleave.Descriptor
import Interleave.Fault
import Interleave.Frame
import Interleave.Heap
import Interleave.Hex
import Interleave.Ids
import Interleave.Inspect.Basic
import Interleave.Inspect.Program
import Interleave.Inspect.Search
import Interleave.Inspect.State
import Interleave.Instruction
import Interleave.Kernel
import Interleave.Listing
import Interleave.Loop
import Interleave.Machine.Basic
import Interleave.Machine.Host
import Interleave.Machine.Transition
import Interleave.Machine.Walk
import Interleave.Main
import Interleave.Mangling
import Interleave.Method.Basic
import Interleave.Method.Draft
import Interleave.Method.Lines
import Interleave.Method.Stub
import Interleave.Modifiers
import Interleave.Monitor
import Interleave.Opcode
import Interleave.Program
import Interleave.Proofs.Assembling
import Interleave.Proofs.Choice
import Interleave.Proofs.Descriptors
import Interleave.Proofs.Effect
import Interleave.Proofs.Faults
import Interleave.Proofs.Generators
import Interleave.Proofs.Holdings
import Interleave.Proofs.Initialization
import Interleave.Proofs.Initializers
import Interleave.Proofs.Kernel
import Interleave.Proofs.Layout
import Interleave.Proofs.Lineage
import Interleave.Proofs.Lines
import Interleave.Proofs.Loading
import Interleave.Proofs.Machine.Abandoned
import Interleave.Proofs.Machine.Activations
import Interleave.Proofs.Machine.Agreement
import Interleave.Proofs.Machine.Alike
import Interleave.Proofs.Machine.Bounded
import Interleave.Proofs.Machine.Choices
import Interleave.Proofs.Machine.ClassInit
import Interleave.Proofs.Machine.Commuting
import Interleave.Proofs.Machine.Delivery
import Interleave.Proofs.Machine.Driven
import Interleave.Proofs.Machine.Entering
import Interleave.Proofs.Machine.Exceptions
import Interleave.Proofs.Machine.History
import Interleave.Proofs.Machine.HostCalls
import Interleave.Proofs.Machine.Hosted
import Interleave.Proofs.Machine.Isolation
import Interleave.Proofs.Machine.Leaving
import Interleave.Proofs.Machine.Listening
import Interleave.Proofs.Machine.Objects
import Interleave.Proofs.Machine.Recognized
import Interleave.Proofs.Machine.Relevance
import Interleave.Proofs.Machine.Restored
import Interleave.Proofs.Machine.Rounds
import Interleave.Proofs.Machine.Scratch
import Interleave.Proofs.Machine.Sharing
import Interleave.Proofs.Machine.Sound
import Interleave.Proofs.Machine.Staffed
import Interleave.Proofs.Machine.Stops
import Interleave.Proofs.Machine.Unread
import Interleave.Proofs.Made
import Interleave.Proofs.Mangling
import Interleave.Proofs.Monitors
import Interleave.Proofs.Programs
import Interleave.Proofs.Search.Agenda
import Interleave.Proofs.Search.AnyOrder
import Interleave.Proofs.Search.Arrival
import Interleave.Proofs.Search.BreadthFirst
import Interleave.Proofs.Search.ChoiceTree
import Interleave.Proofs.Search.Counters
import Interleave.Proofs.Search.DepthLimit
import Interleave.Proofs.Search.Draws
import Interleave.Proofs.Search.Exhaustion
import Interleave.Proofs.Search.Expansion
import Interleave.Proofs.Search.Growth
import Interleave.Proofs.Search.Ledger
import Interleave.Proofs.Search.Lockstep
import Interleave.Proofs.Search.Paths
import Interleave.Proofs.Search.Points
import Interleave.Proofs.Search.Preorder
import Interleave.Proofs.Search.Queue
import Interleave.Proofs.Search.Replay
import Interleave.Proofs.Search.Stack
import Interleave.Proofs.Search.StateMatching
import Interleave.Proofs.Search.Switching
import Interleave.Proofs.Search.Truncation
import Interleave.Proofs.Search.Violations
import Interleave.Proofs.Search.Worklist
import Interleave.Proofs.Slots
import Interleave.Proofs.Stacks
import Interleave.Proofs.Step.Advance
import Interleave.Proofs.Step.Alone
import Interleave.Proofs.Step.Arithmetic
import Interleave.Proofs.Step.Calls
import Interleave.Proofs.Step.Checks
import Interleave.Proofs.Step.Convention
import Interleave.Proofs.Step.Covered
import Interleave.Proofs.Step.Dispatch
import Interleave.Proofs.Step.Events
import Interleave.Proofs.Step.Faulted
import Interleave.Proofs.Step.Floors
import Interleave.Proofs.Step.Footing
import Interleave.Proofs.Step.Frames
import Interleave.Proofs.Step.Kept
import Interleave.Proofs.Step.Moves
import Interleave.Proofs.Step.Operations
import Interleave.Proofs.Step.Overlooks
import Interleave.Proofs.Step.Parts
import Interleave.Proofs.Step.Perform
import Interleave.Proofs.Step.Places
import Interleave.Proofs.Step.Sources
import Interleave.Proofs.Step.Stores
import Interleave.Proofs.Step.Within
import Interleave.Proofs.Stubs
import Interleave.Proofs.Waiting
import Interleave.Random
import Interleave.Relevance
import Interleave.Report
import Interleave.Search.Basic
import Interleave.Search.BestFirst
import Interleave.Search.DepthFirst
import Interleave.Search.Footprint
import Interleave.Search.Sampling
import Interleave.Search.Strategies
import Interleave.Step.Basic
import Interleave.Step.Call
import Interleave.Step.Execute
import Interleave.Step.Local
import Interleave.Step.Memory
import Interleave.Step.Unwind
import Interleave.Step.Waiting
import Interleave.Sum
import Interleave.Thread
import Interleave.TypeCode
import Interleave.Written

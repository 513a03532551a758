import Interleave.Loop
import Interleave.Relevance
import Interleave.Step.Execute

/-!
# The machine

A machine runs a program under the direction of a search. Its state is the kernel together with the
path that led there: which thread is current, the data choice not yet consumed, and the trail of all
choices taken. A generator is pending where the next decision is open.

A snapshot holds everything that a transition can change, so restoring one undoes whatever happened
since.

A machine that is listened to writes down what happens, in order. Events that a step reports are
queued first and delivered once the step is done; those of a step that faults wait for the next
delivery.
-/

namespace Interleave

/-- A choice that was taken. -/
structure ChoiceRecord where
  /-- The id of the generator. -/
  generator : String
  choice : Choice
  /-- Its position. -/
  index : Nat
  /-- The number of choices there were. -/
  total : Nat
deriving DecidableEq, Repr, Inhabited

/-- The record of a choice that a generator stands at. -/
def ChoiceRecord.of (g : Generator) (c : Choice) : ChoiceRecord :=
  { generator := g.id, choice := c, index := g.cursor.getD 0, total := g.total }

/-- Do two records stand for the same choice? -/
def ChoiceRecord.same (a b : ChoiceRecord) : Bool :=
  a.generator == b.generator && a.choice.sameValue b.choice && a.index == b.index
    && a.total == b.total

/-- How the machine came to be where it is. -/
structure Path where
  /-- The thread that runs. -/
  current : ThreadId := .main
  /-- The data choice that waits to be consumed. -/
  choice : Option Choice := none
  /-- The choices taken since the start, the oldest first. -/
  trail : Array ChoiceRecord := #[]
  /-- The exception that escaped a thread in the last transition. -/
  uncaught : Option Uncaught := none
  started : Bool := false
deriving DecidableEq, Repr, Inhabited

namespace Path

/-- The number of choices taken. -/
def length (p : Path) : Nat := p.trail.size

/-- Are two paths the same, up to the notation of equal values? -/
def same (a b : Path) : Bool :=
  a.current == b.current && a.uncaught == b.uncaught && a.started == b.started
    && (match a.choice, b.choice with
      | none, none => true
      | some c, some d => c.sameValue d
      | _, _ => false)
    && a.trail.size == b.trail.size
    && (a.trail.toList.zip b.trail.toList).all fun (r, s) => r.same s

end Path

/-- Why a transition stopped. -/
inductive TransitionEnd where
  /-- A generator is pending. -/
  | choicePoint
  /-- All threads have ended. -/
  | endState
  /-- Threads are alive, but none can run. -/
  | deadlock
  /-- An exception ended a thread. If another thread can run, a choice among those is pending. -/
  | uncaughtException
deriving DecidableEq, Repr, Inhabited

/-- The name of a reason. -/
def TransitionEnd.text : TransitionEnd → String
  | choicePoint => "ChoicePoint"
  | endState => "EndState"
  | deadlock => "Deadlock"
  | uncaughtException => "UncaughtException"

/-- How a machine is to run. -/
structure Config where
  /-- The number of steps after which a transition is broken by a choice among threads; zero for
  never. Such a choice is offered even if only one thread can run. -/
  maxTransitionLength : Nat := 5000
  /-- Methods, as class and name, that are atomic whatever they say themselves. -/
  atomicMethods : List String := []
  /-- The number of rounds after which a run is given up that nothing else bounds. -/
  stepBudget : Nat := Nat.pow 2 62
deriving DecidableEq, Repr, Inhabited

/-- Is there no scheduling point in a method? -/
def Config.isAtomic (c : Config) (m : Method) : Bool :=
  m.attributes.atomic || c.atomicMethods.contains m.baseName

/-- What a listener is told. -/
inductive Notice where
  /-- An instruction is about to run. -/
  | executing (thread : ThreadId) (method : Method) (instruction : Instruction) (line : Nat)
    (relevant entry : Bool)
  /-- An instruction has run. -/
  | executed (thread : ThreadId) (instruction : Instruction) (completed : Bool)
  /-- Something happened during a step. -/
  | event (event : Event)
  /-- A choice among threads is open, after a path of this length. -/
  | registered (generator : Generator) (depth : Nat)
deriving Inhabited

/-- What a transition can change. -/
structure Snapshot where
  /-- The state of the program. -/
  kernel : Kernel
  scratch : Array Scratch
  path : Path
deriving Inhabited

/-- Are two snapshots the same? -/
def Snapshot.same (a b : Snapshot) : Bool :=
  a.kernel.fingerprint == b.kernel.fingerprint && a.scratch == b.scratch && a.path.same b.path

/-- A machine. -/
structure Machine where
  /-- The program it runs. -/
  program : Program
  /-- How it runs it. -/
  config : Config := {}
  /-- The state of the program. -/
  kernel : Kernel
  /-- The scratch data of the threads, by number. -/
  scratch : Array Scratch := #[]
  /-- How it came to be where it is. -/
  path : Path := {}
  /-- The open decision. -/
  pending : Option Generator := none
  /-- Events that are yet to be delivered. -/
  queue : Array Event := #[]
  /-- The thread of a call from outside, and its number of frames before the call. -/
  hostCall : Option (ThreadId × Nat) := none
  /-- The exception that left a call from outside. -/
  hostEscape : Option Uncaught := none
  /-- Does anybody listen? -/
  listening : Bool := false
  /-- What listeners have been told, in order. -/
  notices : Array Notice := #[]
deriving Inhabited

namespace Machine

/-- A machine in front of a program. -/
def new (p : Program) (config : Config) (listening : Bool) : Machine :=
  { program := p, config, kernel := .initial p, listening }

/-- The thread that runs. -/
def current (m : Machine) : ThreadId := m.path.current

/-- The number of choices taken. -/
def depth (m : Machine) : Nat := m.path.length

/-- Can no transition follow? -/
def isTerminal (m : Machine) : Bool := m.kernel.isEndState || m.kernel.isDeadlocked

/-- The scratch data of a thread. -/
def scratchOf (m : Machine) (t : ThreadId) : Scratch := m.scratch[t.index]?.getD {}

/-- Has the scheduling point of the next instruction of the current thread been taken? -/
def isFresh (m : Machine) : Bool := (m.scratchOf m.current).firstStep

/-- Scratch data for this many threads at least; those without any get fresh ones. -/
def fitScratch (count : Nat) (s : Array Scratch) : Array Scratch :=
  s ++ Array.replicate (count - s.size) ({} : Scratch)

/-- Changes the scratch data of a thread. -/
def modifyScratch (m : Machine) (t : ThreadId) (f : Scratch → Scratch) : Machine :=
  { m with scratch := (fitScratch (t.index + 1) m.scratch).modify t.index f }

/-- The machine with another state of the program; new threads have fresh scratch data. -/
def withKernel (m : Machine) (k : Kernel) : Machine :=
  { m with kernel := k, scratch := fitScratch k.threads.size m.scratch }

/-- Everything that a transition can change. -/
def snapshot (m : Machine) : Snapshot :=
  { kernel := m.kernel, scratch := m.scratch, path := m.path }

/-- The machine as it was when a snapshot was taken, with nothing pending. -/
def restore (m : Machine) (s : Snapshot) : Machine :=
  { m with
    kernel := s.kernel, scratch := s.scratch, path := s.path
    pending := none, queue := #[], hostEscape := none }

/-- Tells listeners something, if there are any. -/
def tell (m : Machine) (n : Notice) : Machine :=
  if m.listening then { m with notices := m.notices.push n } else m

/-- Delivers the queued events. -/
def deliver (m : Machine) : Machine :=
  let queue := m.queue
  queue.foldl (fun m e => m.tell (.event e)) { m with queue := #[] }

/-- The machine with a choice among threads pending. -/
def register (m : Machine) (g : Generator) : Machine :=
  { m with pending := some g }.tell (.registered g m.depth)

/-- The machine after a step has worked on it. -/
def absorb (m : Machine) (t : ThreadId) (w : Work) : Machine :=
  { m.withKernel w.kernel with
    path := { m.path with choice := w.choice }
    pending := w.pending
    queue := m.queue ++ w.events }.modifyScratch t fun s => { s with transient := w.transient }

/-- A computation on a machine. -/
abbrev Action := EStateM Fault Machine

namespace Action

/-- The outcome of a computation that changes nothing. -/
def lift {α : Type} : Except Fault α → Action α
  | .ok a => pure a
  | .error e => throw e

/-- The thread with a number. -/
def thread (t : ThreadId) : Action Thread := do
  lift ((← get).kernel.thread t)

/-- Runs a step on behalf of a thread. The machine hands its state over to the step while it runs,
so that the step is the only one that refers to it and can change it in place. -/
def step {α : Type} (t : ThreadId) (a : Step α) : Action α := fun m =>
  let w : Work :=
    { kernel := m.kernel, choice := m.path.choice, pending := m.pending,
      transient := (m.scratchOf t).transient }
  let m := { m with kernel := {} }
  match a w with
  | .ok v w' => .ok v (m.absorb t w')
  | .error e w' => .error e (m.absorb t w')

end Action

end Machine

end Interleave

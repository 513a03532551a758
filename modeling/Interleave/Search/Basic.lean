import Interleave.Machine.Transition
import Std.Data.HashSet

/-!
# Searches

A search drives a machine through its choices and checks properties of the states it reaches. The
operations here are what all strategies are made of: taking the pending generator, running the
transition of its current choice, storing and restoring states, recognizing states seen before,
checking properties, and counting. A strategy decides the order in which open choices are tried, and
when a path ends.

A choice point is recognized by the fingerprint of the state together with the current thread and
the generator. The state alone is not enough: a forced choice among threads in front of a call to a
source of values leaves it just as the data choice of that call finds it.

The key of a choice point is kept whole. A search that keeps a hash of 64 bits in its place agrees
with this one as long as no two different keys that it meets have the same hash; with a collision it
would leave out a choice point that it has not expanded. The results about searches hold for both
where hashes do not collide.
-/

namespace Interleave

/-- What a search is to do. -/
structure SearchConfig where
  /-- How many choices a path may take beyond those it starts with; zero for any number. -/
  depthLimit : Nat := 0
  /-- How many paths a sampling search runs after the first one. -/
  pathLimit : Nat := 0
  /-- Does the search end at the first violation? -/
  stopOnFirstError : Bool := true
  /-- Are choice points left out whose state has been expanded before? -/
  stateMatching : Bool := true
  /-- Where the random numbers of a sampling search begin. -/
  seed : UInt64 := 0
deriving DecidableEq, Repr, Inhabited

/-- The counters of a search. -/
structure SearchStats where
  /-- Transitions run. -/
  transitions : Nat := 0
  /-- Choice points expanded for the first time. -/
  newStates : Nat := 0
  /-- Choice points left out because their state was seen before. -/
  revisitedStates : Nat := 0
  /-- States in which every thread had ended. -/
  endStates : Nat := 0
  /-- Paths that came to an end. -/
  paths : Nat := 0
  /-- Returns to an earlier state of the same path. -/
  backtracks : Nat := 0
  /-- Jumps to a stored state. -/
  restores : Nat := 0
  /-- Paths cut off by a limit. -/
  constraintHits : Nat := 0
  /-- The length of the longest path. -/
  maxDepth : Nat := 0
deriving DecidableEq, Repr, Inhabited

/-- A property that failed, with the choices that led there. -/
structure Violation where
  property : String
  /-- What is wrong. -/
  message : String
  trail : Array ChoiceRecord
deriving DecidableEq, Repr, Inhabited

namespace Violation

/-- The number of choices. -/
def depth (v : Violation) : Nat := v.trail.size

/-- A description of a violation. -/
def text (v : Violation) : String :=
  v.property ++ ": " ++ v.message ++ " (depth " ++ toString v.depth ++ ")"

end Violation

/-- A property of states. -/
structure Property where
  name : String
  /-- What is wrong in a state, if anything. -/
  check : Machine → Option String

namespace Property

/-- No thread ends by an exception. -/
def noUncaughtExceptions : Property where
  name := "no-uncaught-exceptions"
  check m := m.path.uncaught.map fun u => "uncaught " ++ u.text

/-- Some thread that is alive can run. -/
def notDeadlocked : Property where
  name := "not-deadlocked"
  check m :=
    if m.kernel.isDeadlocked then
      let waiting := m.kernel.threads.toList.filter Thread.isAlive
      some ("deadlock: " ++ ", ".intercalate
        (waiting.map fun t => t.id.text ++ " " ++ t.status.longText))
    else none

/-- The properties that a search checks unless told otherwise. -/
def defaults : List Property := [noUncaughtExceptions, notDeadlocked]

end Property

/-- Why a search cannot go on. -/
inductive SearchFault where
  | machine (cause : Fault)
  | notStarted
  | emptyChoice (generator : String)
  /-- The bound on the number of rounds is used up. -/
  | budgetExhausted
deriving DecidableEq, Repr

/-- The wording of a fault. -/
def SearchFault.message : SearchFault → String
  | machine e => e.message
  | notStarted => "the VM must be started before a search"
  | emptyChoice g => "choice generator " ++ g ++ " has no choices"
  | budgetExhausted => "the step budget is used up"

/-- What the listeners of a search are told. -/
inductive SearchNotice where
  | started (depth : Nat)
  /-- A transition led to a new state. -/
  | advanced (state : Machine)
  /-- The search went back to a state on its path. -/
  | backtracked (depth count : Nat)
  /-- The search jumped to a stored state. -/
  | restored (depth count : Nat)
  | violated (depth : Nat) (violation : Violation)
  | constraintHit (depth : Nat) (constraint : String)
  | finished (transitions : Nat)
deriving Inhabited

/-- What a choice point is recognized by. -/
structure StateKey where
  /-- The state of the program. -/
  state : Kernel.Fingerprint
  /-- The thread that runs. -/
  current : ThreadId
  /-- The id of the generator. -/
  generator : String
  domain : Domain
deriving DecidableEq, Hashable

/-- A search. -/
structure Search where
  /-- The machine it drives. -/
  machine : Machine
  /-- What it is to do. -/
  config : SearchConfig := {}
  properties : List Property := Property.defaults
  violations : Array Violation := #[]
  stats : SearchStats := {}
  /-- The choice points it has expanded. -/
  visited : Std.HashSet StateKey := {}
  /-- The number of transitions when properties were last checked. -/
  checkedAt : Option Nat := none
  /-- Is it over? -/
  done : Bool := false
  /-- Does anybody listen? -/
  listening : Bool := false
  /-- What listeners have been told, in order. -/
  notices : Array SearchNotice := #[]

/-- What a search has found. -/
structure SearchReport where
  strategy : String
  stats : SearchStats
  /-- The violations, in the order in which they were found. -/
  violations : List Violation
deriving DecidableEq, Repr, Inhabited

/-- Was nothing wrong? -/
def SearchReport.isOk (r : SearchReport) : Bool := r.violations.isEmpty

namespace Search

/-- A computation on a search. -/
abbrev Action := EStateM SearchFault Search

/-- The length of the current path. -/
def depth (s : Search) : Nat := s.machine.depth

/-- The greatest length that can be named. -/
def maxLength : Nat := UInt64.size - 1

/-- The length at which paths are cut off, if at all; the limit counts from the current path. -/
def depthBound (s : Search) : Option Nat :=
  if s.config.depthLimit = 0 then none
  else some (min (s.config.depthLimit + s.depth) maxLength)

/-- Tells listeners something, if there are any. -/
def tell (s : Search) (n : SearchNotice) : Search :=
  if s.listening then { s with notices := s.notices.push n } else s

/-- Changes the counters. -/
def count (s : Search) (f : SearchStats → SearchStats) : Search := { s with stats := f s.stats }

/-- Hands out the pending generator. -/
def takeChoicePoint (s : Search) : Option Generator × Search :=
  let (g, machine) := s.machine.takePending
  (g, { s with machine })

/-- Runs the transition of the current choice of a generator. -/
def forward (g : Generator) : Action TransitionEnd := fun s =>
  match s.machine.transition g with
  | .error e machine => .error (.machine e) { s with machine }
  | .ok stop machine =>
    let s := { s with machine }.count fun c => { c with
      transitions := c.transitions + 1
      maxDepth := max c.maxDepth machine.depth
      endStates := c.endStates + if stop = TransitionEnd.endState then 1 else 0 }
    .ok stop (s.tell (.advanced machine))

/-- Goes back to a state on the current path. -/
def backtrack (s : Search) (snapshot : Snapshot) : Search :=
  let s := { s with machine := s.machine.restore snapshot }.count fun c =>
    { c with backtracks := c.backtracks + 1 }
  s.tell (.backtracked s.depth s.stats.backtracks)

/-- Jumps to a stored state. -/
def restore (s : Search) (snapshot : Snapshot) : Search :=
  let s := { s with machine := s.machine.restore snapshot }.count fun c =>
    { c with restores := c.restores + 1 }
  s.tell (.restored s.depth s.stats.restores)

/-- What the current state, with a generator pending in it, is recognized by. -/
def stateKey (s : Search) (g : Generator) : StateKey :=
  { state := s.machine.kernel.fingerprint, current := s.machine.current, generator := g.id,
    domain := g.domain }

/-- Records that the current state, with a generator pending in it, is expanded. The answer is
whether it has to be: with state matching, only the first time. -/
def visit (s : Search) (g : Generator) : Bool × Search :=
  if s.config.stateMatching then
    let key := s.stateKey g
    if s.visited.contains key then
      (false, s.count fun c => { c with revisitedStates := c.revisitedStates + 1 })
    else
      (true, { s with visited := s.visited.insert key }.count fun c =>
        { c with newStates := c.newStates + 1 })
  else (true, s.count fun c => { c with newStates := c.newStates + 1 })

/-- Records that a path has come to an end. -/
def pathFinished (s : Search) : Search := s.count fun c => { c with paths := c.paths + 1 }

/-- Records that a path has been cut off. -/
def constraintHit (s : Search) (constraint : String) : Search :=
  (s.count fun c => { c with constraintHits := c.constraintHits + 1 }).tell
    (.constraintHit s.depth constraint)

/-- What is wrong in the current state, in the order of the properties. -/
def failures (s : Search) : List Violation :=
  s.properties.filterMap fun p =>
    (p.check s.machine).map fun message =>
      { property := p.name, message, trail := s.machine.path.trail }

/-- Adds a violation to those found. -/
def recordViolation (s : Search) (v : Violation) : Search :=
  let s := s.tell (.violated s.depth v)
  { s with violations := s.violations.push v }

/-- Checks the properties, once for each state. The answer is whether one failed, which may end the
search. -/
def checkProperties (s : Search) : Bool × Search :=
  if s.checkedAt = some s.stats.transitions then (false, s)
  else
    let s := { s with checkedAt := some s.stats.transitions }
    match s.failures with
    | [] => (false, s)
    | found =>
      let s := found.foldl recordViolation s
      (true, { s with done := s.done || s.config.stopOnFirstError })

/-- Has the current path reached a bound? -/
def hasReached (s : Search) (bound : Option Nat) : Bool := bound.any (· ≤ s.depth)

/-- Records a path that has reached its bound. -/
def cutOff (s : Search) : Search :=
  if s.machine.pending.isSome then s.constraintHit "depth limit" else s

/-- Where a transition has led a search that expands choice points. -/
inductive Arrival where
  /-- A violation has ended the search. -/
  | stopped
  /-- The path goes no further. -/
  | closed
  /-- This generator has to be expanded. -/
  | opened (g : Generator)
deriving DecidableEq, Repr

/-- Looks at the state that a transition has led to. -/
def arrive (s : Search) (bound : Option Nat) : Arrival × Search :=
  let (failed, s) := s.checkProperties
  if failed && s.done then (.stopped, s.pathFinished)
  else if s.hasReached bound then (.closed, s.cutOff.pathFinished)
  else
    match s.takeChoicePoint with
    | (none, s) => (.closed, s.pathFinished)
    | (some g, s) =>
      match s.visit g with
      | (true, s) => (.opened g, s)
      | (false, s) => (.closed, s)

/-- Ends a search that has nothing to choose. -/
def finishWithoutChoice (s : Search) : Search := s.checkProperties.2.pathFinished

/-- A way to search, with a bound on the number of its rounds. -/
structure Strategy where
  name : String
  run : Nat → Action Unit

/-- Runs a strategy and reports what it found. -/
def run (strategy : Strategy) (rounds : Nat) : Action SearchReport := fun s =>
  if !s.machine.path.started then .error .notStarted s
  else
    match strategy.run rounds (s.tell (.started s.depth)) with
    | .error e s => .error e (s.tell (.finished s.stats.transitions))
    | .ok () s =>
      let s := s.tell (.finished s.stats.transitions)
      .ok { strategy := strategy.name, stats := s.stats, violations := s.violations.toList } s

end Search

end Interleave

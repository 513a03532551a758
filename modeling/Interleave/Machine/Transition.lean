import Interleave.Machine.Basic

/-!
# Transitions

A transition starts from one choice and runs instructions until the next choice is open, the program
has ended, or an exception escapes. Before an instruction runs it is asked whether other threads
have to be considered; if so, a choice among the threads that can run is left pending in front of
it. The first instruction of a transition is not asked about, because its scheduling point is the
one that has just been resolved; nor is the first one after the machine has switched to the only
thread left that can run. The scratch data of a thread say whether its next instruction is such a
first one: a choice and a switch set that, and every step takes it back.
-/

namespace Interleave.Machine

/-- Ends a thread and wakes those that wait for its end. -/
def endThread (m : Machine) (t : ThreadId) : Machine :=
  let k := (m.kernel.modifyThread t Thread.terminate).wakeJoiners t
  { m with kernel := k, queue := m.queue.push (.threadTerminated t) }.modifyScratch t
    fun s => { s with next := none }

/-- Records where a thread continues. -/
def updateNext (m : Machine) (t : ThreadId) : Machine :=
  m.modifyScratch t fun s =>
    { s with next := (m.kernel.threads[t.index]?.bind (·.frames.head?)).map Frame.point }

/-- Tells listeners that an instruction is about to run. -/
def tellExecuting (m : Machine) (t : ThreadId) (th : Thread) (f : Frame) (i : Instruction) :
    Machine :=
  if m.listening then
    m.tell (.executing t f.method i (f.method.lineOf i)
      (Relevance.isRelevant m.program m.kernel t i) (th.isEntry f.method))
  else m

/-- Tells listeners that an instruction has run. -/
def tellExecuted (m : Machine) (t : ThreadId) (i : Instruction) : Machine :=
  if m.listening then
    match m.kernel.threads[t.index]? with
    | some th => m.tell (.executed t i (i.isCompleted th (m.scratchOf t)))
    | none => m
  else m

/-- Settles what became of a thread after an instruction. An exception that escapes ends the thread,
or, in the thread of a call from outside, the call; the answer is whether it ended the thread. -/
def settle (m : Machine) (t : ThreadId) : Outcome → Bool × Machine
  | .running => (false, m)
  | .finished => (false, m.endThread t)
  | .escaped r =>
    match m.hostCall with
    | some (host, base) =>
      if host = t then
        (false, { m with
          kernel := m.kernel.modifyThread t (·.dropTo base), hostEscape := some r })
      else escape r
    | none => escape r
where
  escape (r : Uncaught) : Bool × Machine :=
    let m := m.endThread t
    (true, { m with path := { m.path with uncaught := some r } })

/-- Runs one instruction of a thread. The answer is whether an exception ended the thread. -/
def step (t : ThreadId) : Action Bool := do
  let th ← Action.thread t
  modify (·.modifyScratch t fun s => { s with transient := {}, firstStep := false })
  let f ← Action.lift th.top
  let i ← Action.lift f.instruction
  modify (·.tellExecuting t th f i)
  let outcome ← Action.step t (Step.perform (← get).program t i)
  let (escaped, m) := (← get).settle t outcome
  set (((m.updateNext t).deliver).tellExecuted t i)
  pure escaped

/-- Picks the thread to go on with when the current one cannot: silently if there is just one, else
by a choice. The answer says why the transition stops, if it does. -/
def reschedule : Action (Option TransitionEnd) := do
  let m ← get
  match m.kernel.runnable with
  | [] => pure (some (if m.kernel.isDeadlocked then .deadlock else .endState))
  | [only] =>
    set ({ m with path := { m.path with current := only } }.modifyScratch only
      fun s => { s with firstStep := true })
    pure none
  | _ =>
    let th ← Action.thread m.current
    set (m.register (m.kernel.threadChoice (if th.isTerminated then "terminate" else "blocked")))
    pure (some .choicePoint)

/-- The choice to leave pending before an instruction, if any: other threads have to be considered,
or the transition has run for long enough. -/
def breakBefore (m : Machine) (steps : Nat) (f : Frame) (i : Instruction) : Option Generator :=
  if !m.config.isAtomic f.method && Relevance.isRelevant m.program m.kernel m.current i then
    some (m.kernel.threadChoice (Relevance.pointName i.op))
  else if 0 < m.config.maxTransitionLength ∧ m.config.maxTransitionLength ≤ steps then
    some (m.kernel.threadChoice "maxTransitionLength")
  else none

/-- Runs one instruction of the current thread as part of a transition. -/
def advance (steps : Nat) : Action (Nat ⊕ TransitionEnd) := do
  let escaped ← step (← get).current
  let m ← get
  if escaped then
    if !m.kernel.runnable.isEmpty then set (m.register (m.kernel.threadChoice "uncaught"))
    pure (.inr .uncaughtException)
  else if m.pending.isSome then pure (.inr .choicePoint)
  else pure (.inl (steps + 1))

/-- One round of a transition. It carries the number of steps so far. -/
def round (steps : Nat) : Action (Nat ⊕ TransitionEnd) := do
  let m ← get
  let th ← Action.thread m.current
  if !th.isRunnable then
    match ← reschedule with
    | some e => pure (.inr e)
    | none => pure (.inl steps)
  else if m.isFresh then advance steps
  else
    let f ← Action.lift th.top
    let i ← Action.lift f.instruction
    match m.breakBefore steps f i with
    | some g =>
      set (m.register g)
      pure (.inr .choicePoint)
    | none => advance steps

/-- The number of rounds that suffices for a transition. One that is broken in time takes no more
than this; otherwise the budget decides. -/
def roundBound (m : Machine) : Nat :=
  if m.config.maxTransitionLength = 0 then m.config.stepBudget
  else 4 * m.config.maxTransitionLength + 4 * m.kernel.threads.size + 8

/-- The path with a choice taken. -/
def takeChoice (path : Path) (g : Generator) (c : Choice) : Path :=
  let path := { path with trail := path.trail.push (.of g c), uncaught := none }
  match c with
  | .thread t => { path with current := t }
  | data => { path with choice := some data }

/-- Runs from the current choice of a generator to where the transition stops. -/
def transition (g : Generator) : Action TransitionEnd := do
  let m ← get
  if !m.path.started then throw .notStarted
  match g.current with
  | none => throw (.noChoiceSelected g.id)
  | some c =>
    let m := { m with pending := none, path := takeChoice m.path g c }
    set m
    let _ ← Action.thread m.current
    let m := m.modifyScratch m.current fun s => { s with firstStep := true }
    set m
    Loop.run round .budgetExhausted m.roundBound 0

/-- Hands out the pending generator. -/
def takePending (m : Machine) : Option Generator × Machine :=
  (m.pending, { m with pending := none })

/-- A new object for a thread, made by the thread it is to stand for. -/
def newThreadObject : Action ObjRef := do
  let m ← get
  let c ← Action.lift (m.program.resolveClass Builtin.thread)
  let (r, heap) :=
    m.kernel.heap.allocInstance c.id c.instanceFields.length ⟨m.kernel.threads.size⟩
  set { m with kernel := { m.kernel with heap } }
  pure r

/-- Adds a thread that has one frame. -/
def spawn (f : Frame) : Action ThreadId := do
  let r ← newThreadObject
  let m ← get
  let (t, k) := m.kernel.addThread r
  set (m.withKernel (k.modifyThread t (·.pushFrame f)))
  pure t

/-- The main method of a class: one that takes an array of strings, or else one without
arguments. -/
def mainMethod (c : Class) : Except Fault Method :=
  match (c.method? "main([Ljava/lang/String;)V").orElse fun _ => c.method? "main()V" with
  | some m => .ok m
  | none => .error (.noSuchMethod (c.name ++ ".main"))

/-- Makes the main thread and opens the first choice, which has just that thread. -/
def start (className : String) : Action Unit := do
  let m ← get
  if m.path.started then throw .alreadyStarted
  let c ← Action.lift (m.program.resolveClass className)
  let main ← Action.lift (mainMethod c)
  let stub ← Action.lift (main.directCallStub "[main]" m.program.stamp)
  let frame := Frame.enter stub .null
  let t ← spawn (if main.arity = 1 then frame.pushed 0 else frame)
  modify fun m =>
    let m := { m with
      path := { m.path with current := t, started := true }
      queue := m.queue.push (.threadStarted t) }
    m.deliver.register (.ofThreads "root" [t])

end Interleave.Machine

import Interleave.Kernel

/-!
# Steps

A step runs one instruction of one thread. It is a computation on `Work`: the kernel, the data
choice that waits to be consumed, and the generator it may leave behind, together with what it
reports, which are events and transient data that no step reads.

A fault ends the step and leaves the work as it was at that moment.
-/

namespace Interleave

/-- Something that happened during a step. -/
inductive Event where
  | methodEntered (thread : ThreadId) (method : Method)
  | methodExited (thread : ThreadId) (method : Method)
  | objectLocked (thread : ThreadId) (object : ObjRef)
  | objectUnlocked (thread : ThreadId) (object : ObjRef)
  | threadStarted (thread : ThreadId)
  | threadTerminated (thread : ThreadId)
  | exceptionThrown (thread : ThreadId) (exception : ObjRef)
deriving Inhabited

/-- An exception that nothing on its thread handled. -/
structure Uncaught where
  thread : ThreadId
  exception : ObjRef
  /-- The name of its class. -/
  className : String
  message : Option String
deriving DecidableEq, Repr, Inhabited

/-- The name of the class of an uncaught exception in source text. -/
def Uncaught.sourceName (u : Uncaught) : String := Descriptor.dots u.className.toList

/-- A description of an uncaught exception. -/
def Uncaught.text (u : Uncaught) : String :=
  u.sourceName ++ " in " ++ u.thread.text ++ (u.message.map (": " ++ ·)).getD ""

/-- Where control goes after an instruction. -/
inductive Flow where
  /-- To the instruction at an index of the same frame. -/
  | goto (index : Nat)
  /-- Into a frame that was pushed. -/
  | called
  /-- Back to a frame that has been positioned. -/
  | returned
  /-- To the same instruction again: it is blocked, has pushed an initializer, or waits for a
  choice. -/
  | again
  /-- To a handler of this exception. -/
  | raise (exception : ObjRef)
  /-- Nowhere: the thread has no frame left. -/
  | finish
deriving DecidableEq, Repr, Inhabited

/-- What a step works on. -/
structure Work where
  /-- The state of the program. -/
  kernel : Kernel
  /-- The data choice that waits to be consumed. -/
  choice : Option Choice := none
  /-- The generator that the step leaves behind. -/
  pending : Option Generator := none
  /-- What happened, in order. -/
  events : Array Event := #[]
  /-- What the step called and gave back. -/
  transient : Transient := {}
deriving Inhabited

/-- A computation on the work of a step. -/
abbrev Step := EStateM Fault Work

namespace Step

/-- The outcome of a computation that changes nothing. -/
def lift {α : Type} : Except Fault α → Step α
  | .ok a => pure a
  | .error e => throw e

/-- The state of the program. -/
def kernel : Step Kernel := return (← get).kernel

/-- Changes the state of the program. -/
def modifyKernel (f : Kernel → Kernel) : Step Unit :=
  modify fun w => { w with kernel := f w.kernel }

/-- Replaces the state of the program. -/
def setKernel (k : Kernel) : Step Unit := modifyKernel fun _ => k

/-- Reports an event. -/
def emit (e : Event) : Step Unit := modify fun w => { w with events := w.events.push e }

/-- Reports transient data. -/
def note (f : Transient → Transient) : Step Unit :=
  modify fun w => { w with transient := f w.transient }

/-- Changes a thread, which must be there. -/
def modifyThread (t : ThreadId) (f : Thread → Thread) : Step Unit := do
  let k ← kernel
  let _ ← lift (k.thread t)
  setKernel (k.modifyThread t f)

/-- The frame on top of a thread. -/
def frame (t : ThreadId) : Step Frame := do
  lift ((← kernel).topFrame t)

/-- Runs a computation on the frame on top of a thread. -/
def onFrame {α : Type} (t : ThreadId) (a : Frame.Action α) : Step α := do
  let f ← frame t
  match a f with
  | .ok v f' =>
    modifyKernel fun k => k.modifyThread t (·.setTop f')
    pure v
  | .error e f' =>
    modifyKernel fun k => k.modifyThread t (·.setTop f')
    throw e

/-- Pushes a frame. -/
def pushFrame (t : ThreadId) (f : Frame) : Step Unit := modifyThread t (·.pushFrame f)

/-- The object that a reference denotes. -/
def object (r : ObjRef) : Step Object := do
  lift ((← kernel).object r)

/-- Sets how far a class is initialized. -/
def setClassStatus (c : ClassId) (s : ClassStatus) : Step Unit := do
  setKernel (← lift ((← kernel).setClassStatus c s))

/-- Allocates an instance of a class, made by this thread. -/
def newInstance (p : Program) (t : ThreadId) (c : ClassId) : Step ObjRef := do
  match p.class? c with
  | none => throw (.noClassState c)
  | some k => modifyGet fun w =>
    let (r, kernel) := w.kernel.allocInstance c k.instanceFields.length t
    (r, { w with kernel })

/-- Allocates an array, made by this thread. -/
def newArray (t : ThreadId) (c : ClassId) (code : TypeCode) (length : Nat) : Step ObjRef :=
  modifyGet fun w =>
    let (r, kernel) := w.kernel.allocArray c code length t
    (r, { w with kernel })

/-- Acquires the monitor of an object; the answer is no if another thread owns it. -/
def lock (r : ObjRef) (t : ThreadId) : Step Bool := do
  match (← object r).monitor.lock t with
  | none => pure false
  | some m =>
    modifyKernel fun k => k.setMonitor r m
    pure true

/-- Releases the monitor of an object once, and if it is free then, lets the threads that wait for
it try again. The answer is no if this thread does not own it. -/
def unlock (r : ObjRef) (t : ThreadId) : Step Bool := do
  match (← object r).monitor.unlock t with
  | none => pure false
  | some m =>
    modifyKernel fun k => k.setMonitor r m
    if !m.isLocked then modifyKernel fun k => k.wakeBlockedOn r
    pure true

/-- Raises a new exception of a class. -/
def raise (p : Program) (t : ThreadId) (className : String) (message : Option String) :
    Step Flow := do
  let c ← lift (p.resolveClass className)
  let r ← newInstance p t c.id
  modifyKernel fun k => k.modifyObject r fun o => { o with detail := message }
  pure (.raise r)

/-- Records that a thread touches an object; one that another thread made is shared from then on. -/
def touch (t : ThreadId) (r : ObjRef) : Step Unit := do
  let o ← object r
  if o.creator ≠ t then modifyKernel fun k => k.markShared r

end Step

end Interleave

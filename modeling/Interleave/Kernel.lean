import Interleave.Heap
import Interleave.Program
import Interleave.Thread

/-!
# The kernel

The state of a running program: its heap, its threads, and how far its classes are initialized. This
is what a snapshot stores, and all that the next step of a thread depends on besides the program.

`Kernel.fingerprint` is the part of it by which states are told apart. It leaves nothing out but the
bodies of the methods in frames, which are named by their ids.
-/

namespace Interleave

/-- How far a class is initialized. -/
inductive ClassStatus where
  | uninitialized
  /-- The initializer runs on this thread. -/
  | initializing (thread : ThreadId)
  | initialized
deriving DecidableEq, Hashable, Repr, Inhabited

/-- The state of a class. -/
structure ClassState where
  /-- How far it is initialized. -/
  status : ClassStatus := .uninitialized
  /-- Its class object, which holds its static fields. -/
  object : ObjRef
deriving DecidableEq, Hashable, Repr, Inhabited

/-- The state of a running program. -/
structure Kernel where
  heap : Heap := {}
  /-- The threads, by number. -/
  threads : Array Thread := #[]
  /-- The states of the classes, by number. -/
  classes : Array ClassState := #[]
deriving Inhabited

namespace Kernel

/-- Allocates class objects for classes, one after another. -/
def allocClassObjects (classObject : ClassId) : List Class → Heap × Array ClassState →
    Heap × Array ClassState
  | [], s => s
  | c :: cs, (h, states) =>
    let (r, h) := h.allocClassObject classObject c.id c.staticFields.length
    allocClassObjects classObject cs (h, states.push { object := r })

/-- The state before anything has run: one class object for each class, in order. -/
def initial (p : Program) : Kernel :=
  let (heap, classes) :=
    allocClassObjects ((p.classId? Builtin.classObject).getD ⟨0⟩) p.classes.toList ({}, #[])
  { heap, classes }

/-! ## Threads -/

/-- The thread with a number. -/
def thread (k : Kernel) (t : ThreadId) : Except Fault Thread :=
  match k.threads[t.index]? with
  | some th => .ok th
  | none => .error (.noSuchThread t)

/-- Changes the thread with a number, if there is one. -/
def modifyThread (k : Kernel) (t : ThreadId) (f : Thread → Thread) : Kernel :=
  { k with threads := k.threads.modify t.index f }

/-- The frame on top of the thread with a number. -/
def topFrame (k : Kernel) (t : ThreadId) : Except Fault Frame :=
  match k.thread t with
  | .ok th => th.top
  | .error e => .error e

/-- Adds a thread without frames. -/
def addThread (k : Kernel) (object : ObjRef) : ThreadId × Kernel :=
  let id : ThreadId := ⟨k.threads.size⟩
  (id, { k with threads := k.threads.push { id, object } })

/-- Sets the status of a thread. -/
def setStatus (k : Kernel) (t : ThreadId) (s : ThreadStatus) : Kernel :=
  k.modifyThread t fun th => { th with status := s }

/-- The threads that can run, in order. -/
def runnable (k : Kernel) : List ThreadId :=
  (k.threads.toList.filter Thread.isRunnable).map Thread.id

/-- Can a thread other than this one run? -/
def hasOtherRunnable (k : Kernel) (t : ThreadId) : Bool :=
  k.threads.any fun th => th.id != t && th.isRunnable

/-- The number of threads that have not ended. -/
def aliveCount (k : Kernel) : Nat := (k.threads.toList.filter Thread.isAlive).length

/-- Has every thread ended? -/
def isEndState (k : Kernel) : Bool := !k.threads.isEmpty && k.aliveCount == 0

/-- Are there live threads, none of which can run? -/
def isDeadlocked (k : Kernel) : Bool := 0 < k.aliveCount && k.runnable.isEmpty

/-- The thread that an object stands for. -/
def threadOf? (k : Kernel) (object : ObjRef) : Option ThreadId :=
  (k.threads.find? (·.object == object)).map Thread.id

/-- Is a thread other than this one waiting for the monitor of an object? -/
def hasBlockedOn (k : Kernel) (r : ObjRef) (t : ThreadId) : Bool :=
  k.threads.any fun th => th.id != t && th.status == .blocked r

/-- Makes the threads with one status runnable. -/
def wake (k : Kernel) (s : ThreadStatus) : Kernel :=
  { k with
    threads := k.threads.map fun th =>
      if th.status = s then { th with status := .runnable } else th }

/-- How many threads have a status. -/
def countWaiting (k : Kernel) (s : ThreadStatus) : Nat :=
  (k.threads.toList.filter (·.status == s)).length

/-- Lets the threads that wait for a monitor try again. -/
def wakeBlockedOn (k : Kernel) (r : ObjRef) : Kernel := k.wake (.blocked r)

/-- Lets the threads that wait for the end of a thread go on. -/
def wakeJoiners (k : Kernel) (t : ThreadId) : Kernel := k.wake (.joining t)

/-! ## Classes -/

/-- The state of a class. -/
def classState (k : Kernel) (c : ClassId) : Except Fault ClassState :=
  match k.classes[c.index]? with
  | some s => .ok s
  | none => .error (.noClassState c)

/-- How far a class is initialized. -/
def classStatus (k : Kernel) (c : ClassId) : Except Fault ClassStatus :=
  (k.classState c).map ClassState.status

/-- Sets how far a class is initialized. -/
def setClassStatus (k : Kernel) (c : ClassId) (s : ClassStatus) : Except Fault Kernel :=
  if c.index < k.classes.size then
    .ok { k with classes := k.classes.modify c.index fun cs => { cs with status := s } }
  else .error (.noClassState c)

/-- The class object of a class. -/
def classObject (k : Kernel) (c : ClassId) : Except Fault ObjRef :=
  (k.classState c).map ClassState.object

/-! ## Objects and monitors -/

/-- The object that a reference denotes. -/
def object (k : Kernel) (r : ObjRef) : Except Fault Object :=
  match k.heap.get? r with
  | some o => .ok o
  | none => .error (.danglingReference r)

/-- Changes the object that a reference denotes, if there is one. -/
def modifyObject (k : Kernel) (r : ObjRef) (f : Object → Object) : Kernel :=
  { k with heap := k.heap.modify r f }

/-- Allocates an instance with this many fields. -/
def allocInstance (k : Kernel) (c : ClassId) (fields : Nat) (creator : ThreadId) :
    ObjRef × Kernel :=
  let (r, heap) := k.heap.allocInstance c fields creator
  (r, { k with heap })

/-- Allocates an array of this length. -/
def allocArray (k : Kernel) (c : ClassId) (code : TypeCode) (length : Nat) (creator : ThreadId) :
    ObjRef × Kernel :=
  let (r, heap) := k.heap.allocArray c code length creator
  (r, { k with heap })

/-- Can a thread acquire the monitor of an object? -/
def canLock (k : Kernel) (r : ObjRef) (t : ThreadId) : Except Fault Bool :=
  (k.object r).map (·.monitor.canLock t)

/-- The kernel with the monitor of an object replaced. -/
def setMonitor (k : Kernel) (r : ObjRef) (m : Monitor) : Kernel :=
  k.modifyObject r fun o => { o with monitor := m }

/-- Acquires the monitor of an object; none if another thread owns it. -/
def lock (k : Kernel) (r : ObjRef) (t : ThreadId) : Except Fault (Option Kernel) :=
  match k.object r with
  | .error e => .error e
  | .ok o => .ok ((o.monitor.lock t).map (k.setMonitor r))

/-- Releases the monitor of an object once; none if this thread does not own it. -/
def unlock (k : Kernel) (r : ObjRef) (t : ThreadId) : Except Fault (Option Kernel) :=
  match k.object r with
  | .error e => .error e
  | .ok o => .ok ((o.monitor.unlock t).map (k.setMonitor r))

/-- Does anybody own the monitor of an object? -/
def isLocked (k : Kernel) (r : ObjRef) : Bool := (k.heap.get? r).any (·.monitor.isLocked)

/-- Records that other threads may reach an object. -/
def markShared (k : Kernel) (r : ObjRef) : Kernel :=
  k.modifyObject r fun o => { o with shared := true }

/-! ## Telling states apart -/

/-- What tells two states apart. -/
structure Fingerprint where
  heap : Heap
  threads : Array Thread.View
  classes : Array ClassState
deriving DecidableEq, Hashable, Repr

/-- The part of a state by which it is told from others. -/
def fingerprint (k : Kernel) : Fingerprint :=
  { heap := k.heap, threads := k.threads.map Thread.view, classes := k.classes }

end Kernel

end Interleave

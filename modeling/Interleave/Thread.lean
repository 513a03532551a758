import Interleave.Frame

/-!
# Threads

A thread has a status, a stack of frames and the object by which the program knows it. Beside it
goes scratch data: where it continues after its last step, whether its next scheduling point has
been taken already, and what its last step called. Scratch data is written for those who watch; what
a thread does next depends on the thread alone, so the two are kept apart.
-/

namespace Interleave

/-- Whether a thread can run, and if not, what it waits for. -/
inductive ThreadStatus where
  | runnable
  /-- Waits for the monitor of an object. -/
  | blocked (on : ObjRef)
  /-- Waits for a thread to end. -/
  | joining (thread : ThreadId)
  | terminated
deriving DecidableEq, Hashable, Repr, Inhabited

/-- A status with the kinds of its parts spelled out. -/
def ThreadStatus.longText : ThreadStatus → String
  | runnable => "Runnable"
  | blocked r => "Blocked(" ++ r.longText ++ ")"
  | joining t => "Joining(" ++ t.longText ++ ")"
  | terminated => "Terminated"

/-- A thread. -/
structure Thread where
  id : ThreadId
  /-- Whether it can run. -/
  status : ThreadStatus := .runnable
  /-- Its frames, the top one first. -/
  frames : List Frame := []
  /-- The object that stands for it. -/
  object : ObjRef
deriving Inhabited

namespace Thread

/-- Can it run? -/
def isRunnable (t : Thread) : Bool := t.status == .runnable

/-- Has it ended? -/
def isTerminated (t : Thread) : Bool := t.status == .terminated

/-- Has it not ended yet? -/
def isAlive (t : Thread) : Bool := !t.isTerminated

/-- The number of frames. -/
def depth (t : Thread) : Nat := t.frames.length

/-- Are there no more frames than this? Looks at no more frames than that. -/
def hasAtMost (t : Thread) (depth : Nat) : Bool := (t.frames.drop depth).isEmpty

/-- The frames are counted without looking at all of them. -/
theorem hasAtMost_iff {t : Thread} {n : Nat} : t.hasAtMost n = true ↔ t.depth ≤ n := by
  simp [hasAtMost, depth, List.isEmpty_iff, List.drop_eq_nil_iff]

/-- Is there exactly one frame? -/
def isAtBottom (t : Thread) : Bool :=
  match t.frames with
  | [_] => true
  | _ => false

/-- The thread after its end. -/
def terminate (t : Thread) : Thread := { t with status := .terminated, frames := [] }

/-- The thread with one more frame. -/
def pushFrame (t : Thread) (f : Frame) : Thread := { t with frames := f :: t.frames }

/-- The frame on top, which must be there. -/
def top (t : Thread) : Except Fault Frame :=
  match t.frames with
  | f :: _ => .ok f
  | [] => .error (.noActiveFrame t.id)

/-- The thread with another frame on top. -/
def setTop (t : Thread) (f : Frame) : Thread := { t with frames := f :: t.frames.tail }

/-- Only the frames up to this depth. -/
def dropTo (t : Thread) (depth : Nat) : Thread :=
  { t with frames := t.frames.drop (t.frames.length - depth) }

/-- The topmost frame at a place, leaving the first `skip` frames out. -/
def frameAt? (t : Thread) (p : ProgramPoint) (skip : Nat) : Option Frame :=
  (t.frames.drop skip).find? (·.isAt p)

/-- Is the method the body that the thread was started for? It runs right above the stub at the
bottom of the stack. -/
def isEntry (t : Thread) (m : Method) : Bool :=
  m.uniqueName == "run()V" &&
    match t.frames.reverse with
    | stub :: entry :: _ =>
      stub.method.isDirectCallStub && stub.method.name == "[run]" && entry.method.id == m.id
    | _ => false

/-- What tells two threads apart. -/
structure View where
  id : ThreadId
  /-- Whether it can run. -/
  status : ThreadStatus
  frames : List Frame.View
  /-- The object that stands for it. -/
  object : ObjRef
deriving DecidableEq, Hashable, Repr

/-- The view of a thread. -/
def view (t : Thread) : View :=
  { id := t.id, status := t.status, frames := t.frames.map Frame.view, object := t.object }

end Thread

/-- What the last step of a thread called and gave back. -/
structure Transient where
  /-- The method that was called. -/
  callee : Option MethodId := none
  /-- The receiver of the call, or the object that the thread waits for. -/
  receiver : ObjRef := .null
  /-- The slots left by a stub that returned. -/
  result : Option (List Slot) := none
deriving DecidableEq, Repr, Inhabited

/-- The scratch data of a thread. -/
structure Scratch where
  /-- Where it continues after its last step. -/
  next : Option ProgramPoint := none
  /-- Has the scheduling point of its next instruction been taken? -/
  firstStep : Bool := true
  /-- What its last step did. -/
  transient : Transient := {}
deriving DecidableEq, Repr, Inhabited

/-- Is an instruction done with, as far as this thread is concerned? It is not while the thread
continues there or returns there later. -/
def Instruction.isCompleted (i : Instruction) (t : Thread) (s : Scratch) : Bool :=
  match s.next with
  | none => t.isTerminated
  | some p => p != i.point && (t.frameAt? i.point 1).isNone

end Interleave

import Interleave.Step.Call

/-!
# Scheduling relevance

Before which instructions another thread has to be considered. An instruction is relevant if another
thread can run and could observe its effect or be affected by it: it takes a monitor or hands one
on, touches shared memory, or is the beginning or the end of a thread. Leaving a relevant
instruction out would hide interleavings; taking an irrelevant one in would only multiply states.
-/

namespace Interleave

namespace Relevance

/-- Is an object seen by other threads, or made by one? -/
def isForeign (k : Kernel) (t : ThreadId) (r : Except Fault ObjRef) : Bool :=
  match r with
  | .error _ => false
  | .ok r => (k.heap.get? r).any fun o => o.shared || o.creator != t

/-- Does the operand name a volatile instance field? -/
def isVolatileField (p : Program) (i : Instruction) : Bool :=
  match i.fieldRef with
  | .error _ => false
  | .ok r =>
    ((p.classId? r.className).bind fun c => p.instanceField? c r.name).any
      (·.modifiers.isVolatile)

/-- How far below the value to store the object of a field store is, by the descriptor named. -/
def storeDepth (i : Instruction) : Nat :=
  match i.fieldRef with
  | .error _ => 1
  | .ok r =>
    match Descriptor.check r.descriptor with
    | .error _ => 1
    | .ok code => code.slotSize

/-- Could another thread observe the instruction, given the frame it runs in? -/
def isObservable (p : Program) (k : Kernel) (t : ThreadId) (th : Thread) (f : Frame)
    (i : Instruction) : Bool :=
  match i.op with
  | .monitorEnter => true
  | .monitorExit =>
    match f.peekRef 0 with
    | .error _ => false
    | .ok r => k.hasBlockedOn r t
  | .getField => isVolatileField p i || isForeign k t (f.peekRef 0)
  | .putField => isVolatileField p i || isForeign k t (f.peekRef (storeDepth i))
  | .iALoad | .aALoad => isForeign k t (f.peekRef 1)
  | .iAStore | .aAStore => isForeign k t (f.peekRef 2)
  | .getStatic | .putStatic => true
  | .invokeVirtual | .invokeSpecial | .invokeStatic =>
    match p.callTarget k f i with
    | .ok (some m) => m.isSynchronized && m.isSyncRelevant
    | _ => false
  | .threadStart | .threadJoin | .threadYield => true
  | .voidReturn | .iReturn | .lReturn | .dReturn | .aReturn | .directCallReturn => th.isAtBottom
  | _ => false

/-- Does the scheduler have to consider other threads before this one runs the instruction? -/
def isRelevant (p : Program) (k : Kernel) (t : ThreadId) (i : Instruction) : Bool :=
  k.hasOtherRunnable t &&
    match k.thread t with
    | .error _ => false
    | .ok th =>
      match th.top with
      | .error _ => false
      | .ok f => !f.method.attributes.atomic && isObservable p k t th f i

/-- The name of a scheduling point before an instruction. -/
def pointName : Opcode → String
  | .monitorEnter => "monitorEnter"
  | .monitorExit => "monitorExit"
  | .getField | .putField | .iALoad | .aALoad | .iAStore | .aAStore => "sharedFieldAccess"
  | .getStatic | .putStatic => "staticFieldAccess"
  | .invokeVirtual | .invokeSpecial | .invokeStatic => "syncMethodEnter"
  | .threadStart => "threadStart"
  | .threadJoin => "threadJoin"
  | .threadYield => "threadYield"
  | _ => "threadTerminate"

end Relevance

/-- A choice among the threads that can run. -/
def Kernel.threadChoice (k : Kernel) (id : String) : Generator := .ofThreads id k.runnable

end Interleave

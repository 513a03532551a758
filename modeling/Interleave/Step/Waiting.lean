import Interleave.Step.Call

/-!
# Monitors and threads

The instructions by which threads wait for each other: taking and giving back a monitor, starting a
thread and waiting for its end. A thread that has to wait leaves its operand on the stack, and runs
the same instruction again once it is woken.
-/

namespace Interleave

namespace Waiting

/-- Takes a monitor. -/
def monitorEnter (p : Program) (t : ThreadId) (i : Instruction) : Step Flow := do
  let r ← Step.lift ((← Step.frame t).peekRef 0)
  if r.isNull then
    let _ ← Step.onFrame t Frame.pop
    return ← Step.raise p t Builtin.nullPointer (some "monitorenter on null")
  if ← Step.lock r t then
    let _ ← Step.onFrame t Frame.pop
    Step.emit (.objectLocked t r)
    return .goto i.nextIndex
  else
    Step.modifyThread t fun th => { th with status := .blocked r }
    return .again

/-- Gives back a monitor. -/
def monitorExit (p : Program) (t : ThreadId) (i : Instruction) : Step Flow := do
  let r ← Step.onFrame t Frame.popRef
  if r.isNull then
    return ← Step.raise p t Builtin.nullPointer (some "monitorexit on null")
  if ← Step.unlock r t then
    Step.emit (.objectUnlocked t r)
    return .goto i.nextIndex
  else
    Step.raise p t Builtin.illegalMonitorState none

/-- Starts a thread for an object. Its bottom frame is a stub that calls the body of the object. -/
def threadStart (p : Program) (t : ThreadId) (i : Instruction) : Step Flow := do
  let r ← Step.onFrame t Frame.popRef
  if r.isNull then
    return ← Step.raise p t Builtin.nullPointer (some "starting null thread")
  if ((← Step.kernel).threadOf? r).isSome then
    return ← Step.raise p t Builtin.illegalThreadState (some "thread already started")
  let o ← Step.object r
  match p.findMethod? o.classId "run()V" with
  | none => throw (.noSuchMethod ("run()V of thread object " ++ r.longText))
  | some run =>
    let stub ← Step.lift (run.directCallStub "[run]" p.stamp)
    let (started, k) := (← Step.kernel).addThread r
    Step.setKernel (k.markShared r)
    Step.pushFrame started ((Frame.enter stub r).pushed r.toSlot)
    Step.emit (.threadStarted started)
    return .goto i.nextIndex

/-- Waits for the thread of an object to end; a thread that was never started is not waited for. -/
def threadJoin (p : Program) (t : ThreadId) (i : Instruction) : Step Flow := do
  let r ← Step.lift ((← Step.frame t).peekRef 0)
  if r.isNull then
    let _ ← Step.onFrame t Frame.pop
    return ← Step.raise p t Builtin.nullPointer (some "joining null thread")
  let k ← Step.kernel
  if let some u := k.threadOf? r then
    let other ← Step.lift (k.thread u)
    if other.isAlive then
      Step.modifyThread t fun th => { th with status := .joining u }
      return .again
  let _ ← Step.onFrame t Frame.pop
  return .goto i.nextIndex

end Waiting

end Interleave

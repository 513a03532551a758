import Interleave.Machine.Transition

/-!
# Access from outside

A machine can also be driven without a search: threads that the scheduler knows nothing of, objects
made by hand, methods entered and left one at a time, and whole calls that run to their end. Such a
call goes through a stub on top of a thread; it fails if it would need a decision of the scheduler
or if an exception leaves it, and in any case takes away the frames that it added.
-/

namespace Interleave.Machine

/-- The method at the bottom of a thread that is driven from outside. -/
def hostMethod : Method := .make none "[host]" "()V" 0 0 .static

/-- Adds a thread that is driven from outside. -/
def attach : Action ThreadId := spawn (Frame.enter hostMethod .null)

/-- Pushes a slot on top of the operand stack of a thread. -/
def pushOperand (t : ThreadId) (v : Slot) : Action Unit := do
  let _ ← Action.lift ((← get).kernel.topFrame t)
  modify fun m => { m with
    kernel := m.kernel.modifyThread t fun th =>
      { th with frames := th.frames.modifyHead (·.pushed v) } }

/-- Makes an instance of a class in the name of a thread, without running a constructor. -/
def newObject (t : ThreadId) (className : String) : Action ObjRef := do
  let p := (← get).program
  let c ← Action.lift (p.resolveClass className)
  Action.step t (Step.newInstance p t c.id)

/-- Enters a method whose arguments are on the operand stack. -/
def enterMethod (t : ThreadId) (method : Method) : Action Entry := do
  let e ← Action.step t (Call.enter t method)
  modify deliver
  pure e

/-- Leaves the method on top. -/
def leaveMethod (t : ThreadId) : Action Unit := do
  let _ ← Action.step t (Call.leave t)
  modify deliver

/-- Could a thread enter a method right now without being blocked? -/
def canEnter (k : Kernel) (t : ThreadId) (method : Method) : Except Fault Bool := do
  if !method.isSynchronized then .ok true
  else
    let receiver ←
      if method.isStatic then .ok ObjRef.null
      else (← k.topFrame t).peekRef (method.argSlots - 1)
    let target ← k.lockTarget method receiver
    k.canLock target t

/-- One round of a call from outside. -/
def hostRound (t : ThreadId) (base : Nat) : Unit → Action (Unit ⊕ List Slot)
  | () => do
    let th ← Action.thread t
    if !th.isRunnable || (← get).pending.isSome then
      modify fun m => { m with pending := none }
      throw (.hostCallSuspended t)
    let _ ← step t
    match (← get).hostEscape with
    | some r =>
      modify fun m => { m with hostEscape := none }
      throw (.unhandledException r.sourceName r.message)
    | none =>
      let th ← Action.thread t
      if th.hasAtMost base then
        return .inr (((← get).scratchOf t).transient.result.getD [])
      return .inl ()

/-- Runs a stub to its end and gives the slots it left. -/
def runStub (t : ThreadId) (stub : Method) (args : List Slot) : Action (List Slot) := do
  let th ← Action.thread t
  let frame := { Frame.enter stub .null with operands := args.reverse }
  let m ← get
  let outer := m.hostCall
  set { m with
    kernel := m.kernel.modifyThread t (·.pushFrame frame), hostCall := some (t, th.depth) }
  fun m =>
    match Loop.run (hostRound t th.depth) .budgetExhausted m.config.stepBudget () m with
    | .ok slots m => .ok slots { m with hostCall := outer }
    | .error e m =>
      .error e { m with
        hostCall := outer, kernel := m.kernel.modifyThread t (·.dropTo th.depth) }

/-- Calls a method and gives the slots it left. -/
def callDirect (t : ThreadId) (method : Method) (args : List Slot) : Action (List Slot) := do
  let stub ← Action.lift (method.directCallStub "[direct]" (← get).program.stamp)
  runStub t stub args

/-- Calls a method through a stub for reflective calls. -/
def callReflective (t : ThreadId) (method : Method) (args : List Slot) : Action (List Slot) := do
  let stub ← Action.lift (method.reflectiveCallStub (← get).program.stamp)
  runStub t stub args

end Interleave.Machine

import Interleave.Step.Local

/-!
# Calls

A call moves its arguments from the operand stack of the caller into the locals of a new frame. The
caller stays on the call until the callee returns, and then goes on behind it. A synchronized method
takes a monitor on entry and gives it back on exit; a thread that cannot have the monitor is blocked
and tries the same call again later.

Classes are initialized on first use. The initializer runs through a stub on top of the instruction
that needs it, which then runs again. The stub itself leaves its caller where it is.
-/

namespace Interleave

/-- What came of an attempt to enter a method. -/
inductive Entry where
  | entered
  /-- Another thread owns the monitor of this object. -/
  | blocked (on : ObjRef)
deriving DecidableEq, Repr, Inhabited

/-- The object whose monitor a synchronized method takes: the class object for a static method, else
the receiver. -/
def Kernel.lockTarget (k : Kernel) (m : Method) (receiver : ObjRef) : Except Fault ObjRef :=
  if m.isStatic then
    match m.classId? with
    | none => .error (.noSuchClass m.fullName)
    | some c => k.classObject c
  else .ok receiver

/-- The method that a call lands in. A virtual call looks at the class of the receiver; there is
none if the receiver is null. -/
def Program.callTarget (p : Program) (k : Kernel) (f : Frame) (i : Instruction) :
    Except Fault (Option Method) := do
  let declared ← p.resolveMethod (← i.methodRef)
  if declared.isStatic then .ok (some declared)
  else
    let receiver ← f.peekRef (declared.argSlots - 1)
    if receiver.isNull then .ok none
    else if i.op ≠ .invokeVirtual then .ok (some declared)
    else
      let o ← k.object receiver
      .ok (some ((p.findMethod? o.classId declared.uniqueName).getD declared))

namespace Call

/-- The receiver of a method whose arguments are on the operand stack; null for a static method. -/
def receiver (t : ThreadId) (m : Method) : Step ObjRef :=
  if m.isStatic then pure .null
  else do Step.lift ((← Step.frame t).peekRef (m.argSlots - 1))

/-- Takes the monitor that a method holds while it runs, if it holds one. The answer is the object
whose monitor is not to be had, if that is so. -/
def acquire (t : ThreadId) (m : Method) (receiver : ObjRef) : Step (Option ObjRef) := do
  if !m.isSynchronized then return none
  let target ← Step.lift ((← Step.kernel).lockTarget m receiver)
  if !(← Step.lock target t) then return some target
  Step.emit (.objectLocked t target)
  if m.attributes.isClassInit then
    if let some c := m.classId? then Step.setClassStatus c (.initializing t)
  return none

/-- Moves the arguments of a method from the operand stack into a new frame. -/
def moveIn (t : ThreadId) (m : Method) (receiver : ObjRef) : Step Unit := do
  let args ← Step.onFrame t (Frame.popSlots m.argSlots)
  let locals := args.toArray ++ Array.replicate (m.maxLocals - args.length) 0
  Step.note fun n => { n with receiver }
  Step.pushFrame t { Frame.enter m receiver with locals }
  Step.emit (.methodEntered t m)

/-- Tries to enter a method whose arguments are on the operand stack. If the monitor is not to be
had, the thread is marked as blocked and nothing else changes. -/
def enter (t : ThreadId) (m : Method) : Step Entry := do
  let receiver ← receiver t m
  match ← acquire t m receiver with
  | some target =>
    Step.modifyThread t fun th => { th with status := .blocked target }
    Step.note fun n => { n with receiver := target }
    pure (.blocked target)
  | none =>
    moveIn t m receiver
    pure .entered

/-- Gives back the monitor of a method that is left, unless it has been given back already. -/
def releaseMonitor (t : ThreadId) (f : Frame) : Step Unit := do
  let target ← Step.lift ((← Step.kernel).lockTarget f.method f.receiver)
  let o ← Step.object target
  if o.monitor.isLockedBy t then
    let _ ← Step.unlock target t
    Step.emit (.objectUnlocked t target)

/-- Records that a method has been left. A class counts as initialized once the monitor of its
initializer has been given back. -/
def recordExit (t : ThreadId) (m : Method) : Step Unit := do
  if m.attributes.isClassInit then
    if let some c := m.classId? then Step.setClassStatus c .initialized
  if !m.isMachineOwned then Step.emit (.methodExited t m)

/-- Leaves the method on top of a thread. -/
def leave (t : ThreadId) : Step Frame := do
  let th ← Step.lift ((← Step.kernel).thread t)
  match th.frames with
  | [] => throw (.noActiveFrame t)
  | f :: rest =>
    Step.modifyKernel fun k => k.modifyThread t fun th => { th with frames := rest }
    if f.method.isSynchronized then releaseMonitor t f
    recordExit t f.method
    pure f

/-- Makes sure that some classes are initialized, one after another. Classes without an initializer
just become initialized; for the first one with an initializer a stub is pushed, and the answer is
yes. -/
def initialize? (p : Program) (t : ThreadId) : List ClassId → Step Bool
  | [] => pure false
  | c :: cs => do
    let status ← Step.lift ((← Step.kernel).classStatus c)
    if status = .initialized ∨ status = .initializing t then initialize? p t cs
    else
      match (p.class? c).bind Class.classInit? with
      | none =>
        Step.setClassStatus c .initialized
        initialize? p t cs
      | some m =>
        let stub ← Step.lift (m.directCallStub "[clinit]" p.stamp)
        Step.pushFrame t (Frame.enter stub .null)
        pure true

/-- Makes sure that a class is initialized, its superclasses first. -/
def initializeClass? (p : Program) (t : ThreadId) (c : ClassId) : Step Bool :=
  initialize? p t (p.chain c).reverse

/-- The flow after an attempt to enter a method. -/
def enterFlow (t : ThreadId) (m : Method) : Step Flow := do
  match ← enter t m with
  | .entered => pure .called
  | .blocked _ => pure .again

/-- Runs the initializer of a class, if it has not been run; this is what a stub does. -/
def invokeClassInit (p : Program) (t : ThreadId) (i : Instruction) : Step Flow := do
  let c ← Step.lift (p.resolveClass (← Step.lift i.className))
  let status ← Step.lift ((← Step.kernel).classStatus c.id)
  if status = .initialized ∨ status = .initializing t then return .goto i.nextIndex
  if let some s := c.superclass then
    if ← initializeClass? p t s then return .again
  match c.classInit? with
  | none =>
    Step.setClassStatus c.id .initialized
    return .goto i.nextIndex
  | some m => enterFlow t m

/-! ## Sources of values -/

/-- The values that a source may return, given the arguments of its call on the operand stack. -/
def sourceDomain (m : Method) (s : ValueSource) (f : Frame) : Except Fault Domain :=
  match m.choiceKind with
  | .bool => .ok .bool
  | .int =>
    match m.argCodes with
    | [.int, .int] => do
      let lo ← f.peekInt 1
      let hi ← f.peekInt 0
      .ok (.ints lo hi)
    | _ => .error (.malformedSource m.fullName)
  | .long =>
    match m.argCodes with
    | [.long, .long] => do
      let lo ← f.peek 3
      let hi ← f.peek 1
      .ok (.longs (Slot.toLong lo) (Slot.toLong hi))
    | _ => .error (.malformedSource m.fullName)
  | .float => .ok (.floats s.floats)
  | .double => .ok (.doubles s.doubles)
  | .reference =>
    if m.resultCode = .void ∨ !m.argCodes.all TypeCode.isReference then
      .error (.malformedSource m.fullName)
    else do
      let refs ← (List.range m.arity).reverse.mapM f.peekRef
      .ok (.references refs)
  | .threads => .error (.malformedSource m.fullName)

/-- Calls a native method. A source first leaves a generator behind and has the call run again; then
it consumes the choice that was made. Any other native method is an error of the program. -/
def invokeNative (p : Program) (t : ThreadId) (i : Instruction) (m : Method) : Step Flow := do
  match m.source? with
  | none => Step.raise p t Builtin.unsatisfiedLink (some m.fullName)
  | some s =>
    match (← get).choice with
    | some c =>
      modify fun w => { w with choice := none }
      Step.onFrame t do
        let _ ← Frame.popSlots m.argSlots
        if 0 < m.resultSlots then
          modify fun f => { f with operands := c.toSlots.reverse ++ f.operands }
      pure (.goto i.nextIndex)
    | none =>
      let domain ← Step.lift (sourceDomain m s (← Step.frame t))
      modify fun w => { w with pending := some { id := "nondet." ++ m.name, domain } }
      pure .again

/-! ## Calling and returning -/

/-- Calls the method that the operand names. -/
def invoke (p : Program) (t : ThreadId) (i : Instruction) : Step Flow := do
  if i.op = .invokeStatic then
    let r ← Step.lift i.methodRef
    let c ← Step.lift (p.resolveClass r.className)
    if ← initializeClass? p t c.id then return .again
  let f ← Step.frame t
  match ← Step.lift (p.callTarget (← Step.kernel) f i) with
  | none =>
    let r ← Step.lift i.methodRef
    Step.raise p t Builtin.nullPointer (some ("invoking " ++ r.name ++ " on null"))
  | some m =>
    Step.note fun n => { n with callee := some m.id }
    if m.isAbstract then Step.raise p t Builtin.abstractMethod (some m.fullName)
    else if m.isNative then invokeNative p t i m
    else enterFlow t m

/-- The number of slots that a return hands to the caller. -/
def returnSlots : Opcode → Nat
  | .voidReturn => 0
  | .lReturn | .dReturn => 2
  | _ => 1

/-- Returns to the caller, which goes on behind its call. -/
def doReturn (t : ThreadId) (i : Instruction) : Step Flow := do
  let result ← Step.onFrame t (Frame.popSlots (returnSlots i.op))
  let _ ← leave t
  let th ← Step.lift ((← Step.kernel).thread t)
  match th.frames with
  | [] => pure .finish
  | _ :: _ =>
    Step.onFrame t (modify fun f =>
      { f with operands := result.reverse ++ f.operands, pc := f.pc + 1 })
    pure .returned

/-- Leaves a stub, whose operand stack is the result of the call. -/
def stubReturn (t : ThreadId) : Step Flow := do
  let f ← leave t
  Step.note fun n => { n with result := some f.operands.reverse }
  let th ← Step.lift ((← Step.kernel).thread t)
  pure (if th.frames.isEmpty then .finish else .returned)

end Call

end Interleave

import Interleave.Step.Call

/-!
# Exceptions

An exception is handled by the topmost frame that has a handler for it at its current instruction.
The frames above are left one after another, and give back their monitors. Handlers are tried in the
order of their declaration. An exception that leaves a firewall or the bottom of the stack goes no
further: it escapes.
-/

namespace Interleave

/-- What came of an exception. -/
inductive Unwound where
  /-- A frame is positioned on its handler. -/
  | handled
  /-- Nothing handled it. -/
  | escaped (record : Uncaught)
deriving DecidableEq, Repr

namespace Unwound

/-- The record of an exception that escapes a thread. -/
def record (p : Program) (t : ThreadId) (r : ObjRef) (o : Object) : Uncaught :=
  { thread := t, exception := r,
    className := ((p.class? o.classId).map Class.name).getD Builtin.throwable,
    message := o.detail }

/-- The handler of a frame for an exception of a class, at the current instruction. -/
def handlerFor (p : Program) (c : ClassId) (f : Frame) : Except Fault (Option ExceptionHandler) :=
  match f.instruction with
  | .error e => .error e
  | .ok i => .ok (f.method.findHandler i.position (p.isSubclassOfNamed c))

/-- Looks for a handler in these frames, which are those of the thread. -/
def search (p : Program) (t : ThreadId) (r : ObjRef) (c : ClassId) : List Frame → Step Unwound
  | [] => throw (.noActiveFrame t)
  | f :: rest => do
    match ← Step.lift (handlerFor p c f) with
    | some h =>
      let target ← Step.lift (f.method.instructionAt h.handlerPc)
      Step.onFrame t (modify fun f => { f with operands := [r.toSlot], pc := target.index })
      pure .handled
    | none =>
      let _ ← Call.leave t
      if f.method.attributes.firewall || rest.isEmpty then
        pure (.escaped (record p t r (← Step.object r)))
      else search p t r c rest

/-- Dispatches an exception. -/
def unwind (p : Program) (t : ThreadId) (r : ObjRef) : Step Unwound := do
  Step.emit (.exceptionThrown t r)
  let o ← Step.object r
  let th ← Step.lift ((← Step.kernel).thread t)
  search p t r o.classId th.frames

end Unwound

end Interleave

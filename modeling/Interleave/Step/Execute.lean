import Interleave.Step.Memory
import Interleave.Step.Unwind
import Interleave.Step.Waiting

/-!
# One instruction

Running an instruction yields a flow, and carrying out the flow yields what became of the thread.
-/

namespace Interleave

/-- What became of a thread after a step. -/
inductive Outcome where
  | running
  /-- It has no frame left. -/
  | finished
  /-- An exception left a firewall or the bottom of the stack. -/
  | escaped (record : Uncaught)
deriving DecidableEq, Repr

namespace Step

/-- Runs an instruction on the frame on top of a thread. -/
def execute (p : Program) (t : ThreadId) (i : Instruction) : Step Flow :=
  match i.op with
  | .new => Memory.new p t i
  | .getField => Memory.getField p t i
  | .putField => Memory.putField p t i
  | .getStatic => Memory.getStatic p t i
  | .putStatic => Memory.putStatic p t i
  | .newArray | .aNewArray => Memory.newArray p t i
  | .arrayLength => Memory.arrayLength p t i
  | .iALoad | .aALoad => Memory.loadElement p t i
  | .iAStore | .aAStore => Memory.storeElement p t i
  | .invokeVirtual | .invokeSpecial | .invokeStatic => Call.invoke p t i
  | .invokeClinit => Call.invokeClassInit p t i
  | .directCallReturn => Call.stubReturn t
  | .voidReturn | .iReturn | .lReturn | .dReturn | .aReturn => Call.doReturn t i
  | .monitorEnter => Waiting.monitorEnter p t i
  | .monitorExit => Waiting.monitorExit p t i
  | .threadStart => Waiting.threadStart p t i
  | .threadJoin => Waiting.threadJoin p t i
  | _ => Local.run p t i

/-- Carries out a flow. -/
def follow (p : Program) (t : ThreadId) : Flow → Step Outcome
  | .goto index => do
    onFrame t (modify fun f => { f with pc := index })
    pure .running
  | .called | .returned | .again => pure .running
  | .raise r => do
    match ← Unwound.unwind p t r with
    | .handled => pure .running
    | .escaped record => pure (.escaped record)
  | .finish => pure .finished

/-- Runs an instruction and carries out where it goes. -/
def perform (p : Program) (t : ThreadId) (i : Instruction) : Step Outcome := do
  follow p t (← execute p t i)

end Step

end Interleave

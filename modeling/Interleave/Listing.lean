import Interleave.Hex
import Interleave.Search.Basic

/-!
# Listings

The short texts in which choices, states and instructions are shown, each on one line. Identifiers
appear as bare numbers, and floating-point values by their bits in hexadecimal, where all values
that are not a number look the same.
-/

namespace Interleave

/-! ## Choices -/

/-- The bits of a single-precision number in hexadecimal. -/
def singleBitsText (bits : UInt32) : String :=
  if (Float32.ofBits bits).isNaN then "nan" else hexText 8 bits.toNat

/-- The bits of a double-precision number in hexadecimal. -/
def doubleBitsText (bits : UInt64) : String :=
  if (Float.ofBits bits).isNaN then "nan" else hexText 16 bits.toNat

/-- The text of a boolean. -/
def boolText (b : Bool) : String := if b then "true" else "false"

/-- A name with an argument in parentheses. -/
def applied (name argument : String) : String := name ++ "(" ++ argument ++ ")"

/-- A choice, as in `Thread(1)`. -/
def Choice.text : Choice → String
  | thread t => applied "Thread" (toString t.index)
  | bool b => applied "Bool" (boolText b)
  | int v => applied "Int" (toString v.toInt)
  | long v => applied "Long" (toString v.toInt)
  | float bits => applied "Float" (singleBitsText bits)
  | double bits => applied "Double" (doubleBitsText bits)
  | reference r => applied "Reference" (toString r.index)

/-- A choice that was taken, with its position and the number of choices there were. -/
def ChoiceRecord.text (r : ChoiceRecord) : String :=
  r.generator ++ " " ++ r.choice.text ++ " " ++ toString r.index ++ "/" ++ toString r.total

/-! ## States -/

/-- A thread status, as in `Blocked(3)`. -/
def ThreadStatus.text : ThreadStatus → String
  | runnable => "Runnable"
  | blocked r => applied "Blocked" (toString r.index)
  | joining t => applied "Joining" (toString t.index)
  | terminated => "Terminated"

/-- A class status. -/
def ClassStatus.text : ClassStatus → String
  | uninitialized => "Uninitialized"
  | initializing t => applied "Initializing" (toString t.index)
  | initialized => "Initialized"

/-- The owner of a monitor and how often it holds it; none if nobody does. -/
def Monitor.text? (m : Monitor) : Option String :=
  m.owner?.map fun t => toString t.index ++ "x" ++ toString m.count

/-- What the slots of an object are. -/
def ObjectKind.text : ObjectKind → String
  | fields => "instance"
  | elements code => "array " ++ code.name
  | statics c => "class " ++ toString c.index

/-! ## Instructions -/

/-- An operand, as in `Local(1)`. -/
def Operand.text : Operand → String
  | none => "None"
  | int v => applied "Int" (toString v.toInt)
  | double bits => applied "Double" (doubleBitsText bits)
  | slot n => applied "Local" (toString n)
  | increment n d => applied "Iinc" (toString n ++ "," ++ toString d.toInt)
  | target t => applied "Target" (toString t)
  | typeCode c => applied "Type" c.name
  | className c => applied "Class" c
  | field f => applied "Field" (f.className ++ " " ++ f.name ++ " " ++ f.descriptor)
  | method m => applied "Method" (m.className ++ " " ++ m.uniqueName)
  | message s => applied "Message" s

/-- An instruction with its index, its position, and the number of its method; last comes the serial
number it carries, if any. -/
def Instruction.text (i : Instruction) : String :=
  toString i.index ++ "@" ++ toString i.position ++ " " ++ i.op.mnemonic ++ " " ++ i.operand.text
    ++ " m" ++ toString i.method.number
    ++ ((i.attachments.serial.map fun n => " #" ++ toString n.toNat).getD "")

/-! ## Notices -/

/-- What a notice is about. -/
inductive Topic where
  | executing
  | executed
  | method
  | thread
  | lock
  | exception
  | choice
deriving DecidableEq, Repr

/-- A digit for a boolean. -/
def flagText (b : Bool) : String := if b then "1" else "0"

/-- What an event is about, and its line. -/
def Event.entry : Event → Topic × String
  | methodEntered t m => (.method, "enter " ++ t.text ++ " " ++ m.fullName)
  | methodExited t m => (.method, "exit " ++ t.text ++ " " ++ m.fullName)
  | objectLocked t r => (.lock, "lock " ++ t.text ++ " " ++ toString r.index)
  | objectUnlocked t r => (.lock, "unlock " ++ t.text ++ " " ++ toString r.index)
  | threadStarted t => (.thread, "started " ++ t.text)
  | threadTerminated t => (.thread, "terminated " ++ t.text)
  | exceptionThrown t r => (.exception, "thrown " ++ t.text ++ " " ++ toString r.index)

/-- What a notice is about, and its line. -/
def Notice.entry : Notice → Topic × String
  | executing t m i line relevant entry =>
    (.executing, "exec " ++ t.text ++ " " ++ m.fullName ++ "@" ++ toString i.index ++ " "
      ++ i.op.mnemonic ++ " line=" ++ toString line ++ " rel=" ++ flagText relevant
      ++ " entry=" ++ flagText entry)
  | executed t i completed =>
    (.executed, "done " ++ t.text ++ " m" ++ toString i.method.number ++ "@" ++ toString i.index
      ++ " " ++ flagText completed)
  | event e => e.entry
  | registered g depth =>
    (.choice, "choice " ++ g.id ++ " " ++ toString g.total ++ " at " ++ toString depth)

/-- The line of a notice of a search. -/
def SearchNotice.text : SearchNotice → String
  | started depth => "started " ++ toString depth
  | advanced m =>
    "advanced " ++ toString m.depth ++ " heap=" ++ toString m.kernel.heap.size ++ " "
      ++ ((m.path.trail.back?.map ChoiceRecord.text).getD "")
  | backtracked depth n => "backtracked " ++ toString depth ++ " #" ++ toString n
  | restored depth n => "restored " ++ toString depth ++ " #" ++ toString n
  | violated depth v => "violated " ++ toString depth ++ " " ++ v.text
  | constraintHit depth c => "constraint " ++ toString depth ++ " " ++ c
  | finished n => "finished " ++ toString n

end Interleave

import Interleave.Method.Basic

/-!
# Frames

A frame is one activation of a method: where it is, its locals and its operand stack. Every slot has
64 bits. Longs and doubles take two slots, the value and a zero behind it.

The operations on a frame are computations that may fault; a fault leaves the frame as it was at
that moment, with whatever has been popped already gone.
-/

namespace Interleave

/-- An activation of a method. -/
structure Frame where
  method : Method
  /-- The index of the current instruction. -/
  pc : Nat := 0
  locals : Array Slot
  /-- The operand stack, its top first. -/
  operands : List Slot := []
  /-- The receiver of the call; null for a static method. -/
  receiver : ObjRef := .null
deriving Inhabited

namespace Frame

/-- A fresh activation. -/
def enter (m : Method) (receiver : ObjRef) : Frame :=
  { method := m, locals := .replicate m.maxLocals 0, receiver }

/-- The place of the current instruction. -/
def point (f : Frame) : ProgramPoint := ⟨f.method.id, f.pc⟩

/-- Is it at this place? -/
def isAt (f : Frame) (p : ProgramPoint) : Bool := f.pc == p.index && f.method.id == p.method

/-- The current instruction. -/
def instruction? (f : Frame) : Option Instruction := f.method.instruction? f.pc

/-- The current instruction, which must be there. -/
def instruction (f : Frame) : Except Fault Instruction :=
  match f.instruction? with
  | some i => .ok i
  | none => .error (.noInstruction f.method.fullName f.pc)

/-- The fault of an operand stack that is too short. -/
def underflow (f : Frame) : Fault := .stackUnderflow f.method.fullName

/-- The operand at a depth below the top. -/
def peek (f : Frame) (depth : Nat) : Except Fault Slot :=
  match f.operands[depth]? with
  | some v => .ok v
  | none => .error f.underflow

/-- The reference at a depth below the top. -/
def peekRef (f : Frame) (depth : Nat) : Except Fault ObjRef := (f.peek depth).map ObjRef.ofSlot

/-- The int at a depth below the top. -/
def peekInt (f : Frame) (depth : Nat) : Except Fault Int32 := (f.peek depth).map Slot.toInt

/-- The value of a local. -/
def local? (f : Frame) (slot : Nat) : Except Fault Slot :=
  match f.locals[slot]? with
  | some v => .ok v
  | none => .error (.localOutOfRange f.method.fullName slot)

/-- The frame with a value on top of its operand stack. -/
def pushed (f : Frame) (v : Slot) : Frame := { f with operands := v :: f.operands }

/-- A computation on a frame. -/
abbrev Action := EStateM Fault Frame

namespace Action

/-- The outcome of a computation that changes nothing. -/
def lift {α : Type} : Except Fault α → Action α
  | .ok a => pure a
  | .error e => throw e

end Action

/-- Pushes a slot. -/
def push (v : Slot) : Action Unit := modify (·.pushed v)

/-- Pops a slot. -/
def pop : Action Slot := do
  let f ← get
  match f.operands with
  | [] => throw f.underflow
  | v :: rest =>
    set { f with operands := rest }
    pure v

/-- Pops some slots at once, or none if there are too few; they come in the order of pushing. -/
def popSlots (n : Nat) : Action (List Slot) := do
  let f ← get
  if f.operands.length < n then throw f.underflow
  set { f with operands := f.operands.drop n }
  pure (f.operands.take n).reverse

/-- Pushes an int. -/
def pushInt (v : Int32) : Action Unit := push (Slot.ofInt v)

/-- Pops an int. -/
def popInt : Action Int32 := return Slot.toInt (← pop)

/-- Pushes a value that takes two slots. -/
def pushWide (v : Slot) : Action Unit := do
  push v
  push 0

/-- Pops a value that takes two slots. -/
def popWide : Action Slot := do
  let _ ← pop
  pop

/-- Pushes a long. -/
def pushLong (v : Int64) : Action Unit := pushWide (Slot.ofLong v)

/-- Pops a long. -/
def popLong : Action Int64 := return Slot.toLong (← popWide)

/-- Pushes a reference. -/
def pushRef (r : ObjRef) : Action Unit := push r.toSlot

/-- Pops a reference. -/
def popRef : Action ObjRef := return ObjRef.ofSlot (← pop)

/-- Sets a local. -/
def setLocal (slot : Nat) (v : Slot) : Action Unit := do
  let f ← get
  if slot < f.locals.size then set { f with locals := f.locals.setIfInBounds slot v }
  else throw (.localOutOfRange f.method.fullName slot)

/-- Sets a local that takes two slots. -/
def setLocalWide (slot : Nat) (v : Slot) : Action Unit := do
  setLocal slot v
  setLocal (slot + 1) 0

/-- What tells two activations apart: methods count by id and unique name. -/
structure View where
  method : MethodId
  /-- The unique name of the method. -/
  name : String
  /-- The index of the current instruction. -/
  pc : Nat
  locals : Array Slot
  operands : List Slot
  receiver : ObjRef
deriving DecidableEq, Hashable, Repr

/-- The view of a frame. -/
def view (f : Frame) : View :=
  { method := f.method.id, name := f.method.uniqueName, pc := f.pc, locals := f.locals,
    operands := f.operands, receiver := f.receiver }

end Frame

end Interleave

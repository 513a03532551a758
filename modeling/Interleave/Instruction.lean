import Interleave.Attachments
import Interleave.Fault

/-!
# Instructions

An instruction is an opcode with an operand, placed at an index and a byte position of the code of
a method. Nothing ties the form of the operand to the opcode until the instruction runs; the
accessors below ask for a form and fault if it is another.
-/

namespace Interleave

/-- A field by the names of its class and itself. -/
structure FieldRef where
  /-- The class in which the search for the field begins. -/
  className : String
  name : String
  /-- The descriptor of its type. -/
  descriptor : String
deriving DecidableEq, Hashable, Repr, Inhabited

/-- A method by the names of its class and itself. -/
structure MethodRef where
  /-- The class in which the search for the method begins. -/
  className : String
  name : String
  signature : String
deriving DecidableEq, Hashable, Repr, Inhabited

/-- The name that tells overloads apart. -/
def MethodRef.uniqueName (m : MethodRef) : String := m.name ++ m.signature

/-- What an instruction works on besides the stack. -/
inductive Operand where
  | none
  | int (value : Int64)
  /-- A double constant, by its bits. -/
  | double (bits : UInt64)
  /-- A local by its slot. -/
  | slot (index : Nat)
  /-- A local and the amount to add to it. -/
  | increment (index : Nat) (amount : Int32)
  /-- The index of the instruction to branch to. -/
  | target (index : Nat)
  | typeCode (code : TypeCode)
  | className (name : String)
  | field (ref : FieldRef)
  | method (ref : MethodRef)
  | message (text : String)
deriving DecidableEq, Hashable, Repr, Inhabited

/-- A place in a program: a method and the index of an instruction. -/
structure ProgramPoint where
  method : MethodId
  /-- The index of the instruction. -/
  index : Nat
deriving DecidableEq, Hashable, Repr, Inhabited

/-- An instruction in its place. -/
structure Instruction where
  /-- What it does. -/
  op : Opcode
  /-- What it does it with. -/
  operand : Operand := .none
  /-- Its index in the code of its method. -/
  index : Nat := 0
  /-- The byte at which it starts. -/
  position : Nat := 0
  /-- The method it belongs to. -/
  method : MethodId := .unregistered
  /-- Data attached by whoever assembled it. -/
  attachments : Attachments := {}
deriving DecidableEq, Repr, Inhabited

namespace Instruction

/-- The place of an instruction. -/
def point (i : Instruction) : ProgramPoint := ⟨i.method, i.index⟩

/-- The number of bytes it takes. -/
def length (i : Instruction) : Nat := i.op.length

/-- The index of the instruction that follows it. -/
def nextIndex (i : Instruction) : Nat := i.index + 1

/-- Is it the first of its method? -/
def isFirst (i : Instruction) : Bool := i.index == 0

/-- Does it branch to itself or to an earlier instruction? -/
def isBackJump (i : Instruction) : Bool :=
  match i.operand with
  | .target t => i.op.isBranch && t ≤ i.index
  | _ => false

/-- The fault of an operand of another form. -/
def malformed (i : Instruction) (form : OperandForm) : Fault := .malformedOperand i.op form

/-- The slot of a local. -/
def localSlot (i : Instruction) : Except Fault Nat :=
  match i.operand with
  | .slot n => .ok n
  | _ => .error (i.malformed .localSlot)

/-- An integer constant. -/
def intValue (i : Instruction) : Except Fault Int64 :=
  match i.operand with
  | .int v => .ok v
  | _ => .error (i.malformed .intConstant)

/-- The bits of a double constant. -/
def doubleBits (i : Instruction) : Except Fault UInt64 :=
  match i.operand with
  | .double bits => .ok bits
  | _ => .error (i.malformed .doubleConstant)

/-- A local and the amount to add to it. -/
def increment (i : Instruction) : Except Fault (Nat × Int32) :=
  match i.operand with
  | .increment n d => .ok (n, d)
  | _ => .error (i.malformed .increment)

/-- The index to branch to. -/
def target (i : Instruction) : Except Fault Nat :=
  match i.operand with
  | .target t => .ok t
  | _ => .error (i.malformed .branchTarget)

/-- A type code. -/
def typeCode (i : Instruction) : Except Fault TypeCode :=
  match i.operand with
  | .typeCode c => .ok c
  | _ => .error (i.malformed .typeCode)

/-- A class name, be it alone or part of a reference to a field or a method. -/
def className (i : Instruction) : Except Fault String :=
  match i.operand with
  | .className c => .ok c
  | .field f => .ok f.className
  | .method m => .ok m.className
  | _ => .error (i.malformed .className)

/-- A reference to a field. -/
def fieldRef (i : Instruction) : Except Fault FieldRef :=
  match i.operand with
  | .field f => .ok f
  | _ => .error (i.malformed .fieldReference)

/-- A reference to a method. -/
def methodRef (i : Instruction) : Except Fault MethodRef :=
  match i.operand with
  | .method m => .ok m
  | _ => .error (i.malformed .methodReference)

/-- The text of a message, if the operand is one. -/
def message? (i : Instruction) : Option String :=
  match i.operand with
  | .message s => some s
  | _ => none

end Instruction

end Interleave

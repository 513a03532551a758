import Interleave.Opcode
import Interleave.Descriptor

/-!
# Faults

What can go wrong inside the machine, as opposed to inside the program it runs: malformed
instructions, missing classes, misuse of the machine. Mistakes of the program that runs never show
up here; they become exceptions of that program.

A fault is a cause. Its wording is `Fault.message`.
-/

namespace Interleave

/-- Why a class or a method cannot be declared. -/
inductive LoadFault where
  | duplicateClass (name : String)
  | unknownSuperclass (name superclass : String)
  | unknownClass (id : ClassId)
  | duplicateMethod (className method : String)
  | methodWithoutClass (method : String)
  | invalidField (className field : String) (cause : SignatureFault)
deriving DecidableEq, Repr

/-- The wording of a fault. -/
def LoadFault.message : LoadFault → String
  | duplicateClass n => "class " ++ n ++ " is already declared"
  | unknownSuperclass n s => "superclass " ++ s ++ " of " ++ n ++ " is not declared"
  | unknownClass c => "unknown class id " ++ c.longText
  | duplicateMethod c m => "method " ++ m ++ " is already defined in " ++ c
  | methodWithoutClass m => "method " ++ m ++ " has no declaring class"
  | invalidField c f e => "field " ++ c ++ "." ++ f ++ ": " ++ e.message

/-- The forms of operand that instructions ask for. -/
inductive OperandForm where
  | localSlot
  | intConstant
  | doubleConstant
  | increment
  | branchTarget
  | typeCode
  | className
  | fieldReference
  | methodReference
deriving DecidableEq, Repr

/-- The wording of a form of operand. -/
def OperandForm.text : OperandForm → String
  | localSlot => "local slot"
  | intConstant => "int constant"
  | doubleConstant => "double constant"
  | increment => "iinc pair"
  | branchTarget => "branch target"
  | typeCode => "type code"
  | className => "class name"
  | fieldReference => "field reference"
  | methodReference => "method reference"

/-- The tables of a method that are filled entry by entry. -/
inductive MethodTable where
  | handlers
  | locals
  | lines
  | annotations
  | thrown
deriving DecidableEq, Repr

/-- The wording of a table. -/
def MethodTable.text : MethodTable → String
  | handlers => "exception handler"
  | locals => "local variable"
  | lines => "line number"
  | annotations => "parameter annotation"
  | thrown => "thrown exception"

/-- The forms of object that instructions ask for. -/
inductive ObjectForm where
  | array
  | plainInstance
  | classObject
deriving DecidableEq, Repr

/-- The wording of a form of object. -/
def ObjectForm.text : ObjectForm → String
  | array => "an array"
  | plainInstance => "an instance"
  | classObject => "a class object"

/-- Why the machine cannot go on. -/
inductive Fault where
  | signature (cause : SignatureFault)
  | load (cause : LoadFault)
  | malformedOperand (op : Opcode) (expected : OperandForm)
  | unboundLabel (label : Nat)
  | tableIndexOutOfRange (table : MethodTable) (index : Nat)
  | missingTableEntry (table : MethodTable) (index : Nat)
  | tableNotStarted (table : MethodTable)
  | noCode (method : String)
  | instructionNotFound (method : String) (position : Nat)
  | noInstruction (method : String) (pc : Nat)
  | inconsistentLocals (method : String)
  | stubWithoutClass (method : String)
  | stackUnderflow (method : String)
  | localOutOfRange (method : String) (slot : Nat)
  | noActiveFrame (thread : ThreadId)
  | noSuchThread (thread : ThreadId)
  | noClassState (id : ClassId)
  | noSuchClass (name : String)
  | noSuchMethod (name : String)
  | noSuchField (name : String)
  | danglingReference (ref : ObjRef)
  | wrongObjectForm (ref : ObjRef) (expected : ObjectForm)
  | malformedSource (method : String)
  | notStarted
  | alreadyStarted
  | hostCallSuspended (thread : ThreadId)
  | noChoiceSelected (generator : String)
  | unhandledException (className : String) (message : Option String)
  /-- The step budget of a run that nothing else bounds is used up. -/
  | budgetExhausted
deriving DecidableEq, Repr

/-- The wording of a fault. -/
def Fault.message : Fault → String
  | signature e => e.message
  | load e => e.message
  | malformedOperand op form =>
    "malformed operand for " ++ op.name ++ ": expected " ++ form.text
  | unboundLabel n => "label " ++ toString n ++ " was never bound"
  | tableIndexOutOfRange t i => t.text ++ " table index " ++ toString i ++ " out of range"
  | missingTableEntry t i => t.text ++ " table entry " ++ toString i ++ " was never set"
  | tableNotStarted t => t.text ++ " table was not started"
  | noCode m => "method " ++ m ++ " has no code"
  | instructionNotFound m n => "no instruction at position " ++ toString n ++ " in " ++ m
  | noInstruction m pc => "no instruction at index " ++ toString pc ++ " in " ++ m
  | inconsistentLocals m => "inconsistent local variable table for method " ++ m
  | stubWithoutClass m => "cannot create a call stub for " ++ m ++ ": no declaring class"
  | stackUnderflow m => "operand stack underflow in " ++ m
  | localOutOfRange m s => "local slot " ++ toString s ++ " out of range in " ++ m
  | noActiveFrame t => "thread " ++ t.text ++ " has no active frame"
  | noSuchThread t => "no such thread " ++ t.text
  | noClassState c => "no class runtime state for " ++ c.longText
  | noSuchClass n => "class " ++ n ++ " not found"
  | noSuchMethod n => "method " ++ n ++ " not found"
  | noSuchField n => "field " ++ n ++ " not found"
  | danglingReference r => "dangling object reference " ++ r.longText
  | wrongObjectForm r form => "object " ++ r.longText ++ " is not " ++ form.text
  | malformedSource m => "nondeterministic source " ++ m ++ " has an unsupported signature"
  | notStarted => "the VM has not been started"
  | alreadyStarted => "the VM was already started"
  | hostCallSuspended t =>
    "host call on thread " ++ t.text ++ " cannot complete without a scheduling decision"
  | noChoiceSelected g => "choice generator " ++ g ++ " has no current choice"
  | unhandledException c m =>
    "unhandled exception " ++ c ++ (m.map (": " ++ ·)).getD ""
  | budgetExhausted => "the step budget is used up"

end Interleave

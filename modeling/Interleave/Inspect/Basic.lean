import Interleave.Listing

/-!
# Descriptions

A description shows a value from outside, as numbers, texts, lists and named fields. It is what a
tool prints when it is asked for a value, so it holds what is worth seeing rather than all there is.

Types with one evident description are instances of `Inspect`; where a description is expected, a
value of such a type may stand for its own.
-/

namespace Interleave

/-- A description. -/
inductive Datum where
  /-- There is no value. -/
  | absent
  | flag (value : Bool)
  | number (value : Int)
  | text (value : String)
  | list (items : List Datum)
  | record (fields : List (String × Datum))
deriving Inhabited

/-- Types whose values have a description. -/
class Inspect (α : Type) where
  /-- The description of a value. -/
  inspect : α → Datum

export Inspect (inspect)

instance {α : Type} [Inspect α] : CoeOut α Datum := ⟨inspect⟩

namespace Inspect

variable {α β : Type}

instance : Inspect Datum := ⟨id⟩
instance : Inspect Unit := ⟨fun _ => .absent⟩
instance : Inspect Bool := ⟨.flag⟩
instance : Inspect Int := ⟨.number⟩
instance : Inspect Nat := ⟨fun n => .number n⟩
instance : Inspect String := ⟨.text⟩
instance : Inspect Int32 := ⟨fun v => .number v.toInt⟩
instance : Inspect Int64 := ⟨fun v => .number v.toInt⟩
instance : Inspect UInt32 := ⟨fun v => .number v.toNat⟩
instance : Inspect UInt64 := ⟨fun v => .number v.toNat⟩

instance [Inspect α] : Inspect (Option α) where
  inspect
    | none => .absent
    | some a => inspect a

instance [Inspect α] : Inspect (List α) := ⟨fun as => .list (as.map inspect)⟩
instance [Inspect α] : Inspect (Array α) := ⟨fun as => .list (as.toList.map inspect)⟩
instance [Inspect α] [Inspect β] : Inspect (α × β) := ⟨fun p => .list [p.1, p.2]⟩

instance [Inspect α] [Inspect β] : Inspect (Except α β) where
  inspect
    | .ok b => inspect b
    | .error a => inspect a

/-! ## Names and numbers -/

instance : Inspect ThreadId := ⟨fun t => t.index⟩
instance : Inspect ClassId := ⟨fun c => c.index⟩
instance : Inspect MethodId := ⟨fun m => m.number⟩
instance : Inspect ObjRef := ⟨fun r => r.index⟩
instance : Inspect ProgramPoint := ⟨fun p => .list [p.method, p.index]⟩
instance : Inspect TypeCode := ⟨fun c => c.name⟩
instance : Inspect ChoiceKind := ⟨fun k => k.name⟩

/-! ## One-line texts -/

instance : Inspect Choice := ⟨fun c => c.text⟩
instance : Inspect ChoiceRecord := ⟨fun r => r.text⟩
instance : Inspect ThreadStatus := ⟨fun s => s.text⟩
instance : Inspect ClassStatus := ⟨fun s => s.text⟩
instance : Inspect Monitor := ⟨fun m => m.text?⟩
instance : Inspect Instruction := ⟨fun i => i.text⟩
instance : Inspect TransitionEnd := ⟨fun e => e.text⟩
instance : Inspect SearchNotice := ⟨fun n => n.text⟩

/-- Whether a method was entered. -/
instance : Inspect Entry where
  inspect
    | .entered => "Entered"
    | .blocked r => (ThreadStatus.blocked r).text

end Inspect

/-! ## Faults -/

/-- The name of a fault. -/
def SignatureFault.name : SignatureFault → String
  | missingOpenParen _ => "MissingOpenParen"
  | unterminatedArgs _ => "UnterminatedArgs"
  | invalidDescriptor .. => "InvalidDescriptor"
  | trailingInput _ => "TrailingInput"
  | voidArgument _ => "VoidArgument"

/-- The name of a fault. -/
def LoadFault.name : LoadFault → String
  | duplicateClass _ => "DuplicateClass"
  | unknownSuperclass .. => "UnknownSuperClass"
  | unknownClass _ => "UnknownClass"
  | duplicateMethod .. => "DuplicateMethod"
  | methodWithoutClass _ => "MethodWithoutClass"
  | invalidField .. => "InvalidField"

/-- The name of a fault, which is that of its innermost cause. -/
def Fault.name : Fault → String
  | signature e => e.name
  | load e => e.name
  | malformedOperand .. => "MalformedOperand"
  | unboundLabel _ => "UnboundLabel"
  | tableIndexOutOfRange .. => "TableIndexOutOfRange"
  | missingTableEntry .. => "MissingTableEntry"
  | tableNotStarted _ => "TableNotStarted"
  | noCode _ => "NoCode"
  | instructionNotFound .. => "InstructionNotFound"
  | noInstruction .. => "NoInstruction"
  | inconsistentLocals _ => "InconsistentLocalVarTable"
  | stubWithoutClass _ => "StubWithoutClass"
  | stackUnderflow _ => "StackUnderflow"
  | localOutOfRange .. => "LocalOutOfRange"
  | noActiveFrame _ => "NoActiveFrame"
  | noSuchThread _ => "NoSuchThread"
  | noClassState _ => "NoSuchClassId"
  | noSuchClass _ => "NoSuchClass"
  | noSuchMethod _ => "NoSuchMethod"
  | noSuchField _ => "NoSuchField"
  | danglingReference _ => "DanglingReference"
  | wrongObjectForm .. => "WrongObjectKind"
  | malformedSource _ => "MalformedNondet"
  | notStarted => "NotStarted"
  | alreadyStarted => "AlreadyStarted"
  | hostCallSuspended _ => "HostCallSuspended"
  | noChoiceSelected _ => "NoChoiceSelected"
  | unhandledException .. => "UnhandledException"
  | budgetExhausted => "BudgetExhausted"

/-- The name of a fault, which is that of its innermost cause. -/
def SearchFault.name : SearchFault → String
  | machine e => e.name
  | notStarted => "NotStarted"
  | emptyChoice _ => "EmptyChoice"
  | budgetExhausted => "BudgetExhausted"

namespace Inspect

instance : Inspect Fault := ⟨fun e => .record [("error", e.name), ("message", e.message)]⟩
instance : Inspect SignatureFault := ⟨fun e => inspect (Fault.signature e)⟩
instance : Inspect LoadFault := ⟨fun e => inspect (Fault.load e)⟩
instance : Inspect SearchFault := ⟨fun e => .record [("error", e.name), ("message", e.message)]⟩

end Inspect

end Interleave

import Interleave.Instruction
import Interleave.Mangling
import Interleave.Modifiers

/-!
# Methods

A method is a name and a signature together with whatever is known about its body: code, exception
handlers, line numbers, local variables, annotations. What follows from the signature is computed
from it, so it cannot disagree with it.

A method without a class belongs to the machine itself: the stubs through which calls from outside
the program go, and the bottom frame of a thread that is driven from outside.
-/

namespace Interleave

/-- What a method knows about its class. -/
structure ClassRef where
  id : ClassId
  name : String
  /-- The file it was compiled from. -/
  sourceFile : Option String := none
  isInterface : Bool := false
deriving DecidableEq, Repr, Inhabited

/-- Properties of a method that steer its execution. -/
structure MethodAttributes where
  /-- There is no scheduling point inside. -/
  atomic : Bool := false
  /-- Left out of reports. -/
  hidden : Bool := false
  /-- An exception that leaves the method goes no further. -/
  firewall : Bool := false
  /-- Initializes its class. -/
  isClassInit : Bool := false
  /-- Initializes an instance. -/
  isInstanceInit : Bool := false
deriving DecidableEq, Repr, Inhabited

/-- A range of code and where exceptions raised in it are handled. -/
structure ExceptionHandler where
  /-- The first byte of the range. -/
  startPc : Nat
  /-- The first byte after the range. -/
  endPc : Nat
  /-- The byte at which handling begins. -/
  handlerPc : Nat
  /-- The class of exceptions that are handled; none stands for all. -/
  catchType : Option String := none
deriving DecidableEq, Repr, Inhabited

/-- Does the range hold this byte? -/
def ExceptionHandler.covers (h : ExceptionHandler) (position : Nat) : Bool :=
  h.startPc ≤ position && position < h.endPc

/-- A named local variable. -/
structure LocalVar where
  name : String
  /-- The descriptor of its type. -/
  signature : String
  /-- The type with its parameters, if it has any. -/
  genericSignature : Option String := none
  /-- The first byte of its scope. -/
  startPc : Nat
  /-- The length of its scope in bytes. -/
  length : Nat
  /-- The slot in which it is kept. -/
  slot : Nat
deriving DecidableEq, Repr, Inhabited

/-- Is the variable in scope at this byte? -/
def LocalVar.inScope (v : LocalVar) (pc : Nat) : Bool :=
  v.startPc ≤ pc && pc < v.startPc + v.length

/-- An annotation on a parameter. -/
structure Annotation where
  /-- The name of its type. -/
  typeName : String
  /-- Its values, by name. -/
  values : List (String × String) := []
deriving DecidableEq, Repr, Inhabited

/-- A method. -/
structure Method where
  /-- What the method is known by. -/
  id : MethodId := .unregistered
  name : String
  signature : String
  /-- The signature with type parameters, if there is one. -/
  genericSignature : Option String := none
  /-- The class that declares it; none if it belongs to the machine. -/
  owner : Option ClassRef := none
  modifiers : Modifiers := .empty
  /-- Its execution attributes. -/
  attributes : MethodAttributes := {}
  /-- The number of local slots. -/
  maxLocals : Nat := 0
  /-- The number of operand slots. -/
  maxStack : Nat := 0
  /-- The instructions. -/
  code? : Option (Array Instruction) := none
  /-- The exception handlers, in the order in which they are tried. -/
  handlers? : Option (List ExceptionHandler) := none
  /-- A source line for each instruction. -/
  lines? : Option (Array Nat) := none
  /-- The named local variables. -/
  locals? : Option (List LocalVar) := none
  annotations? : Option (List (List Annotation)) := none
  /-- The classes of exceptions that the method declares. -/
  thrown? : Option (List String) := none
  /-- Extra data. -/
  attachments : Attachments := {}
deriving DecidableEq, Repr, Inhabited

namespace Method

/-- A method without a body, from a signature that is taken on trust. The name decides whether it
initializes its class, which makes it synchronized and a firewall, or an instance; the methods of an
interface are public. -/
def make (owner : Option ClassRef) (name signature : String) (maxLocals maxStack : Nat)
    (modifiers : Modifiers) : Method :=
  let bare : Method := { name, signature, owner, maxLocals, maxStack, modifiers }
  match owner with
  | none => bare
  | some c =>
    let isClassInit := name == "<clinit>"
    { bare with
      modifiers :=
        modifiers ∪ (if isClassInit then Modifiers.synchronized else .empty)
          ∪ (if c.isInterface then Modifiers.publicAccess else .empty)
      attributes :=
        { firewall := isClassInit, isClassInit, isInstanceInit := name == "<init>" } }

/-- A method without a body, if its signature is one. -/
def new (owner : Option ClassRef) (name signature : String) (maxLocals maxStack : Nat)
    (modifiers : Modifiers) : Except Fault Method :=
  match Signature.parse signature with
  | .error e => .error (.signature e)
  | .ok _ => .ok (make owner name signature maxLocals maxStack modifiers)

/-! ## Names -/

/-- The name that tells overloads apart. -/
def uniqueName (m : Method) : String := m.name ++ m.signature

/-- The number of the declaring class. -/
def classId? (m : Method) : Option ClassId := m.owner.map ClassRef.id

/-- The name of the declaring class. -/
def className (m : Method) : String := (m.owner.map ClassRef.name).getD "[VM]"

/-- The source file of the declaring class; empty if it is not known. -/
def sourceFile (m : Method) : String :=
  match m.owner with
  | some c => c.sourceFile.getD ""
  | none => "[VM]"

/-- The unique name behind the name of the class, if there is one. -/
def fullName (m : Method) : String :=
  match m.owner with
  | some c => c.name ++ "." ++ m.uniqueName
  | none => m.uniqueName

/-- The name behind the name of the class. -/
def baseName (m : Method) : String := m.className ++ "." ++ m.name

/-- The name in stack traces. -/
def traceName (m : Method) : String :=
  match m.owner with
  | some c => c.name ++ "." ++ m.name
  | none => m.name

/-- The name under which a native body is looked up. -/
def nativeName (m : Method) : String := Mangling.methodName none m.name (some m.signature)

/-! ## What follows from the signature -/

/-- The parts of the signature; a malformed one counts as taking and returning nothing. -/
def parts (m : Method) : Signature :=
  match Signature.parse m.signature with
  | .ok s => s
  | .error _ => ⟨[], "V"⟩

/-- Does the method belong to its class rather than to an instance? -/
def isStatic (m : Method) : Bool := m.modifiers.isStatic

/-- The slot that the receiver takes. -/
def receiverSlots (m : Method) : Nat := if m.isStatic then 0 else 1

/-- The kinds of the declared arguments. -/
def argCodes (m : Method) : List TypeCode := m.parts.argCodes

/-- The number of declared arguments. -/
def arity (m : Method) : Nat := m.argCodes.length

/-- The number of arguments with the receiver. -/
def stackArity (m : Method) : Nat := m.arity + m.receiverSlots

/-- The slots that the arguments take, with the receiver. -/
def argSlots (m : Method) : Nat := m.parts.argSlots + m.receiverSlots

/-- The names of the argument types in source text. -/
def argNames (m : Method) : List String := m.parts.argNames

/-- The descriptor of the result. -/
def result (m : Method) : String := m.parts.result

/-- The name of the result type in source text. -/
def resultName (m : Method) : String := m.parts.resultName

/-- The kind of the result. -/
def resultCode (m : Method) : TypeCode := m.parts.resultCode

/-- The slots that the result takes. -/
def resultSlots (m : Method) : Nat := m.resultCode.slotSize

/-- The slots a caller needs to set up a call and receive its result. -/
def callerSlots (m : Method) : Nat :=
  match Signature.parse m.signature with
  | .ok s => s.callerSlots m.isStatic
  | .error _ => 0

/-- The kind of choice that decides the result, if the method is a source of values. -/
def choiceKind (m : Method) : ChoiceKind := .ofResult m.resultCode

/-- A type name without its package. -/
def unqualified (name : String) : String :=
  let cs := name.toList
  let last := (cs.reverse.takeWhile (· != '.')).reverse
  if last.length + 1 < cs.length then String.ofList last else name

/-- The name with the unqualified names of the argument types. -/
def longName (m : Method) : String :=
  m.name ++ "(" ++ ",".intercalate (m.argNames.map unqualified) ++ ")"

/-! ## Flags -/

/-- Does the method hold a monitor while it runs? -/
def isSynchronized (m : Method) : Bool := m.modifiers.isSynchronized

/-- Is the body missing by declaration? -/
def isAbstract (m : Method) : Bool := m.modifiers.contains .abstract

/-- Is the body outside the program? -/
def isNative (m : Method) : Bool := m.modifiers.contains .native

/-- The possible results of a native method, if they are listed. -/
def source? (m : Method) : Option ValueSource := m.attachments.source

/-- Is the method native with nothing to produce its result? -/
def isUnresolvedNative (m : Method) : Bool := m.isNative && m.source?.isNone

/-- Is the method visible in its package only? -/
def isPackagePrivate (m : Method) : Bool :=
  !(m.modifiers.contains .publicAccess || m.modifiers.contains .privateAccess
    || m.modifiers.contains .protectedAccess)

/-- Is the method the initializer of this class? -/
def isClassInitOf (m : Method) (c : ClassId) : Bool :=
  m.attributes.isClassInit && m.classId? == some c

/-- Does the name make the method a constructor? -/
def isConstructor (m : Method) : Bool := m.name == "<init>"

/-- Is the method called by the machine alone? -/
def isInternal (m : Method) : Bool := m.name == "<clinit>" || m.uniqueName == "finalize()V"

/-- Does entering the method count as a synchronization? Initializers do not. -/
def isSyncRelevant (m : Method) : Bool := m.name.toList.head? != some '<'

/-- Does the method belong to the machine? -/
def isMachineOwned (m : Method) : Bool := m.owner.isNone

/-- Is the method a stub for a direct call? -/
def isDirectCallStub (m : Method) : Bool := m.id == .directCall

/-- Is the method a stub for a reflective call? -/
def isReflectiveCallStub (m : Method) : Bool := m.id == .reflectiveCall

/-! ## Code -/

/-- The instructions; none if there is no body. -/
def code (m : Method) : Array Instruction := m.code?.getD #[]

/-- The instruction at an index. -/
def instruction? (m : Method) (index : Nat) : Option Instruction := m.code[index]?

/-- The instruction that starts at a byte. -/
def instructionAt (m : Method) (position : Nat) : Except Fault Instruction :=
  match m.code.find? (·.position == position) with
  | some i => .ok i
  | none => .error (.instructionNotFound m.fullName position)

/-- Is the body nothing but a return? -/
def hasEmptyBody (m : Method) : Bool :=
  match m.code.toList with
  | [only] => only.op.isReturn
  | _ => false

/-- The bytes at which the instructions of a body start, given where the first one starts. -/
def positions (start : Nat) : List Instruction → List Nat
  | [] => []
  | i :: is => start :: positions (start + i.length) is

/-- The instructions of a body with index, position and method filled in. -/
def place (id : MethodId) (code : List Instruction) : List Instruction :=
  (code.zip (positions 0 code)).mapIdx fun index (i, position) =>
    { i with index, position, method := id }

/-- The method with this body. -/
def withCode (m : Method) (code : List Instruction) : Method :=
  { m with code? := some (place m.id code).toArray }

/-- The method under another id, which its instructions take on too. -/
def withId (m : Method) (id : MethodId) : Method :=
  { m with id, code? := m.code?.map fun code => code.map fun i => { i with method := id } }

/-- The exception handlers, in the order in which they are tried. -/
def handlers (m : Method) : List ExceptionHandler := m.handlers?.getD []

/-- The first handler that covers a byte and whose class passes the test. -/
def findHandler (m : Method) (position : Nat) (catches : String → Bool) :
    Option ExceptionHandler :=
  m.handlers.find? fun h => h.covers position && h.catchType.all catches

/-- The classes of exceptions that the method declares. -/
def thrown (m : Method) : List String := m.thrown?.getD []

/-! ## Local variables and annotations -/

/-- The variable of this name in scope at a byte. -/
def localVar? (m : Method) (name : String) (pc : Nat) : Option LocalVar :=
  (m.locals?.getD []).find? fun v => v.name == name && v.inScope pc

/-- The variable in this slot in scope at a byte. -/
def localVarAt? (m : Method) (slot pc : Nat) : Option LocalVar :=
  (m.locals?.getD []).find? fun v => v.slot == slot && v.inScope pc

/-- The names of the variables. -/
def localNames (m : Method) : List String := (m.locals?.getD []).map LocalVar.name

/-- The variables in scope from the start, by slot; none if no variables are recorded. There may be
no more of them than arguments. -/
def argLocals (m : Method) : Except Fault (Option (List LocalVar)) :=
  match m.locals? with
  | none => .ok none
  | some vars =>
    if m.stackArity = 0 then .ok (some [])
    else
      let args := vars.filter (·.startPc == 0)
      if m.stackArity < args.length then .error (.inconsistentLocals m.fullName)
      else .ok (some (args.mergeSort fun a b => a.slot ≤ b.slot))

/-- The annotations of each declared argument. -/
def annotations (m : Method) : List (List Annotation) :=
  m.annotations?.getD (List.replicate m.arity [])

/-- The annotations recorded for an argument. -/
def annotationsAt? (m : Method) (index : Nat) : Option (List Annotation) :=
  m.annotations?.bind (·[index]?)

end Method

end Interleave

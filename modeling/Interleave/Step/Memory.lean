import Interleave.Step.Call

/-!
# Objects, fields and arrays

Creating objects and reading and writing their slots. Touching an object that another thread made
marks it as shared, and so does storing a reference to it where other threads can find it. A static
field is found in the class object of its class, which is initialized first.
-/

namespace Interleave

namespace Memory

/-- Pops a field value. -/
def popValue (code : TypeCode) : Frame.Action Slot :=
  if code.slotSize = 2 then Frame.popWide else Frame.pop

/-- Pushes a field value. -/
def pushValue (code : TypeCode) (v : Slot) : Frame.Action Unit :=
  if code.slotSize = 2 then Frame.pushWide v else Frame.push v

/-- The fault of a field that is not there. -/
def noSuchField (r : FieldRef) : Fault := .noSuchField (r.className ++ "." ++ r.name)

/-- The instance field that a reference denotes. -/
def instanceField (p : Program) (r : FieldRef) : Except Fault Field := do
  let c ← p.resolveClass r.className
  match p.instanceField? c.id r.name with
  | some f => .ok f
  | none => .error (noSuchField r)

/-- The static field that a reference denotes, and the class that declares it. -/
def staticField (p : Program) (r : FieldRef) : Except Fault (ClassId × Field) := do
  let c ← p.resolveClass r.className
  match p.staticField? c.id r.name with
  | some f => .ok f
  | none => .error (noSuchField r)

/-- The slot of a field in an object that must have fields. -/
def readField (r : ObjRef) (o : Object) (slot : Nat) (form : ObjectForm) : Except Fault Slot :=
  match o.fields?.bind (·[slot]?) with
  | some v => .ok v
  | none => .error (.wrongObjectForm r form)

/-- Writes a slot of an object that must have fields. -/
def writeField (r : ObjRef) (slot : Nat) (v : Slot) (form : ObjectForm) : Step Unit := do
  let o ← Step.object r
  let _ ← Step.lift (readField r o slot form)
  Step.modifyKernel fun k => k.modifyObject r (·.setSlot slot v)

/-- Marks the object that a stored slot refers to as shared. -/
def publish (v : Slot) : Step Unit := Step.modifyKernel fun k => k.markShared (ObjRef.ofSlot v)

/-- Creates an instance. -/
def new (p : Program) (t : ThreadId) (i : Instruction) : Step Flow := do
  let c ← Step.lift (p.resolveClass (← Step.lift i.className))
  if ← Call.initializeClass? p t c.id then return .again
  let r ← Step.newInstance p t c.id
  Step.onFrame t (Frame.pushRef r)
  return .goto i.nextIndex

/-- Reads an instance field. -/
def getField (p : Program) (t : ThreadId) (i : Instruction) : Step Flow := do
  let r ← Step.lift i.fieldRef
  let f ← Step.lift (instanceField p r)
  let obj ← Step.onFrame t Frame.popRef
  if obj.isNull then
    return ← Step.raise p t Builtin.nullPointer (some ("reading field " ++ r.name))
  Step.touch t obj
  let v ← Step.lift (readField obj (← Step.object obj) f.slot .plainInstance)
  Step.onFrame t (pushValue f.code v)
  return .goto i.nextIndex

/-- Writes an instance field. -/
def putField (p : Program) (t : ThreadId) (i : Instruction) : Step Flow := do
  let r ← Step.lift i.fieldRef
  let f ← Step.lift (instanceField p r)
  let v ← Step.onFrame t (popValue f.code)
  let obj ← Step.onFrame t Frame.popRef
  if obj.isNull then
    return ← Step.raise p t Builtin.nullPointer (some ("writing field " ++ r.name))
  Step.touch t obj
  writeField obj f.slot v .plainInstance
  if f.code.isReference && (← Step.object obj).shared then publish v
  return .goto i.nextIndex

/-- The class object and the field that a static field reference denotes; none if an initializer has
to run first. -/
def staticSlot (p : Program) (t : ThreadId) (r : FieldRef) : Step (Option (ObjRef × Field)) := do
  let (c, f) ← Step.lift (staticField p r)
  if ← Call.initializeClass? p t c then return none
  return some (← Step.lift ((← Step.kernel).classObject c), f)

/-- Reads a static field. -/
def getStatic (p : Program) (t : ThreadId) (i : Instruction) : Step Flow := do
  match ← staticSlot p t (← Step.lift i.fieldRef) with
  | none => pure .again
  | some (obj, f) =>
    let v ← Step.lift (readField obj (← Step.object obj) f.slot .classObject)
    Step.onFrame t (pushValue f.code v)
    pure (.goto i.nextIndex)

/-- Writes a static field. -/
def putStatic (p : Program) (t : ThreadId) (i : Instruction) : Step Flow := do
  match ← staticSlot p t (← Step.lift i.fieldRef) with
  | none => pure .again
  | some (obj, f) =>
    let v ← Step.onFrame t (popValue f.code)
    writeField obj f.slot v .classObject
    if f.code.isReference then publish v
    pure (.goto i.nextIndex)

/-! ## Arrays -/

/-- The kind of the elements of an array to create. An array of references names a class, which must
be there. -/
def elementCode (p : Program) (i : Instruction) : Except Fault TypeCode := do
  if i.op = .newArray then i.typeCode
  else
    let _ ← p.resolveClass (← i.className)
    .ok .reference

/-- Creates an array. Arrays count as instances of the root class. -/
def newArray (p : Program) (t : ThreadId) (i : Instruction) : Step Flow := do
  let code ← Step.lift (elementCode p i)
  let length ← Step.onFrame t Frame.popInt
  if length < 0 then
    return ← Step.raise p t Builtin.negativeArraySize (some (toString length.toInt))
  let c ← Step.lift (p.resolveClass Builtin.object)
  let r ← Step.newArray t c.id code length.toInt.toNat
  Step.onFrame t (Frame.pushRef r)
  return .goto i.nextIndex

/-- The elements of an object that must be an array. -/
def elements (r : ObjRef) : Step (Array Slot) := do
  match (← Step.object r).elements? with
  | some es => pure es
  | none => throw (.wrongObjectForm r .array)

/-- The length of an array. -/
def arrayLength (p : Program) (t : ThreadId) (i : Instruction) : Step Flow := do
  let r ← Step.onFrame t Frame.popRef
  if r.isNull then
    return ← Step.raise p t Builtin.nullPointer (some "array length of null")
  let es ← elements r
  Step.onFrame t (Frame.pushInt (Int32.ofNat es.size))
  return .goto i.nextIndex

/-- Is the index within an array of this length? -/
def inBounds (index : Int32) (length : Nat) : Bool := 0 ≤ index && index.toInt < length

/-- Raises the exception of an index out of bounds. -/
def raiseOutOfBounds (p : Program) (t : ThreadId) (index : Int32) (length : Nat) : Step Flow :=
  Step.raise p t Builtin.arrayIndex
    (some ("Index " ++ toString index.toInt ++ " out of bounds for length " ++ toString length))

/-- Reads an element. -/
def loadElement (p : Program) (t : ThreadId) (i : Instruction) : Step Flow := do
  let index ← Step.onFrame t Frame.popInt
  let r ← Step.onFrame t Frame.popRef
  if r.isNull then
    return ← Step.raise p t Builtin.nullPointer (some "load from null array")
  let es ← elements r
  if !inBounds index es.size then return ← raiseOutOfBounds p t index es.size
  Step.touch t r
  Step.onFrame t (Frame.push (es.getD index.toInt.toNat 0))
  return .goto i.nextIndex

/-- Writes an element. -/
def storeElement (p : Program) (t : ThreadId) (i : Instruction) : Step Flow := do
  let v ← Step.onFrame t Frame.pop
  let index ← Step.onFrame t Frame.popInt
  let r ← Step.onFrame t Frame.popRef
  if r.isNull then
    return ← Step.raise p t Builtin.nullPointer (some "store into null array")
  let es ← elements r
  if !inBounds index es.size then return ← raiseOutOfBounds p t index es.size
  Step.touch t r
  Step.modifyKernel fun k => k.modifyObject r (·.setSlot index.toInt.toNat v)
  if i.op = .aAStore && (← Step.object r).shared then publish v
  return .goto i.nextIndex

end Memory

end Interleave

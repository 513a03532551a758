import Interleave.Monitor
import Interleave.TypeCode

/-!
# The heap

Objects are kept in the order in which they were allocated and are never removed. A reference is a
position counted from one.

An object is an instance, an array or the class object of a class, and has a row of slots: the
fields of an instance, the elements of an array, the static fields of a class. It remembers which
thread made it and whether other threads may have come to see it.
-/

namespace Interleave

/-- What the slots of an object are. -/
inductive ObjectKind where
  /-- The fields of an instance. -/
  | fields
  /-- The elements of an array. -/
  | elements (code : TypeCode)
  /-- The static fields of a class. -/
  | statics (of : ClassId)
deriving DecidableEq, Hashable, Repr, Inhabited

/-- An object. -/
structure Object where
  /-- The class it is an instance of. -/
  classId : ClassId
  /-- What its slots are. -/
  kind : ObjectKind
  /-- Its slots. -/
  data : Array Slot
  /-- Its lock. -/
  monitor : Monitor := .free
  /-- The thread that made it. -/
  creator : ThreadId
  /-- May more than one thread reach it? -/
  shared : Bool := false
  /-- The message of an exception. -/
  detail : Option String := none
deriving DecidableEq, Hashable, Repr, Inhabited

namespace Object

/-- Is the object an array? -/
def isArray (o : Object) : Bool :=
  match o.kind with
  | .elements _ => true
  | _ => false

/-- The elements of an array. -/
def elements? (o : Object) : Option (Array Slot) := if o.isArray then some o.data else none

/-- The fields of an object that is no array. -/
def fields? (o : Object) : Option (Array Slot) := if o.isArray then none else some o.data

/-- The object with another value in a slot. -/
def setSlot (o : Object) (i : Nat) (v : Slot) : Object :=
  { o with data := o.data.setIfInBounds i v }

end Object

/-- The objects allocated so far. -/
structure Heap where
  /-- The objects, the first one having reference one. -/
  objects : Array Object := #[]
deriving DecidableEq, Hashable, Repr, Inhabited

namespace Heap

/-- The number of objects. -/
def size (h : Heap) : Nat := h.objects.size

/-- The object that a reference denotes. -/
def get? (h : Heap) (r : ObjRef) : Option Object :=
  if r.isNull then none else h.objects[r.index - 1]?

/-- Changes the object that a reference denotes, if there is one. -/
def modify (h : Heap) (r : ObjRef) (f : Object → Object) : Heap :=
  if r.isNull then h else { objects := h.objects.modify (r.index - 1) f }

/-- Appends an object. -/
def push (h : Heap) (o : Object) : ObjRef × Heap :=
  (⟨h.objects.size + 1⟩, { objects := h.objects.push o })

/-- Allocates an instance with this many fields. -/
def allocInstance (h : Heap) (c : ClassId) (fields : Nat) (creator : ThreadId) : ObjRef × Heap :=
  h.push { classId := c, kind := .fields, data := .replicate fields 0, creator }

/-- Allocates an array of this length. -/
def allocArray (h : Heap) (c : ClassId) (code : TypeCode) (length : Nat) (creator : ThreadId) :
    ObjRef × Heap :=
  h.push { classId := c, kind := .elements code, data := .replicate length 0, creator }

/-- Allocates a class object, which every thread can reach from the start. -/
def allocClassObject (h : Heap) (c of : ClassId) (statics : Nat) : ObjRef × Heap :=
  h.push { classId := c, kind := .statics of, data := .replicate statics 0, creator := .main,
           shared := true }

/-- The objects with their references. -/
def entries (h : Heap) : List (ObjRef × Object) :=
  h.objects.toList.mapIdx fun i o => (⟨i + 1⟩, o)

end Heap

end Interleave

/-!
# Identifiers and slots

The names by which the parts of a running program refer to each other, and the 64-bit slot in which
locals, operands, fields and array elements are kept.

Threads, classes and methods are numbered from zero in the order in which they come into being.
Objects are numbered from one, so that the zero slot is the null reference.
-/

namespace Interleave

/-- A thread, by its position in the thread table. -/
structure ThreadId where
  /-- The position. -/
  index : Nat
deriving DecidableEq, Hashable, Repr, Inhabited

/-- The thread that every run begins with. -/
def ThreadId.main : ThreadId := ⟨0⟩

/-- The short name of a thread, as in `T1`. -/
def ThreadId.text (t : ThreadId) : String := "T" ++ toString t.index

/-- The name of a thread with its kind spelled out, as in `ThreadId(1)`. -/
def ThreadId.longText (t : ThreadId) : String := "ThreadId(" ++ toString t.index ++ ")"

/-- A class, by its position in the class table. -/
structure ClassId where
  /-- The position. -/
  index : Nat
deriving DecidableEq, Hashable, Repr, Inhabited

/-- The name of a class number with its kind spelled out, as in `ClassId(3)`. -/
def ClassId.longText (c : ClassId) : String := "ClassId(" ++ toString c.index ++ ")"

/-- What a method is known by. A number that is not negative is a position in the method table;
negative ones are marks, which set call stubs and methods outside the table apart. -/
structure MethodId where
  number : Int
deriving DecidableEq, Hashable, Repr, Inhabited

namespace MethodId

/-- The method at a position of the method table. -/
def registered (position : Nat) : MethodId := ⟨position⟩

/-- A stub made for a direct call. -/
def directCall : MethodId := ⟨-1⟩

/-- A stub made for a reflective call. -/
def reflectiveCall : MethodId := ⟨-2⟩

/-- A method that is in no table. -/
def unregistered : MethodId := ⟨-2147483648⟩

/-- The position in the method table, unless the number is a mark. -/
def position? (m : MethodId) : Option Nat := m.number.toNat?

/-- Is the method in the method table? -/
def isRegistered (m : MethodId) : Bool := m.position?.isSome

@[simp] theorem position?_registered (i : Nat) : (registered i).position? = some i := rfl

@[simp] theorem position?_directCall : directCall.position? = none := rfl

@[simp] theorem position?_reflectiveCall : reflectiveCall.position? = none := rfl

@[simp] theorem position?_unregistered : unregistered.position? = none := rfl

end MethodId

/-- One 64-bit cell of a frame or an object. -/
abbrev Slot := UInt64

namespace Slot

/-- An int is kept sign-extended. -/
def ofInt (v : Int32) : Slot := v.toInt64.toUInt64

/-- The int in a slot is in its low half. -/
def toInt (s : Slot) : Int32 := s.toUInt32.toInt32

/-- A long fills the slot. -/
def ofLong (v : Int64) : Slot := v.toUInt64

/-- The long in a slot. -/
def toLong (s : Slot) : Int64 := s.toInt64

end Slot

/-- A reference to an object, counted from one; zero is null. -/
structure ObjRef where
  /-- The position of the object in the heap plus one. -/
  index : Nat
deriving DecidableEq, Hashable, Repr, Inhabited

namespace ObjRef

/-- The reference to no object. -/
def null : ObjRef := ⟨0⟩

/-- Does the reference denote no object? -/
def isNull (r : ObjRef) : Bool := r.index == 0

/-- The reference in a slot is in its low half. -/
def ofSlot (s : Slot) : ObjRef := ⟨s.toUInt32.toNat⟩

/-- The slot that holds a reference. -/
def toSlot (r : ObjRef) : Slot := UInt64.ofNat r.index

/-- The name of a reference with its kind spelled out, as in `ObjRef(7)`. -/
def longText (r : ObjRef) : String := "ObjRef(" ++ toString r.index ++ ")"

end ObjRef

end Interleave

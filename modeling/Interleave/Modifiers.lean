/-!
# Modifiers

The access and property flags of classes, fields and methods, as one set of bits. A constant below
is the set that holds just the flag it is named for.
-/

namespace Interleave

/-- A set of flags, one bit for each. -/
structure Modifiers where
  /-- The bits of the flags in the set. -/
  bits : UInt32
deriving DecidableEq, Hashable, Repr, Inhabited

namespace Modifiers

/-- No flag. -/
def empty : Modifiers := ⟨0⟩
/-- Visible everywhere. -/
def publicAccess : Modifiers := ⟨0x0001⟩
/-- Visible in the declaring class. -/
def privateAccess : Modifiers := ⟨0x0002⟩
/-- Visible in subclasses. -/
def protectedAccess : Modifiers := ⟨0x0004⟩
/-- Belongs to the class and not to its instances. -/
def static : Modifiers := ⟨0x0008⟩
/-- Not overridden or reassigned. -/
def final : Modifiers := ⟨0x0010⟩
/-- Holds a monitor while it runs. -/
def synchronized : Modifiers := ⟨0x0020⟩
/-- Always read from and written to shared memory. -/
def volatile : Modifiers := ⟨0x0040⟩
/-- Takes a variable number of arguments. -/
def varargs : Modifiers := ⟨0x0080⟩
/-- Has no code of its own. -/
def native : Modifiers := ⟨0x0100⟩
/-- Declares an interface. -/
def interface : Modifiers := ⟨0x0200⟩
/-- Has no body yet. -/
def abstract : Modifiers := ⟨0x0400⟩
/-- Made by a compiler. -/
def synthetic : Modifiers := ⟨0x1000⟩

/-- The flags of either set. -/
def union (a b : Modifiers) : Modifiers := ⟨a.bits ||| b.bits⟩

instance : Union Modifiers := ⟨union⟩

/-- The flags of the first set that are not in the second. -/
def remove (a b : Modifiers) : Modifiers := ⟨a.bits &&& ~~~b.bits⟩

/-- Does the first set hold every flag of the second? -/
def contains (a b : Modifiers) : Bool := (a.bits &&& b.bits) == b.bits

/-- Is the static flag set? -/
def isStatic (m : Modifiers) : Bool := m.contains static

/-- Is the synchronized flag set? -/
def isSynchronized (m : Modifiers) : Bool := m.contains synchronized

/-- Is the volatile flag set? -/
def isVolatile (m : Modifiers) : Bool := m.contains volatile

/-- The flags that have a name, in the order in which they are listed. -/
def names : List (Modifiers × String) :=
  [(publicAccess, "public"), (privateAccess, "private"), (protectedAccess, "protected"),
   (static, "static"), (final, "final"), (synchronized, "synchronized"), (volatile, "volatile"),
   (varargs, "varargs"), (native, "native"), (interface, "interface"), (abstract, "abstract"),
   (synthetic, "synthetic")]

/-- The set as a braced list of quoted flag names. -/
def text (m : Modifiers) : String :=
  let held := names.filterMap fun (flag, name) =>
    if m.contains flag then some ("\"" ++ name ++ "\"") else none
  "\x7b" ++ ", ".intercalate held ++ "\x7d"

end Modifiers

end Interleave

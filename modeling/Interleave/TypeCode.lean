/-!
# Type codes

The eleven kinds of value that a descriptor can begin with. The numbers of the codes are those by
which array-creating instructions name element types.
-/

namespace Interleave

/-- The kind of a value, a result or an array element. -/
inductive TypeCode where
  | boolean
  | char
  | float
  | double
  | byte
  | short
  | int
  | long
  | void
  | array
  | reference
deriving DecidableEq, Hashable, Repr, Inhabited

namespace TypeCode

/-- Every code, in the order of their numbers. -/
def all : List TypeCode :=
  [boolean, char, float, double, byte, short, int, long, void, array, reference]

/-- The number of a code. -/
def number : TypeCode → Nat
  | boolean => 4
  | char => 5
  | float => 6
  | double => 7
  | byte => 8
  | short => 9
  | int => 10
  | long => 11
  | void => 12
  | array => 13
  | reference => 14

/-- The code with a given number. -/
def ofNumber? (n : Nat) : Option TypeCode := all.find? (·.number == n)

/-- The character that a descriptor of this kind begins with. -/
def letter : TypeCode → Char
  | boolean => 'Z'
  | char => 'C'
  | float => 'F'
  | double => 'D'
  | byte => 'B'
  | short => 'S'
  | int => 'I'
  | long => 'J'
  | void => 'V'
  | array => '['
  | reference => 'L'

/-- The kind of a descriptor that begins with this character. -/
def ofLetter? : Char → Option TypeCode
  | 'Z' => some boolean
  | 'C' => some char
  | 'F' => some float
  | 'D' => some double
  | 'B' => some byte
  | 'S' => some short
  | 'I' => some int
  | 'J' => some long
  | 'V' => some void
  | '[' => some array
  | 'L' => some reference
  | _ => none

/-- How many slots a value of this kind takes on the operand stack and among the locals. -/
def slotSize : TypeCode → Nat
  | void => 0
  | long | double => 2
  | _ => 1

/-- Is a value of this kind a reference to an object? -/
def isReference : TypeCode → Bool
  | array | reference => true
  | _ => false

/-- Does a value of this kind live in a single int slot? -/
def isIntLike : TypeCode → Bool
  | boolean | char | byte | short | int => true
  | _ => false

/-- The word for a primitive kind in source text. -/
def keyword? : TypeCode → Option String
  | boolean => some "boolean"
  | char => some "char"
  | float => some "float"
  | double => some "double"
  | byte => some "byte"
  | short => some "short"
  | int => some "int"
  | long => some "long"
  | void => some "void"
  | array | reference => none

/-- The name of the code itself. -/
def name : TypeCode → String
  | boolean => "Boolean"
  | char => "Char"
  | float => "Float"
  | double => "Double"
  | byte => "Byte"
  | short => "Short"
  | int => "Int"
  | long => "Long"
  | void => "Void"
  | array => "Array"
  | reference => "Reference"

@[simp] theorem ofLetter?_letter (c : TypeCode) : ofLetter? c.letter = some c := by
  cases c <;> rfl

@[simp] theorem ofNumber?_number (c : TypeCode) : ofNumber? c.number = some c := by
  cases c <;> rfl

end TypeCode

end Interleave

import Interleave.Ids
import Interleave.TypeCode
import Interleave.Random

/-!
# Choices

A nondeterministic decision is a generator: a domain of values and a cursor over it. The machine
creates a generator where a decision is open, and only the search moves its cursor. Domains are
finite and listed by position, so an int range is never written out.

Floating-point candidates are kept by their bits.
-/

namespace Interleave

/-- What the values of a domain are. -/
inductive ChoiceKind where
  | threads
  | bool
  | int
  | long
  | float
  | double
  | reference
deriving DecidableEq, Hashable, Repr

namespace ChoiceKind

/-- The kind of value that a source of values with this result type produces. -/
def ofResult : TypeCode → ChoiceKind
  | .boolean => bool
  | .byte | .char | .short | .int => int
  | .long => long
  | .float => float
  | .double => double
  | .reference | .array | .void => reference

/-- The name of the kind. -/
def name : ChoiceKind → String
  | threads => "Threads"
  | bool => "Bool"
  | int => "Int"
  | long => "Long"
  | float => "Float"
  | double => "Double"
  | reference => "Reference"

end ChoiceKind

/-- One value out of a domain. -/
inductive Choice where
  | thread (id : ThreadId)
  | bool (value : Bool)
  | int (value : Int32)
  | long (value : Int64)
  | float (bits : UInt32)
  | double (bits : UInt64)
  | reference (ref : ObjRef)
deriving DecidableEq, Hashable, Repr, Inhabited

namespace Choice

/-- The slots that a data choice takes on the operand stack. -/
def toSlots : Choice → List Slot
  | thread t => [UInt64.ofNat t.index]
  | bool b => [if b then 1 else 0]
  | int v => [Slot.ofInt v]
  | long v => [Slot.ofLong v, 0]
  | float bits => [bits.toUInt64]
  | double bits => [bits, 0]
  | reference r => [r.toSlot]

/-- Do two choices stand for the same value? Floats are compared as numbers, so that the two zeros
agree and no value that is not a number agrees with anything. -/
def sameValue : Choice → Choice → Bool
  | float a, float b => Float32.ofBits a == Float32.ofBits b
  | double a, double b => Float.ofBits a == Float.ofBits b
  | a, b => a == b

end Choice

/-- The values that a generator offers. -/
inductive Domain where
  | threads (ids : List ThreadId)
  | bool
  /-- The ints from `min` to `max`, both included. -/
  | ints (min max : Int32)
  /-- The longs from `min` to `max`, both included. -/
  | longs (min max : Int64)
  | floats (bits : List UInt32)
  | doubles (bits : List UInt64)
  | references (refs : List ObjRef)
deriving DecidableEq, Hashable, Repr, Inhabited

namespace Domain

/-- The kind of the values. -/
def kind : Domain → ChoiceKind
  | threads _ => .threads
  | bool => .bool
  | ints .. => .int
  | longs .. => .long
  | floats _ => .float
  | doubles _ => .double
  | references _ => .reference

/-- The greatest size that is told apart: the full range of longs has one value more. -/
def maxSize : Nat := UInt64.size - 1

/-- The number of integers from `lo` to `hi`. -/
def span (lo hi : Int) : Nat := (hi - lo + 1).toNat

/-- The number of values. -/
def size : Domain → Nat
  | threads ids => ids.length
  | bool => 2
  | ints lo hi => span lo.toInt hi.toInt
  | longs lo hi => min (span lo.toInt hi.toInt) maxSize
  | floats bits => bits.length
  | doubles bits => bits.length
  | references refs => refs.length

/-- The value at a position. -/
def get? (d : Domain) (i : Nat) : Option Choice :=
  if i < d.size then
    match d with
    | threads ids => ids[i]?.map .thread
    | bool => some (.bool (i == 1))
    | ints lo _ => some (.int (Int32.ofInt (lo.toInt + i)))
    | longs lo _ => some (.long (Int64.ofInt (lo.toInt + i)))
    | floats bits => bits[i]?.map .float
    | doubles bits => bits[i]?.map .double
    | references refs => refs[i]?.map .reference
  else none

end Domain

/-- An open decision. -/
structure Generator where
  /-- Names the place at which the decision arose. -/
  id : String
  domain : Domain
  /-- The position of the current choice; none before the first one. -/
  cursor : Option Nat := none
deriving DecidableEq, Repr, Inhabited

namespace Generator

/-- A choice among threads. -/
def ofThreads (id : String) (threads : List ThreadId) : Generator :=
  { id := id, domain := .threads threads }

/-- Is a thread chosen? -/
def isThreadChoice (g : Generator) : Bool := g.domain.kind == .threads

/-- The number of choices. -/
def total (g : Generator) : Nat := g.domain.size

/-- How many choices have been passed, the current one included. -/
def processed (g : Generator) : Nat :=
  match g.cursor with
  | none => 0
  | some i => i + 1

/-- Is there a choice after the current one? -/
def hasMore (g : Generator) : Bool := g.processed < g.total

/-- The current choice. -/
def current (g : Generator) : Option Choice := g.cursor.bind g.domain.get?

/-- The choice at a position, which becomes the current one; nothing changes if there is none. -/
def select (g : Generator) (i : Nat) : Option Choice × Generator :=
  match g.domain.get? i with
  | none => (none, g)
  | some c => (some c, { g with cursor := some i })

/-- The generator at the choice with a position that is counted round and round; nothing changes if
there are no choices. -/
def selectCyclic (g : Generator) (i : Nat) : Generator :=
  if g.total = 0 then g else (g.select (i % g.total)).2

/-- The next choice, which becomes the current one. -/
def advance (g : Generator) : Option Choice × Generator :=
  if g.hasMore then
    (g.domain.get? g.processed, { g with cursor := some g.processed })
  else (none, g)

/-- A random choice, which becomes the current one. An empty domain draws no number. -/
def selectRandom (g : Generator) (rng : Rng) : Option Choice × Generator × Rng :=
  if g.total = 0 then (none, g, rng)
  else
    let (i, rng') := rng.below (UInt64.ofNat g.total)
    let (c, g') := g.select i.toNat
    (c, g', rng')

/-- The generator before its first choice. -/
def reset (g : Generator) : Generator := { g with cursor := none }

end Generator

/-- The values that a native method with no body of its own may return. Ranges and references come
from the arguments of the call; floating-point candidates are listed here. -/
structure ValueSource where
  /-- The candidates for a float result, by their bits. -/
  floats : List UInt32 := []
  /-- The candidates for a double result, by their bits. -/
  doubles : List UInt64 := []
deriving DecidableEq, Hashable, Repr, Inhabited

end Interleave

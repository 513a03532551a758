import Interleave.Method.Basic

/-!
# Source lines

A line table gives a source line to every instruction of a method. Without a table the byte position
of an instruction stands in for its line.

A table is made from entries that name the byte at which a line begins; instructions between two
entries belong to the earlier one. Queries for a range of lines answer with one unbroken run of
instructions, which ends before the first instruction beyond the range.
-/

namespace Interleave.Method

/-- The line of an instruction. -/
def lineOf (m : Method) (i : Instruction) : Nat :=
  (m.lines?.bind (·[i.index]?)).getD i.position

/-- Is the line between those of the first and the last instruction? -/
def includesLine (m : Method) (line : Nat) : Bool :=
  match m.code[0]?, m.code.back? with
  | some first, some last => m.lineOf first ≤ line && line ≤ m.lineOf last
  | _, _ => false

/-- The first and the last entry of the table. -/
def lineBounds? (m : Method) : Option (Nat × Nat) := do
  let lines ← m.lines?
  return (← lines[0]?, ← lines.back?)

/-- Is the line between the first and the last entry of the table? -/
def containsLine (m : Method) (line : Nat) : Bool :=
  match m.lineBounds? with
  | some (first, last) => first ≤ line && line ≤ last
  | none => false

/-- Do the lines from `lo` to `hi` meet those between the first and the last entry of the table? -/
def intersectsLines (m : Method) (lo hi : Nat) : Bool :=
  match m.lineBounds? with
  | some (first, last) => !(hi < first || last < lo)
  | none => false

/-- The indices of the first and the last item that a query has found. -/
structure Span where
  first : Option Nat := none
  last : Option Nat := none
deriving DecidableEq, Repr, Inhabited

namespace Span

/-- The item with an index is found. -/
def extend (s : Span) (i : Nat) : Span :=
  { first := s.first.orElse fun _ => some i, last := some i }

/-- The items from the first that was found to the last. -/
def slice {α : Type} (s : Span) (items : List α) : List α :=
  match s.first, s.last with
  | some first, some last => (items.take (last + 1)).drop first
  | _, _ => []

end Span

/-- Goes through items, the first of which has index `i`, in search of lines from `lo` to `hi`, and
ends in front of the first line beyond `hi`. -/
def findSpan {α : Type} (line : α → Nat) (lo hi : Nat) : List α → Nat → Span → Span
  | [], _, s => s
  | a :: items, i, s =>
    if lo ≤ line a ∧ line a ≤ hi then findSpan line lo hi items (i + 1) (s.extend i)
    else if hi < line a then s
    else findSpan line lo hi items (i + 1) s

/-- The instructions on the lines from `lo` to `hi`. -/
def instructionsForLines (m : Method) (lo hi : Nat) : List Instruction :=
  (findSpan m.lineOf lo hi m.code.toList 0 {}).slice m.code.toList

/-- The instructions on a line. -/
def instructionsForLine (m : Method) (line : Nat) : List Instruction :=
  m.instructionsForLines line line

/-! ## Making a table -/

/-- A table in which no line is known yet. -/
def withBlankLines (m : Method) : Method :=
  { m with lines? := some (Array.replicate m.code.size 0) }

/-- Sets the line of the instruction with an index. -/
def setLine (m : Method) (index line : Nat) : Method :=
  { m with lines? := m.lines?.map (·.setIfInBounds index line) }

/-- Sets the line of the instruction that starts at a byte; an entry at no instruction is
dropped. -/
def setLineAt (m : Method) (position line : Nat) : Method :=
  match m.code.findIdx? (·.position == position) with
  | some i => m.setLine i line
  | none => m

/-- Gives every blank entry the line before it. -/
def fillLines (last : Nat) : List Nat → List Nat
  | [] => []
  | 0 :: ls => last :: fillLines last ls
  | l :: ls => l :: fillLines l ls

/-- The table with its gaps filled. -/
def withFilledLines (m : Method) : Method :=
  { m with lines? := m.lines?.map fun ls => (fillLines (ls.getD 0 0) ls.toList).toArray }

end Interleave.Method

import Interleave.Decimal
import Interleave.Search.Basic

/-!
# Reports

The lines in which the result of a search is written: the counters, each violation with the choices
that led to it, and last a tag that scripts can match on.
-/

namespace Interleave

/-- A choice with the kinds of its parts spelled out. -/
def Choice.longText : Choice → String
  | thread t => "Thread(" ++ t.longText ++ ")"
  | bool b => "Bool(" ++ (if b then "true" else "false") ++ ")"
  | int v => "Int(" ++ toString v.toInt ++ ")"
  | long v => "Long(" ++ toString v.toInt ++ ")"
  | float bits => "Float(" ++ Decimal.single.text bits.toNat ++ ")"
  | double bits => "Double(" ++ Decimal.double.text bits.toNat ++ ")"
  | reference r => "Reference(" ++ r.longText ++ ")"

namespace Report

/-- The tag of a search that found nothing wrong. -/
def okTag : String := "[STRAND:OK]"

/-- The tag of a search that found a property violated. -/
def violationTag (property : String) : String := "[STRAND:VIOLATION:" ++ property ++ "]"

/-- A text filled with blanks up to a width. -/
def padded (width : Nat) (text : String) : String :=
  text ++ String.ofList (List.replicate (width - text.length) ' ')

/-- The line of a choice on a trail. -/
def trailLine (position : Nat) (r : ChoiceRecord) : String :=
  "  #" ++ padded 3 (toString position) ++ " " ++ padded 20 r.generator ++ " " ++ r.choice.longText
    ++ " (" ++ toString (r.index + 1) ++ "/" ++ toString r.total ++ ")"

/-- The lines of the choices that led to a violation. -/
def trailLines (v : Violation) : List String := v.trail.toList.mapIdx trailLine

/-- The lines of the counters. -/
def counterLines (strategy : String) (s : SearchStats) : List String :=
  ["search:      " ++ strategy,
   "states:      " ++ toString s.newStates ++ " new, " ++ toString s.revisitedStates
     ++ " revisited, " ++ toString s.endStates ++ " end",
   "transitions: " ++ toString s.transitions ++ " (max depth " ++ toString s.maxDepth ++ ", "
     ++ toString s.paths ++ " paths)",
   "moves:       " ++ toString s.backtracks ++ " backtracks, " ++ toString s.restores
     ++ " restores, " ++ toString s.constraintHits ++ " constraint hits"]

/-- The lines of a violation, with its trail if wanted. -/
def violationLines (trails : Bool) (v : Violation) : List String :=
  ("violation:   " ++ v.text) :: if trails then trailLines v else []

/-- The last line. -/
def tag (r : SearchReport) : String :=
  match r.violations with
  | [] => okTag
  | v :: _ => violationTag v.property

/-- All lines of a report, with trails if wanted. -/
def lines (r : SearchReport) (trails : Bool) : List String :=
  counterLines r.strategy r.stats ++ r.violations.flatMap (violationLines trails) ++ [tag r]

end Report

end Interleave

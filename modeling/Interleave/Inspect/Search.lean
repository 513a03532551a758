import Interleave.Inspect.State
import Interleave.Search.Footprint

/-!
# Descriptions of searches

What is shown of the counters of a search, of what it found, and of how the heap grew.
-/

namespace Interleave

instance : Inspect SearchStats where
  inspect s := .record [("transitions", s.transitions), ("new", s.newStates),
    ("revisited", s.revisitedStates), ("end", s.endStates), ("paths", s.paths),
    ("backtracks", s.backtracks), ("restores", s.restores), ("constraints", s.constraintHits),
    ("max_depth", s.maxDepth)]

/-- A violation, with its trail if wanted. -/
def Violation.describe (withTrail : Bool) (v : Violation) : Datum :=
  .record [("property", v.property), ("message", v.message), ("depth", v.depth),
    ("trail", (if withTrail then v.trail else #[] : Array ChoiceRecord))]

/-- Violations, the first `trails` of them with their trails. -/
def Violation.describeAll (trails : Nat) (vs : List Violation) : List Datum :=
  vs.mapIdx fun i v => v.describe (i < trails)

/-- The fields of a report, where the first `trails` violations come with their trails. -/
def SearchReport.fields (trails : Nat) (r : SearchReport) : List (String × Datum) :=
  [("strategy", r.strategy), ("ok", r.isOk), ("stats", r.stats),
   ("violations", Violation.describeAll trails r.violations)]

namespace Search.Footprint

/-- The mean of the samples, by its bits. -/
def averageText? (samples : List Nat) : Option String :=
  (average? samples).map fun x => doubleBitsText x.toBits

/-- The samples and what follows from them. -/
def describe (samples : List Nat) : Datum :=
  .record [("len", samples.length), ("empty", samples.isEmpty), ("max", max? samples),
    ("average", averageText? samples), ("samples", samples)]

end Search.Footprint

end Interleave

import Interleave.Search.Basic

/-!
# Heap footprint

How many objects there were in the states that a search reached, looking at every so many
transitions.
-/

namespace Interleave.Search.Footprint

/-- The heap sizes of the states that a search has told its listeners about. -/
def heapSizes (notices : List SearchNotice) : List Nat :=
  notices.filterMap fun
    | .advanced m => some m.kernel.heap.size
    | _ => none

/-- Every item that has `gap` items between itself and the last one taken, where `skip` items are
still to be passed over. -/
def every {α : Type} (gap : Nat) : Nat → List α → List α
  | _, [] => []
  | 0, x :: xs => x :: every gap gap xs
  | skip + 1, _ :: xs => every gap skip xs

/-- The sizes at every `interval`-th transition; an interval of zero counts as one. -/
def samples (interval : Nat) (notices : List SearchNotice) : List Nat :=
  every (interval - 1) (interval - 1) (heapSizes notices)

/-- The greatest sample. -/
def max? (samples : List Nat) : Option Nat := samples.max?

/-- The mean of the samples. -/
def average? (samples : List Nat) : Option Float :=
  if samples.isEmpty then none
  else some (Float.ofNat (sumOf samples) / Float.ofNat samples.length)

end Interleave.Search.Footprint

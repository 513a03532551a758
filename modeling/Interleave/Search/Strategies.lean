import Interleave.Search.BestFirst
import Interleave.Search.DepthFirst
import Interleave.Search.Sampling

/-!
# The strategies

All ways to search, to be picked by name.
-/

namespace Interleave.Search

/-- The strategies. -/
def strategies : List Strategy :=
  [depthFirst, sampling, bestFirst .breadthFirst, bestFirst .preferSwitch]

/-- The strategy of a name. -/
def Strategy.ofName? (name : String) : Option Strategy := strategies.find? (·.name == name)

end Interleave.Search

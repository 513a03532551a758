import Interleave.Search.Basic

/-!
# Depth-first search

Tries every choice of every choice point it reaches, going back to the nearest choice point with an
untried choice when a path ends. The choice points of the current path are kept on a stack, each
with the state in front of it. That state need not be restored for the first choice, since the
machine is still in it.
-/

namespace Interleave.Search.DepthFirst

/-- A choice point on the current path. -/
structure Branch where
  /-- The state in front of it. -/
  snapshot : Snapshot
  generator : Generator
  /-- Has none of its choices been tried yet? -/
  fresh : Bool := true
deriving Inhabited

/-- The current state as a choice point. -/
def branch (s : Search) (g : Generator) : Branch :=
  { snapshot := s.machine.snapshot, generator := g }

/-- One round, on the stack of choice points with the nearest one first. -/
def round (bound : Option Nat) : List Branch → Action (List Branch ⊕ Unit)
  | [] => pure (.inr ())
  | top :: rest => do
    if (← get).done then return .inr ()
    match top.generator.advance with
    | (none, _) =>
      if top.generator.total = 0 then throw (.emptyChoice top.generator.id)
      return .inl rest
    | (some _, g) =>
      if !top.fresh then modify (·.backtrack top.snapshot)
      let stack := { top with generator := g, fresh := false } :: rest
      let _ ← forward g
      match (← get).arrive bound with
      | (.stopped, s) =>
        set s
        return .inr ()
      | (.closed, s) =>
        set s
        return .inl stack
      | (.opened g, s) =>
        set s
        return .inl (branch s g :: stack)

/-- Searches from the current state. -/
def search (rounds : Nat) : Action Unit := do
  let bound := (← get).depthBound
  match (← get).takeChoicePoint with
  | (none, s) => set s.finishWithoutChoice
  | (some root, s) =>
    let s := (s.visit root).2
    set s
    Loop.run (round bound) .budgetExhausted rounds [branch s root]

end Interleave.Search.DepthFirst

namespace Interleave

/-- Depth-first search. -/
def Search.depthFirst : Search.Strategy := { name := "dfs", run := Search.DepthFirst.search }

end Interleave

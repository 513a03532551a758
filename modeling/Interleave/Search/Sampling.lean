import Interleave.Search.Basic

/-!
# Sampling

Runs one path after another, each from the initial state and with a random choice at every choice
point, until the program ends or the path reaches its bound. Nothing is stored but the initial
state.
-/

namespace Interleave.Search.Sampling

/-- Ends a path or finds the generator with which it goes on. -/
def proceed (s : Search) (bound : Option Nat) : Option Generator × Search :=
  if s.done then (none, s)
  else if s.hasReached bound then (none, s.cutOff)
  else s.takeChoicePoint

/-- One round, on the generator to choose from next and the source of random numbers. -/
def round (bound : Option Nat) (init : Snapshot) (root : Generator) :
    Generator × Rng → Action ((Generator × Rng) ⊕ Unit)
  | (g, rng) => do
    match g.selectRandom rng with
    | (none, _, _) => throw (.emptyChoice g.id)
    | (some _, g, rng) =>
      let _ ← forward g
      match proceed (← get).checkProperties.2 bound with
      | (some next, s) =>
        set s
        return .inl (next, rng)
      | (none, s) =>
        let s := s.pathFinished
        if s.done || s.config.pathLimit < s.stats.paths then
          set s
          return .inr ()
        else
          set (s.restore init)
          return .inl (root, rng)

/-- Samples paths from the current state. -/
def search (rounds : Nat) : Action Unit := do
  let s ← get
  let bound := s.depthBound
  let init := s.machine.snapshot
  match s.takeChoicePoint with
  | (none, s) => set s.finishWithoutChoice
  | (some root, s) =>
    set s
    Loop.run (round bound init root) .budgetExhausted rounds (root, ⟨s.config.seed⟩)

end Interleave.Search.Sampling

namespace Interleave

/-- Random sampling. -/
def Search.sampling : Search.Strategy := { name := "random", run := Search.Sampling.search }

end Interleave

import Interleave.Machine.Transition

/-!
# Walks

A walk moves a machine along one path, with a policy in place of a search: it takes the pending
generator, picks one of its choices, runs the transition, and so on until nothing is pending.
-/

namespace Interleave

/-- How a walk picks among the choices of a generator. -/
inductive WalkPolicy where
  | first
  | last
  /-- The last choice and the first one in turn. -/
  | zigzag
  /-- A random choice. -/
  | random (rng : Rng)
  /-- The choices at these positions, counted round and round; then the first ones. -/
  | listed (positions : List Nat)
deriving DecidableEq, Repr

/-- Picks a choice in a round of a walk. -/
def WalkPolicy.pick (round : Nat) (g : Generator) : WalkPolicy → Generator × WalkPolicy
  | first => (g.selectCyclic 0, first)
  | last => (g.selectCyclic (g.total - 1), last)
  | zigzag => (g.selectCyclic (if round % 2 = 0 then g.total - 1 else 0), zigzag)
  | random rng =>
    let (_, g, rng) := g.selectRandom rng
    (g, random rng)
  | listed positions => (g.selectCyclic (positions[round]?.getD 0), listed positions)

/-- Why a walk stopped. -/
inductive WalkEnd where
  /-- Nothing was pending, or the walk was as long as it was to be. -/
  | finished
  /-- A generator had no choices. -/
  | emptyChoice (generator : String)
  | fault (cause : Fault)
deriving DecidableEq, Repr

/-- The steps of a walk, and why it stopped. -/
structure Walk where
  /-- The choices taken, and how their transitions ended. -/
  steps : List (ChoiceRecord × TransitionEnd) := []
  /-- Why it stopped. -/
  stop : WalkEnd := .finished
deriving DecidableEq, Repr

namespace Machine

/-- Walks for at most this many rounds, the first of which has the given number. -/
def walk (round : Nat) (policy : WalkPolicy) : Nat → Machine → Walk × Machine
  | 0, m => ({}, m)
  | n + 1, m =>
    match m.takePending with
    | (none, m) => ({}, m)
    | (some g, m) =>
      let (g, policy) := policy.pick round g
      match g.current with
      | none => ({ stop := .emptyChoice g.id }, m)
      | some c =>
        match transition g m with
        | .error e m => ({ stop := .fault e }, m)
        | .ok e m =>
          let (rest, m) := walk (round + 1) policy n m
          ({ rest with steps := (.of g c, e) :: rest.steps }, m)

/-- Takes the choices at these positions, counted round and round, one after another. Positions for
which nothing is pending are passed over. -/
def follow : List Nat → Action Unit
  | [] => pure ()
  | i :: rest => do
    let (g, m) := (← get).takePending
    set m
    match g with
    | none => pure ()
    | some g =>
      let _ ← transition (g.selectCyclic i)
    follow rest

end Machine

end Interleave

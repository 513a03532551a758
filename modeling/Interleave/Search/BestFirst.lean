import Interleave.Search.Basic
import Std.Data.TreeMap

/-!
# Best-first search

Every choice of an expanded choice point becomes an entry of a queue, together with the state in
front of it. The entry with the lowest priority is tried next, and among those the one that was
queued first. A heuristic decides the priorities; it may keep a state of its own.
-/

namespace Interleave.Search

/-- Assigns priorities to choices; lower ones are tried first. -/
structure Heuristic (α : Type) where
  /-- Its name, which is that of the search. -/
  name : String
  /-- What it remembers at the start. -/
  start : α
  /-- The priority of a choice from the state a machine is in. -/
  priority : α → Machine → Generator → Choice → Int × α

namespace Heuristic

/-- Shorter paths first. -/
def breadthFirst : Heuristic Unit where
  name := "bfs"
  start := ()
  priority _ m _ _ := (m.depth, ())

/-- How many choices of a trail kept the thread that had been chosen before, beginning with the last
thread chosen so far. -/
def keptAfter (last : Option ThreadId) : List ChoiceRecord → Nat
  | [] => 0
  | r :: rs =>
    match r.choice with
    | .thread t => (if last = some t then 1 else 0) + keptAfter (some t) rs
    | _ => keptAfter last rs

/-- How many choices among threads on the current path kept the thread. -/
def keptThread (m : Machine) : Nat := keptAfter none m.path.trail.toList

/-- Does a choice keep the thread that runs? -/
def keeps (m : Machine) : Choice → Nat
  | .thread t => if t = m.current then 1 else 0
  | _ => 0

/-- Paths with more switches between threads first. -/
def preferSwitch : Heuristic Unit where
  name := "switch"
  start := ()
  priority _ m _ c := (keptThread m + keeps m c, ())

end Heuristic

namespace BestFirst

/-- The place of an entry in the queue: its priority, and how many entries were queued before it. -/
abbrev Rank := Int × Nat

/-- Lower priorities come first, and of equal ones the entry that was queued first. -/
abbrev Rank.order : Rank → Rank → Ordering := compareLex (compareOn Prod.fst) (compareOn Prod.snd)

/-- A choice that is yet to be tried. -/
structure Entry where
  /-- The state in front of it. -/
  snapshot : Snapshot
  /-- The generator with the choice selected. -/
  generator : Generator
deriving Inhabited

/-- What the loop carries. -/
structure Queue (α : Type) where
  /-- The entries, each at its rank. -/
  entries : Std.TreeMap Rank Entry Rank.order := {}
  /-- How many entries have been queued. -/
  count : Nat := 0
  /-- What the heuristic remembers. -/
  memory : α
  /-- Is the machine still in front of the first choice point? -/
  atRoot : Bool := true

variable {α : Type}

/-- Queues one choice of a generator. -/
def Queue.add (h : Heuristic α) (s : Search) (g : Generator) (q : Queue α) (i : Nat) : Queue α :=
  match g.select i with
  | (none, _) => q
  | (some c, g) =>
    let (priority, memory) := h.priority q.memory s.machine g c
    let e : Entry := { snapshot := s.machine.snapshot, generator := g }
    { q with entries := q.entries.insert (priority, q.count) e, count := q.count + 1, memory }

/-- Queues the choices of a generator that is pending in the current state. -/
def Queue.expand (h : Heuristic α) (g : Generator) (q : Queue α) : Action (Queue α) := do
  if g.total = 0 then throw (.emptyChoice g.id)
  return (List.range g.total).foldl (Queue.add h (← get) g) q

/-- One round. -/
def round (h : Heuristic α) (bound : Option Nat) (q : Queue α) : Action (Queue α ⊕ Unit) := do
  match q.entries.minEntry? with
  | none => return .inr ()
  | some (rank, e) =>
    if (← get).done then return .inr ()
    if !q.atRoot then modify (·.restore e.snapshot)
    let q := { q with entries := q.entries.erase rank, atRoot := false }
    let _ ← forward e.generator
    match (← get).arrive bound with
    | (.stopped, s) =>
      set s
      return .inr ()
    | (.closed, s) =>
      set s
      return .inl q
    | (.opened g, s) =>
      set s
      return .inl (← q.expand h g)

/-- Searches from the current state. -/
def search (h : Heuristic α) (rounds : Nat) : Action Unit := do
  let bound := (← get).depthBound
  match (← get).takeChoicePoint with
  | (none, s) => set s.finishWithoutChoice
  | (some root, s) =>
    set (s.visit root).2
    let q ← Queue.expand h root { memory := h.start }
    Loop.run (round h bound) .budgetExhausted rounds q

end BestFirst

/-- Best-first search by a heuristic. -/
def bestFirst {α : Type} (h : Heuristic α) : Strategy :=
  { name := h.name, run := BestFirst.search h }

end Interleave.Search

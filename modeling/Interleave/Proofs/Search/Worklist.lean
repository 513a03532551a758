import Interleave.Proofs.Search.Points
import Mathlib.Algebra.BigOperators.Group.Finset.Basic
import Mathlib.Data.List.Forall2

/-!
# Searches that match states

Strategies differ in the order in which they try the choices that are left, but not in what comes of
a choice: a choice point whose key is new is expanded, so that its choices are left to be tried, and
one whose key is known is not.

`Search.Progress` says how far a search has come, whatever its strategy. What is still to be done is
bounded by `Search.debt`, which counts the keys that are yet to be found with all their choices.
-/

namespace Interleave

open Relation

namespace Search

/-- A search that expands choice points with different keys. -/
structure Matching (s : Search) : Prop extends s.Persistent where
  matching : s.config.stateMatching = true
  unlimited : s.config.depthLimit = 0

/-- How far the search `s` has come that was begun as `start`: it has expanded the points and tried
some of their choices, and the others are left. -/
structure Progress (start s : Search) (points : List Point) (tried left : List Pick) : Prop where
  task : SameTask start s
  run : Machine.SameRun start.machine s.machine
  /-- No state was checked that is yet to come. -/
  checked : ∀ c, s.checkedAt = some c → c ≤ s.stats.transitions
  /-- The points are reached. -/
  reached : ∀ x ∈ points, start.machine.Reaches x.state ∧ x.state.pending = some x.generator
  /-- The first choice point is among them. -/
  root : ∀ g, start.machine.pending = some g → start.machine.key g ∈ points.map Point.key
  /-- They have different keys. -/
  distinct : (points.map Point.key).Nodup
  /-- Their keys are known. -/
  visited : ∀ k, k ∈ s.visited ↔ k ∈ points.map Point.key
  /-- Each of their choices has been tried, once, or is left. -/
  picks : (tried ++ left).Perm (points.flatMap Point.picks)
  /-- The choice points behind the choices that were tried are known. -/
  known : ∀ k ∈ tried, ∀ g, k.target.pending = some g → k.target.key g ∈ points.map Point.key
  /-- The points were counted. -/
  newStates : s.stats.newStates = points.length
  /-- The choices were counted. -/
  transitions : s.stats.transitions = tried.length
  /-- What is wrong behind them has been found. -/
  violations : s.violations.toList = tried.flatMap (·.target.failures)
  /-- Listeners were told of the states behind them. -/
  advanced : s.listening = true →
    List.Forall₂ (Machine.Alike True) s.advanced (tried.map Pick.target)

variable {start s s' : Search} {points : List Point} {tried left left' : List Pick} {k : Pick}
  {snapshot : Snapshot}

namespace Progress

/-- The order of the choices that are left does not matter. -/
theorem perm (h : Progress start s points tried left) (hleft : left'.Perm left) :
    Progress start s points tried left' :=
  { h with picks := (hleft.append_left tried).trans h.picks }

/-- Going back to a state changes nothing. -/
theorem returned (h : Progress start s points tried left) (hback : Returned s snapshot s') :
    Progress start s' points tried left where
  task := IsTrans.trans _ _ _ h.task hback.task
  run := by
    rw [hback.machine]
    exact ⟨h.run.program, h.run.config, h.run.hostCall⟩
  checked := by
    rw [hback.checkedAt, hback.transitions]
    exact h.checked
  reached := h.reached
  root := h.root
  distinct := h.distinct
  visited := by
    rw [hback.visited]
    exact h.visited
  picks := h.picks
  known := h.known
  newStates := hback.newStates.trans h.newStates
  transitions := hback.transitions.trans h.transitions
  violations := by rw [hback.violations, h.violations]
  advanced := by
    rw [hback.task.listening, hback.advanced]
    exact h.advanced

/-- A search that has come somewhere goes on like it began. -/
theorem matching (hstart : start.Matching) (h : Progress start s points tried left) :
    s.Matching where
  toPersistent := hstart.toPersistent.of_sameTask h.task h.checked
  matching := by rw [h.task.config, hstart.matching]
  unlimited := by rw [h.task.config, hstart.unlimited]

/-- The machine of the search runs the same program as it did in front of a choice point. -/
theorem sameRun {x : Point} (hready : start.machine.IsReady)
    (h : Progress start s points tried left) (hx : x ∈ points) :
    Machine.SameRun x.state s.machine :=
  IsTrans.trans _ _ _ (Machine.SameRun.of_reaches hready (h.reached x hx).1).symm h.run

/-- A choice that is left is one of a choice point that was expanded. -/
theorem point_of_left (h : Progress start s points tried left) (hk : k ∈ left) :
    k.point ∈ points ∧ k.index < k.point.generator.total := by
  have hmem : k ∈ points.flatMap Point.picks :=
    h.picks.mem_iff.mp (List.mem_append_right tried hk)
  obtain ⟨x, hx, hkx⟩ := List.mem_flatMap.mp hmem
  obtain ⟨rfl, hi⟩ := Point.mem_picks.mp hkx
  exact ⟨hx, hi⟩

/-- The state behind a choice that is left is reached. -/
theorem reaches_target (hfails : start.machine.NeverFails)
    (h : Progress start s points tried left) (hk : k ∈ left) :
    start.machine.Reaches k.target ∧ ∃ e,
      k.point.state.transition (k.point.generator.select k.index).2 = .ok e k.target := by
  obtain ⟨hx, hi⟩ := h.point_of_left hk
  obtain ⟨hreached, hpending⟩ := h.reached _ hx
  obtain ⟨e, n, hn⟩ := hfails.runs _ _ _ hreached hpending hi
  rw [Pick.target_eq hn]
  exact ⟨hreached.tail ⟨hpending, hi, hn⟩, e, hn⟩

/-- When no choice is left, nothing is missed. -/
theorem closed (hfails : start.machine.NeverFails) (h : Progress start s points tried []) :
    Closed start.machine points where
  reached := h.reached
  root := h.root
  runs x hx k hk := by
    obtain ⟨rfl, hi⟩ := Point.mem_picks.mp hk
    obtain ⟨hreached, hpending⟩ := h.reached _ hx
    exact hfails.runs _ _ _ hreached hpending hi
  known x hx k hk := by
    have hmem : k ∈ tried ++ [] := h.picks.mem_iff.mpr (List.mem_flatMap.mpr ⟨x, hx, hk⟩)
    rw [List.append_nil] at hmem
    exact h.known k hmem

/-! ## One more choice -/

variable {s₁ : Search} {a : Arrival} {n : Machine} {e : TransitionEnd}

/-- A choice has been tried, and the choice points that were found by that are expanded. -/
theorem extend (h : Progress start s points tried (k :: left)) (found : List Point)
    (hrun : Machine.SameRun s.machine n) (hn : n.Alike True k.target) (hmoved : Moved s e n s₁)
    (hfailures : s₁.failures = k.target.failures) (harrived : Arrived s₁ none a s')
    (hreached : ∀ x ∈ found, start.machine.Reaches x.state ∧ x.state.pending = some x.generator)
    (hfresh : ((points ++ found).map Point.key).Nodup)
    (hvisited : ∀ y, y ∈ s'.visited ↔ y ∈ s.visited ∨ y ∈ found.map Point.key)
    (hknown : ∀ g, k.target.pending = some g →
      k.target.key g ∈ (points ++ found).map Point.key)
    (hnew : s'.stats.newStates = s.stats.newStates + found.length)
    (htransitions : s'.stats.transitions = s₁.stats.transitions) :
    Progress start s' (points ++ found) (tried ++ [k]) (found.flatMap Point.picks ++ left) where
  task := IsTrans.trans _ _ _ h.task (IsTrans.trans _ _ _ hmoved.task harrived.task)
  run := by
    obtain ⟨pending, hmachine⟩ := harrived.machine
    have hk : Machine.SameRun start.machine n := IsTrans.trans _ _ _ h.run hrun
    rw [hmachine, hmoved.machine]
    exact ⟨hk.program, hk.config, hk.hostCall⟩
  checked c hc := by
    rw [harrived.checkedAt] at hc
    cases hc
    exact Nat.le_of_eq htransitions.symm
  reached x hx := (List.mem_append.mp hx).elim (h.reached x) (hreached x)
  root g hg := by
    rw [List.map_append]
    exact List.mem_append_left _ (h.root g hg)
  distinct := hfresh
  visited y := by
    rw [hvisited, h.visited, List.map_append, List.mem_append]
  picks := by
    rw [List.flatMap_append, List.append_assoc, List.singleton_append]
    refine List.Perm.trans ?_ (h.picks.append_right _)
    rw [List.append_assoc, List.cons_append]
    exact (List.perm_append_comm.cons k).append_left tried
  known j hj g hg := by
    rcases List.mem_append.mp hj with hj | hj
    · rw [List.map_append]
      exact List.mem_append_left _ (h.known j hj g hg)
    · rw [List.mem_singleton] at hj
      subst hj
      exact hknown g hg
  newStates := by rw [hnew, h.newStates, List.length_append]
  transitions := by
    rw [htransitions, hmoved.stats, List.length_append]
    exact congrArg (· + 1) h.transitions
  violations := by
    rw [harrived.violations, hmoved.violations, h.violations, hfailures, List.flatMap_append]
    simp
  advanced hl := by
    have hlistening : s.listening = true := by
      rw [← hmoved.task.listening, ← harrived.task.listening]
      exact hl
    rw [harrived.advanced, hmoved.advanced, hlistening, if_pos rfl, List.map_append]
    exact List.rel_append (h.advanced hlistening) (.cons hn .nil)

/-- **One more choice.** From the state in front of a choice that is left, the search tries the
choice. The choice point behind it is expanded if its key is new, and else nothing is added to what
is left. -/
theorem step (hstart : start.Matching) (hready : start.machine.IsReady)
    (hfails : start.machine.NeverFails) (h : Progress start s points tried (k :: left))
    (halike : s.machine.Alike True { k.point.state with pending := none }) :
    ∃ e s₁, forward (k.point.generator.select k.index).2 s = .ok e s₁ ∧
      (((s₁.arrive none).1 = .closed ∧
          Progress start (s₁.arrive none).2 points (tried ++ [k]) left) ∨
        ∃ x : Point, (s₁.arrive none).1 = .opened x.generator ∧
          (s₁.arrive none).2.machine.Alike True { x.state with pending := none } ∧
          x.key ∉ points.map Point.key ∧
          Progress start (s₁.arrive none).2 (points ++ [x]) (tried ++ [k]) (x.picks ++ left)) := by
  obtain ⟨hreached, e, htransition⟩ := h.reaches_target hfails List.mem_cons_self
  have hmatching := h.matching hstart
  obtain ⟨n, s₁, hforward, hn, hmoved, hfailures, harrived⟩ :=
    step_eq none hmatching.toPersistent halike htransition
  refine ⟨e, s₁, hforward, ?_⟩
  have hmachine : s₁.machine = n := hmoved.machine
  have hrun : Machine.SameRun s.machine n := by
    have hbehind := Machine.SameRun.of_reaches hready hreached
    exact IsTrans.trans _ _ _ (IsTrans.trans _ _ _ h.run.symm hbehind) hn.sameRun
  have hkey : ∀ g, s₁.stateKey g = k.target.key g := by
    intro g
    rw [← hn.key g, ← hmachine]
    rfl
  have hnewStates : s₁.stats.newStates = s.stats.newStates := by rw [hmoved.stats]
  -- a choice behind which no new key is found
  have hclosed : (s₁.arrive none).2.visited = s₁.visited →
      (s₁.arrive none).2.stats.newStates = s₁.stats.newStates →
      (s₁.arrive none).2.stats.transitions = s₁.stats.transitions →
      (∀ g, k.target.pending = some g → k.target.key g ∈ points.map Point.key) →
      Progress start (s₁.arrive none).2 points (tried ++ [k]) left := by
    intro hvisited hnew htransitions hknown
    have hextend := h.extend [] hrun hn hmoved hfailures harrived (by simp)
      (by simpa using h.distinct) (fun y => by simp [hvisited, hmoved.visited])
      (by simpa using hknown) (hnew.trans hnewStates) htransitions
    simpa using hextend
  have hsettled := harrived.settled
  rw [hmachine] at hsettled
  generalize ha : (s₁.arrive none).1 = a at hsettled
  cases hsettled with
  | cut reached => cases reached
  | ended _ pending stats visited =>
    rw [hn.pending] at pending
    refine .inl ⟨rfl, hclosed visited (by rw [stats]) (by rw [stats]) fun g hg => ?_⟩
    rw [pending] at hg
    cases hg
  | @revisited _ g _ pending _ seen stats visited =>
    rw [hn.pending] at pending
    refine .inl ⟨rfl, hclosed visited (by rw [stats]) (by rw [stats]) fun g' hg' => ?_⟩
    rw [pending] at hg'
    cases hg'
    rwa [← h.visited, ← hkey, ← hmoved.visited, ← Std.HashSet.contains_iff_mem]
  | @opened _ g _ pending unseen stats visited =>
    have hpending := hn.pending ▸ pending
    have hmatches : s₁.config.stateMatching = true := by
      rw [hmoved.task.config, hmatching.matching]
    have hnew : k.target.key g ∉ points.map Point.key := by
      rw [← h.visited, ← hkey, ← hmoved.visited, ← Std.HashSet.contains_iff_mem, unseen hmatches]
      exact Bool.false_ne_true
    refine .inr ⟨⟨k.target, g⟩, rfl, ?_, hnew, ?_⟩
    · rw [harrived.opened g ha, hmachine]
      exact hn.withoutPending
    · have hextend := h.extend [⟨k.target, g⟩] hrun hn hmoved hfailures harrived
        (by simpa using ⟨hreached, hpending⟩) ?_ ?_ ?_ ?_ ?_
      · simpa using hextend
      · rw [List.map_append]
        refine List.nodup_append.mpr ⟨h.distinct, List.nodup_singleton _, ?_⟩
        rintro a ha b hb rfl
        obtain rfl : a = (⟨k.target, g⟩ : Point).key := by simpa using hb
        exact hnew ha
      · intro y
        rw [visited, if_pos hmatches, Std.HashSet.mem_insert, hkey, hmoved.visited, or_comm]
        refine or_congr_right ?_
        rw [beq_iff_eq, List.map_singleton, List.mem_singleton]
        exact eq_comm
      · intro g' hg'
        rw [hpending] at hg'
        cases hg'
        simp [Point.key]
      · rw [stats, ← hnewStates]
        rfl
      · rw [stats]

/-- A search that begins at a choice point expands it, and goes on from there. -/
theorem init {m : Machine} {config : SearchConfig} {listening : Bool} {g : Generator}
    (hstart : ({ machine := m, config, listening } : Search).Matching) (hp : m.pending = some g)
    (hs : Told { machine := m, config, listening } s) :
    ∃ t, s.depthBound = none ∧ s.takeChoicePoint = (some g, t) ∧
      (t.visit g).2.machine.Alike True { m with pending := none } ∧
      Progress { machine := m, config, listening } (t.visit g).2 [⟨m, g⟩] []
        (Point.picks ⟨m, g⟩) := by
  have htaken := takeChoicePoint_of_some (s := s) (g := g) (hs.machine ▸ hp)
  rw [hs.machine] at htaken
  refine ⟨_, ?_, htaken, ?_, ?_⟩
  · unfold depthBound
    rw [if_pos (hs.task.config ▸ hstart.unlimited)]
  · rw [machine_visit]
    exact .refl _
  · rcases visit_eq ({ s with machine := { m with pending := none } } : Search) g with
      ⟨-, hseen, -⟩ | ⟨-, hvisit⟩
    · rw [show ({ s with machine := { m with pending := none } } : Search).visited = {} from
        hs.visited] at hseen
      simp at hseen
    · rw [hvisit]
      have hmatching : s.config.stateMatching = true := by
        rw [hs.task.config]
        exact hstart.matching
      exact {
        task := ⟨hs.task.config, hs.task.properties, hs.task.listening, hs.task.done⟩
        run := ⟨rfl, rfl, rfl⟩
        checked := fun c hc => by
          rw [show s.checkedAt = none from hs.checkedAt] at hc
          cases hc
        reached := fun x hx => by
          rw [List.mem_singleton] at hx
          rw [hx]
          exact ⟨.refl, hp⟩
        root := fun g' hg' => by
          rw [show m.pending = some g' from hg', Option.some.injEq] at hp
          rw [hp]
          exact List.mem_singleton.mpr rfl
        distinct := List.nodup_singleton _
        visited := fun y => by
          show y ∈ (if s.config.stateMatching = true then s.visited.insert (m.key g)
            else s.visited) ↔ _
          rw [if_pos hmatching, Std.HashSet.mem_insert, show s.visited = {} from hs.visited,
            beq_iff_eq, List.map_singleton, List.mem_singleton]
          simp only [Std.HashSet.not_mem_empty, or_false]
          exact eq_comm
        picks := by
          rw [List.flatMap_singleton]
          exact .refl _
        known := fun k hk => absurd hk List.not_mem_nil
        newStates := by
          show s.stats.newStates + 1 = 1
          rw [hs.stats]
        transitions := by
          show s.stats.transitions = 0
          rw [hs.stats]
        violations := by
          show s.violations.toList = []
          rw [hs.violations]
        advanced := fun _ => by
          show List.Forall₂ _ s.advanced []
          rw [hs.advanced]
          exact .nil }

end Progress

/-! ## What is still to be done -/

/-- How many rounds the keys that are yet to be found can take: one for each of their choices, and
one more for each key. -/
def debt (ks : Finset StateKey) (points : List Point) : Nat :=
  ∑ k ∈ ks with k ∉ points.map Point.key, (k.domain.size + 1)

/-- A key that is found pays for its choices. -/
theorem debt_append {ks : Finset StateKey} {x : Point} (hx : x.key ∈ ks)
    (hnew : x.key ∉ points.map Point.key) :
    debt ks points = debt ks (points ++ [x]) + (x.generator.total + 1) := by
  have hfound : (ks.filter fun k => k ∉ (points ++ [x]).map Point.key) =
      (ks.filter fun k => k ∉ points.map Point.key).erase x.key := by
    ext k
    simp only [List.map_append, List.map_singleton, List.mem_append, List.mem_singleton, not_or,
      Finset.mem_filter, Finset.mem_erase]
    tauto
  have hmem : x.key ∈ ks.filter fun k => k ∉ points.map Point.key :=
    Finset.mem_filter.mpr ⟨hx, hnew⟩
  unfold debt
  rw [hfound, ← Finset.sum_erase_add _ _ hmem]
  rfl

end Search

end Interleave

import Interleave.Proofs.Machine.Driven
import Mathlib.Data.List.Basic

/-!
# One transition of a search

All strategies that expand choice points do the same thing over and over: they run the transition
of a choice and look at the state it leads to. The properties are checked there, and then the path
goes on or it does not.

`Search.Arrived` says what this makes of a search. The state that is reached is compared with the
one that the same choice leads to on its own: the machine of the search has been restored many times
before, and differs from it in what listeners were told.
-/

namespace Interleave

open Effect

namespace Machine

variable {m n : Machine} {full : Prop}

/-- What is wrong in a state by the default properties. -/
def failures (m : Machine) : List Violation :=
  Property.defaults.filterMap fun p =>
    (p.check m).map fun message => { property := p.name, message, trail := m.path.trail }

/-- The default properties depend on nothing that machines which run alike can differ in. -/
theorem Alike.check {p : Property} (hp : p ∈ Property.defaults) (h : Alike full m n) :
    p.check m = p.check n := by
  simp only [Property.defaults, List.mem_cons, List.not_mem_nil, or_false] at hp
  rcases hp with rfl | rfl
  · simp only [Property.noUncaughtExceptions, h.uncaught]
  · simp only [Property.notDeadlocked, h.kernel]

theorem Alike.failures (h : Alike True m n) : m.failures = n.failures := by
  unfold Machine.failures
  refine List.filterMap_congr fun p hp => ?_
  rw [h.check hp, h.trail trivial]

/-- Machines in the same state have come there by as many choices. -/
theorem Alike.depth (h : Alike True m n) : m.depth = n.depth := by
  unfold Machine.depth Path.length
  rw [h.trail trivial]

/-- A state without a pending generator is the same in front of its choice. -/
theorem Alike.withoutPending (h : Alike full m n) :
    Alike full { m with pending := none } { n with pending := none } :=
  ⟨h.1, h.2, h.3, h.4, h.5, h.6, h.7, h.8, rfl, h.10, h.11⟩

/-- What is pending, and which exception escaped before, does not matter to a transition. -/
theorem Alike.forgetful (h : Alike full m { n with pending := none }) :
    Alike full { m with pending := none, path := { m.path with uncaught := none } }
      { n with pending := none, path := { n.path with uncaught := none } } :=
  ⟨h.1, h.2, h.3, h.4, h.5, h.6, rfl, h.8, rfl, h.10, h.11⟩

/-- Two machines run the same program, in the same way. -/
structure SameRun (m n : Machine) : Prop where
  program : n.program = m.program
  config : n.config = m.config
  hostCall : n.hostCall = m.hostCall

instance : IsPreorder Machine SameRun where
  refl _ := ⟨rfl, rfl, rfl⟩
  trans _ _ _ h h' := ⟨h'.program.trans h.program, h'.config.trans h.config,
    h'.hostCall.trans h.hostCall⟩

theorem SameRun.symm (h : SameRun m n) : SameRun n m :=
  ⟨h.program.symm, h.config.symm, h.hostCall.symm⟩

theorem Alike.sameRun (h : Alike full m n) : SameRun n m := ⟨h.program, h.config, h.hostCall⟩

/-- A transition goes on with the same program. -/
theorem sameRun_of_transition {g : Generator} {e : TransitionEnd} (hm : m.hostCall = none)
    (h : transition g m = .ok e n) : SameRun m n := by
  obtain ⟨hp, hc, hh⟩ := (transition_turns hm h).1
  exact ⟨hp, hc, hh.trans hm.symm⟩

/-- A state that is restored is the one of which the snapshot was taken. -/
theorem SameRun.restore (h : SameRun n m) :
    Alike True (m.restore n.snapshot) { n with pending := none } :=
  ⟨h.1, h.2, rfl, h.3, rfl, rfl, rfl, rfl, rfl, fun _ => rfl, fun _ => rfl⟩

end Machine

namespace Search

/-- The states that listeners were told a transition led to. -/
def advanced (s : Search) : List Machine :=
  s.notices.toList.filterMap fun
    | .advanced m => some m
    | _ => none

/-- Two searches have the same task, and neither is over before the other. -/
structure SameTask (s s' : Search) : Prop where
  config : s'.config = s.config
  properties : s'.properties = s.properties
  listening : s'.listening = s.listening
  done : s'.done = s.done

instance : IsPreorder Search SameTask where
  refl _ := ⟨rfl, rfl, rfl, rfl⟩
  trans _ _ _ h h' := ⟨h'.config.trans h.config, h'.properties.trans h.properties,
    h'.listening.trans h.listening, h'.done.trans h.done⟩

/-- Two searches differ in nothing but what listeners were told, and were not told of different
states. -/
structure Told (s s' : Search) : Prop where
  task : SameTask s s'
  machine : s'.machine = s.machine
  violations : s'.violations = s.violations
  stats : s'.stats = s.stats
  visited : s'.visited = s.visited
  checkedAt : s'.checkedAt = s.checkedAt
  advanced : s'.advanced = s.advanced

section Tell

variable (s : Search) (n : SearchNotice)

@[simp] theorem machine_tell : (s.tell n).machine = s.machine := by unfold tell; split <;> rfl

@[simp] theorem config_tell : (s.tell n).config = s.config := by unfold tell; split <;> rfl

@[simp] theorem properties_tell : (s.tell n).properties = s.properties := by
  unfold tell; split <;> rfl

@[simp] theorem violations_tell : (s.tell n).violations = s.violations := by
  unfold tell; split <;> rfl

@[simp] theorem stats_tell : (s.tell n).stats = s.stats := by unfold tell; split <;> rfl

@[simp] theorem visited_tell : (s.tell n).visited = s.visited := by unfold tell; split <;> rfl

@[simp] theorem checkedAt_tell : (s.tell n).checkedAt = s.checkedAt := by unfold tell; split <;> rfl

@[simp] theorem done_tell : (s.tell n).done = s.done := by unfold tell; split <;> rfl

@[simp] theorem listening_tell : (s.tell n).listening = s.listening := by unfold tell; split <;> rfl

end Tell

theorem advanced_tell (s : Search) (n : SearchNotice) : (s.tell n).advanced =
    s.advanced ++ if s.listening = true then (match n with | .advanced m => [m] | _ => []) else [] := by
  unfold tell
  cases hl : s.listening with
  | false => simp
  | true => cases n <;> simp [advanced]

/-- Telling listeners anything but that a state was reached. -/
theorem Told.tell (s : Search) {n : SearchNotice} (hn : ∀ m, n ≠ .advanced m) :
    Told s (s.tell n) := by
  have hadvanced : (s.tell n).advanced = s.advanced := by
    rw [advanced_tell]
    cases n with
    | advanced m => exact absurd rfl (hn m)
    | _ => simp
  exact ⟨⟨by simp, by simp, by simp, by simp⟩, by simp, by simp, by simp, by simp, by simp,
    hadvanced⟩

theorem Told.depthBound {s s' : Search} (h : Told s s') : s'.depthBound = s.depthBound := by
  unfold Search.depthBound Search.depth
  rw [h.task.config, h.machine]

/-! ## Going back -/

/-- A search has gone back to a state, and has found nothing by that. -/
structure Returned (s : Search) (snapshot : Snapshot) (s' : Search) : Prop where
  task : SameTask s s'
  machine : s'.machine = s.machine.restore snapshot
  violations : s'.violations = s.violations
  /-- Only how often the search has gone back was counted. -/
  stats : ∃ backtracks restores, s'.stats = { s.stats with backtracks, restores }
  visited : s'.visited = s.visited
  checkedAt : s'.checkedAt = s.checkedAt
  advanced : s'.advanced = s.advanced

namespace Returned

theorem of_tell (s : Search) (snapshot : Snapshot) (backtracks restores : Nat) {n : SearchNotice}
    (hn : ∀ m, n ≠ .advanced m) :
    Returned s snapshot (({ s with
      machine := s.machine.restore snapshot
      stats := { s.stats with backtracks, restores } } : Search).tell n) := by
  have htell := Told.tell ({ s with
    machine := s.machine.restore snapshot
    stats := { s.stats with backtracks, restores } } : Search) hn
  exact ⟨⟨htell.task.config, htell.task.properties, htell.task.listening, htell.task.done⟩,
    htell.machine, htell.violations, ⟨_, _, htell.stats⟩, htell.visited, htell.checkedAt,
    htell.advanced⟩

theorem backtrack (s : Search) (snapshot : Snapshot) :
    Returned s snapshot (s.backtrack snapshot) :=
  of_tell s snapshot (s.stats.backtracks + 1) s.stats.restores fun _ => by exact nofun

theorem restore (s : Search) (snapshot : Snapshot) : Returned s snapshot (s.restore snapshot) :=
  of_tell s snapshot s.stats.backtracks (s.stats.restores + 1) fun _ => by exact nofun

variable {s s' : Search} {snapshot : Snapshot}

theorem transitions (h : Returned s snapshot s') : s'.stats.transitions = s.stats.transitions := by
  obtain ⟨_, _, hstats⟩ := h.stats
  rw [hstats]

theorem newStates (h : Returned s snapshot s') : s'.stats.newStates = s.stats.newStates := by
  obtain ⟨_, _, hstats⟩ := h.stats
  rw [hstats]

end Returned

/-- Going back on a path is counted. -/
theorem stats_backtrack (s : Search) (snapshot : Snapshot) : (s.backtrack snapshot).stats =
    { s.stats with backtracks := s.stats.backtracks + 1 } := by
  unfold backtrack
  rw [stats_tell]
  rfl

/-- Jumping to a state is counted. -/
theorem stats_restore (s : Search) (snapshot : Snapshot) : (s.restore snapshot).stats =
    { s.stats with restores := s.stats.restores + 1 } := by
  unfold restore
  rw [stats_tell]
  rfl

/-! ## The parts of an arrival -/

variable {s s' : Search} {g : Generator} {e : TransitionEnd} {k n n' : Machine}

/-- A transition has been run and counted. -/
structure Moved (s : Search) (e : TransitionEnd) (k : Machine) (s' : Search) : Prop where
  task : SameTask s s'
  machine : s'.machine = k
  violations : s'.violations = s.violations
  stats : s'.stats = { s.stats with
    transitions := s.stats.transitions + 1
    maxDepth := max s.stats.maxDepth k.depth
    endStates := s.stats.endStates + if e = .endState then 1 else 0 }
  visited : s'.visited = s.visited
  checkedAt : s'.checkedAt = s.checkedAt
  advanced : s'.advanced = s.advanced ++ if s.listening = true then [k] else []

theorem forward_eq_ok (h : s.machine.transition g = .ok e k) :
    ∃ s', forward g s = .ok e s' ∧ Moved s e k s' := by
  unfold forward
  rw [h]
  refine ⟨_, rfl, ⟨by simp [count], by simp [count], by simp [count], by simp [count]⟩,
    by simp [count], by simp [count], by simp [count], by simp [count], by simp [count], ?_⟩
  rw [advanced_tell]
  rfl

/-- A transition that gives a result has been run and counted. -/
theorem exists_moved (h : forward g s = .ok e s') :
    ∃ k, s.machine.transition g = .ok e k ∧ Moved s e k s' := by
  cases ht : s.machine.transition g with
  | error f k =>
    unfold forward at h
    rw [ht] at h
    cases h
  | ok e' k =>
    obtain ⟨s₁, hs₁, hmoved⟩ := forward_eq_ok ht
    rw [hs₁] at h
    cases h
    exact ⟨k, rfl, hmoved⟩

/-- The properties of a state have been checked. -/
structure Checked (s s' : Search) : Prop where
  task : SameTask s s'
  machine : s'.machine = s.machine
  violations : s'.violations.toList = s.violations.toList ++ s.failures
  stats : s'.stats = s.stats
  visited : s'.visited = s.visited
  checkedAt : s'.checkedAt = some s.stats.transitions
  advanced : s'.advanced = s.advanced

/-- Violations are added one after another. -/
theorem foldl_recordViolation (vs : List Violation) (s : Search) :
    ∃ s', vs.foldl recordViolation s = s' ∧ Told { s with violations := s'.violations } s' ∧
      s'.violations.toList = s.violations.toList ++ vs := by
  induction vs generalizing s with
  | nil => exact ⟨s, rfl, ⟨refl _, rfl, rfl, rfl, rfl, rfl, rfl⟩, by simp⟩
  | cons v vs ih =>
    obtain ⟨s', hs', htold, hviolations⟩ := ih (s.recordViolation v)
    have htell := Told.tell s (n := .violated s.depth v) (fun _ => by exact nofun)
    refine ⟨s', hs', ⟨IsTrans.trans _ _ _ ?_ htold.task, htold.machine.trans htell.machine, rfl,
      htold.stats.trans htell.stats, htold.visited.trans htell.visited,
      htold.checkedAt.trans htell.checkedAt, htold.advanced.trans htell.advanced⟩, ?_⟩
    · exact ⟨htell.task.config, htell.task.properties, htell.task.listening, htell.task.done⟩
    · rw [hviolations, recordViolation, htell.violations]
      simp

/-- Checking the properties of a state adds no violations but those that are found there. -/
theorem checkProperties_found (s : Search) : s.checkProperties.2.machine = s.machine ∧
    s.checkProperties.2.properties = s.properties ∧
    ∃ found, (∀ v ∈ found, v ∈ s.failures) ∧
      s.checkProperties.2.violations.toList = s.violations.toList ++ found := by
  unfold checkProperties
  by_cases hnew : s.checkedAt = some s.stats.transitions
  · rw [if_pos hnew]
    exact ⟨rfl, rfl, [], by simp⟩
  · rw [if_neg hnew]
    dsimp only
    have hfailures : ({ s with checkedAt := some s.stats.transitions } : Search).failures =
      s.failures := rfl
    rw [hfailures]
    cases hf : s.failures with
    | nil => exact ⟨rfl, rfl, [], by simp⟩
    | cons v vs =>
      obtain ⟨s', hs', htold, hviolations⟩ := foldl_recordViolation (v :: vs)
        { s with checkedAt := some s.stats.transitions }
      dsimp only
      rw [hs']
      exact ⟨htold.machine, htold.task.properties, v :: vs, fun _ hv => hv, hviolations⟩

/-- Checking properties counts nothing, and ends the search only if one fails. -/
theorem checkProperties_counts (s : Search) : s.checkProperties.2.stats = s.stats ∧
    ((s.checkProperties.1 && s.checkProperties.2.done) = false →
      s.checkProperties.2.done = s.done) := by
  unfold checkProperties
  by_cases hchecked : s.checkedAt = some s.stats.transitions
  · rw [if_pos hchecked]
    exact ⟨rfl, fun _ => rfl⟩
  · rw [if_neg hchecked]
    dsimp only
    cases hf : ({ s with checkedAt := some s.stats.transitions } : Search).failures with
    | nil => exact ⟨rfl, fun _ => rfl⟩
    | cons v vs =>
      obtain ⟨t, ht, htold, -⟩ := foldl_recordViolation (v :: vs)
        { s with checkedAt := some s.stats.transitions }
      have hdone : t.done = s.done := htold.task.done
      dsimp only
      rw [ht]
      refine ⟨htold.stats, fun hover => ?_⟩
      rw [Bool.true_and, Bool.or_eq_false_iff] at hover
      rw [← hdone, hover.1, hover.2]
      rfl

/-- The search goes on if nothing is wrong, or if it does not stop at violations. -/
theorem checkProperties_eq (hgo : s.config.stopOnFirstError = true → s.failures = [])
    (hnew : s.checkedAt ≠ some s.stats.transitions) : Checked s s.checkProperties.2 := by
  unfold checkProperties
  rw [if_neg hnew]
  dsimp only
  have hfailures : ({ s with checkedAt := some s.stats.transitions } : Search).failures =
    s.failures := rfl
  rw [hfailures]
  cases hf : s.failures with
  | nil => exact ⟨⟨rfl, rfl, rfl, rfl⟩, rfl, by simp [hf], rfl, rfl, rfl, rfl⟩
  | cons v vs =>
    obtain ⟨s', hs', htold, hviolations⟩ := foldl_recordViolation (v :: vs)
      { s with checkedAt := some s.stats.transitions }
    dsimp only
    rw [hs']
    refine ⟨⟨htold.task.config, htold.task.properties, htold.task.listening, ?_⟩, htold.machine,
      hf ▸ hviolations, htold.stats, htold.visited, htold.checkedAt, htold.advanced⟩
    show (s'.done || s'.config.stopOnFirstError) = s.done
    have hstop : s.config.stopOnFirstError = false := by
      rw [← Bool.not_eq_true]
      intro hstop
      rw [hgo hstop] at hf
      cases hf
    rw [htold.task.config, htold.task.done]
    simp [hstop]

/-- A search has looked at its state, and may be over. -/
structure Looked (s s' : Search) : Prop where
  violations : s'.violations.toList = s.violations.toList ++ s.failures
  transitions : s'.stats.transitions = s.stats.transitions
  listening : s'.listening = s.listening
  advanced : s'.advanced = s.advanced

/-- A search that stops at violations is over where something is wrong. -/
theorem checkProperties_stops (hstop : s.config.stopOnFirstError = true) (hfails : s.failures ≠ [])
    (hnew : s.checkedAt ≠ some s.stats.transitions) :
    s.checkProperties.1 = true ∧ s.checkProperties.2.done = true ∧ Looked s s.checkProperties.2 := by
  unfold checkProperties
  rw [if_neg hnew]
  dsimp only
  have hfailures : ({ s with checkedAt := some s.stats.transitions } : Search).failures =
    s.failures := rfl
  rw [hfailures]
  cases hf : s.failures with
  | nil => exact absurd hf hfails
  | cons v vs =>
    obtain ⟨s', hs', htold, hviolations⟩ := foldl_recordViolation (v :: vs)
      { s with checkedAt := some s.stats.transitions }
    dsimp only
    rw [hs']
    refine ⟨rfl, ?_, hf ▸ hviolations, ?_, htold.task.listening, htold.advanced⟩
    · show (s'.done || s'.config.stopOnFirstError) = true
      rw [htold.task.config]
      simp [hstop]
    · show s'.stats.transitions = _
      rw [htold.stats]

theorem looked_checkProperties (hnew : s.checkedAt ≠ some s.stats.transitions) :
    Looked s s.checkProperties.2 := by
  by_cases hfails : s.failures = []
  · have hchecked := checkProperties_eq (fun _ => hfails) hnew
    exact ⟨hchecked.violations, by rw [hchecked.stats], hchecked.task.listening, hchecked.advanced⟩
  · by_cases hstop : s.config.stopOnFirstError = true
    · exact (checkProperties_stops hstop hfails hnew).2.2
    · have hchecked := checkProperties_eq (fun h => absurd h hstop) hnew
      exact ⟨hchecked.violations, by rw [hchecked.stats], hchecked.task.listening,
        hchecked.advanced⟩

/-! ## Arriving -/

/-- What becomes of a path that has reached the state `n`. -/
inductive Settled (s : Search) (bound : Option Nat) (n : Machine) : Arrival → Search → Prop where
  /-- It is cut off. -/
  | cut {s' : Search} (reached : bound.any (· ≤ n.depth) = true)
    (stats : s'.stats = { s.stats with
      paths := s.stats.paths + 1
      constraintHits := s.stats.constraintHits + if n.pending.isSome = true then 1 else 0 })
    (visited : s'.visited = s.visited) : Settled s bound n .closed s'
  /-- Nothing is pending. -/
  | ended {s' : Search} (within : bound.any (· ≤ n.depth) = false) (pending : n.pending = none)
    (stats : s'.stats = { s.stats with paths := s.stats.paths + 1 })
    (visited : s'.visited = s.visited) : Settled s bound n .closed s'
  /-- The choice point has been expanded before. -/
  | revisited {s' : Search} {g : Generator} (within : bound.any (· ≤ n.depth) = false)
    (pending : n.pending = some g) (matching : s.config.stateMatching = true)
    (seen : s.visited.contains (s.stateKey g) = true)
    (stats : s'.stats = { s.stats with revisitedStates := s.stats.revisitedStates + 1 })
    (visited : s'.visited = s.visited) : Settled s bound n .closed s'
  /-- The choice point is expanded. -/
  | opened {s' : Search} {g : Generator} (within : bound.any (· ≤ n.depth) = false)
    (pending : n.pending = some g)
    (unseen : s.config.stateMatching = true → s.visited.contains (s.stateKey g) = false)
    (stats : s'.stats = { s.stats with newStates := s.stats.newStates + 1 })
    (visited : s'.visited =
      if s.config.stateMatching = true then s.visited.insert (s.stateKey g) else s.visited) :
    Settled s bound n (.opened g) s'

/-- A choice point is expanded, unless it is recognized as one that was expanded before. -/
theorem visit_eq (s : Search) (g : Generator) :
    (s.config.stateMatching = true ∧ s.visited.contains (s.stateKey g) = true ∧
      s.visit g = (false, { s with
        stats := { s.stats with revisitedStates := s.stats.revisitedStates + 1 } })) ∨
    ((s.config.stateMatching = true → s.visited.contains (s.stateKey g) = false) ∧
      s.visit g = (true, { s with
        stats := { s.stats with newStates := s.stats.newStates + 1 }
        visited := if s.config.stateMatching = true then s.visited.insert (s.stateKey g)
          else s.visited })) := by
  unfold visit
  cases hm : s.config.stateMatching with
  | false => exact .inr ⟨by simp, rfl⟩
  | true =>
    cases hv : s.visited.contains (s.stateKey g) with
    | true => exact .inl ⟨rfl, rfl, by simp [hv, count]⟩
    | false => exact .inr ⟨fun _ => rfl, by simp [hv, count]⟩

@[simp] theorem machine_visit (s : Search) (g : Generator) : (s.visit g).2.machine = s.machine := by
  rcases visit_eq s g with ⟨-, -, hvisit⟩ | ⟨-, hvisit⟩
  · rw [hvisit]
  · rw [hvisit]

/-- A path that is cut off is counted as such if it could go on. -/
theorem cutOff_eq (s : Search) : Told { s with stats := s.cutOff.stats } s.cutOff ∧
    s.cutOff.stats = { s.stats with
      constraintHits := s.stats.constraintHits + if s.machine.pending.isSome = true then 1 else 0 } := by
  unfold cutOff
  cases s.machine.pending with
  | none => exact ⟨⟨refl s, rfl, rfl, rfl, rfl, rfl, rfl⟩, rfl⟩
  | some g =>
    have htell := Told.tell (s.count fun c => { c with constraintHits := c.constraintHits + 1 })
      (n := .constraintHit s.depth "depth limit") (fun _ => by exact nofun)
    refine ⟨⟨?_, htell.machine, htell.violations, rfl, htell.visited, htell.checkedAt,
      htell.advanced⟩, htell.stats⟩
    exact ⟨htell.task.config, htell.task.properties, htell.task.listening, htell.task.done⟩

/-- The search has looked at the state that it has reached. -/
structure Arrived (s : Search) (bound : Option Nat) (a : Arrival) (s' : Search) : Prop where
  task : SameTask s s'
  /-- At most the pending generator has been taken. -/
  machine : ∃ pending, s'.machine = { s.machine with pending }
  /-- It has been taken if it is to be expanded. -/
  opened : ∀ g, a = .opened g → s'.machine = { s.machine with pending := none }
  violations : s'.violations.toList = s.violations.toList ++ s.failures
  checkedAt : s'.checkedAt = some s.stats.transitions
  advanced : s'.advanced = s.advanced
  settled : Settled s bound s.machine a s'

/-- Looking at a state in which properties were not checked before. -/
theorem arrive_eq (bound : Option Nat) (hdone : s.done = false)
    (hgo : s.config.stopOnFirstError = true → s.failures = [])
    (hnew : s.checkedAt ≠ some s.stats.transitions) :
    Arrived s bound (s.arrive bound).1 (s.arrive bound).2 := by
  have hchecked := checkProperties_eq hgo hnew
  unfold arrive
  generalize hc : s.checkProperties = c at hchecked
  obtain ⟨failed, s₁⟩ := c
  dsimp only at hchecked ⊢
  have hdone₁ : (failed && s₁.done) = false := by
    rw [hchecked.task.done, hdone, Bool.and_false]
  have hreached : s₁.hasReached bound = bound.any (· ≤ s.machine.depth) := by
    unfold hasReached Search.depth
    rw [hchecked.machine]
  rw [hdone₁, if_neg Bool.false_ne_true, hreached]
  cases hb : bound.any (· ≤ s.machine.depth) with
  | true =>
    rw [if_pos rfl]
    obtain ⟨htold, hstats⟩ := cutOff_eq s₁
    generalize s₁.cutOff = s₂ at htold hstats
    rw [hchecked.machine] at hstats
    have htask : SameTask s s₂.pathFinished := by
      refine IsTrans.trans _ _ _ hchecked.task ?_
      exact ⟨htold.task.config, htold.task.properties, htold.task.listening, htold.task.done⟩
    refine ⟨htask, ⟨_, htold.machine.trans hchecked.machine⟩, fun g hg => (by cases hg), ?_,
      htold.checkedAt.trans hchecked.checkedAt, htold.advanced.trans hchecked.advanced,
      .cut hb ?_ (htold.visited.trans hchecked.visited)⟩
    · rw [← hchecked.violations]
      exact congrArg Array.toList htold.violations
    · show { s₂.stats with paths := s₂.stats.paths + 1 } = _
      rw [hstats, hchecked.stats]
  | false =>
    rw [if_neg Bool.false_ne_true]
    obtain ⟨⟨hconfig, hproperties, hlistening, hdone'⟩, hmachine, hviolations, hstats, hvisited,
      hcheckedAt, hadvanced⟩ := hchecked
    obtain ⟨machine, config, properties, violations, stats, visited, checkedAt, done, listening,
      notices⟩ := s₁
    dsimp only at hconfig hproperties hlistening hdone' hmachine hviolations hstats hvisited hcheckedAt
    subst hconfig hproperties hlistening hdone' hmachine hstats hvisited hcheckedAt
    unfold takeChoicePoint Machine.takePending
    cases hp : s.machine.pending with
    | none =>
      dsimp only
      exact ⟨⟨rfl, rfl, rfl, rfl⟩, ⟨none, rfl⟩, fun g hg => (by cases hg), hviolations, rfl,
        hadvanced, .ended hb hp rfl rfl⟩
    | some g =>
      dsimp only
      have hvisited := visit_eq
        { s with violations, notices, checkedAt := some s.stats.transitions,
                 machine := { s.machine with pending := none } } g
      rcases hvisited with ⟨hmatching, hseen, hvisit⟩ | ⟨hunseen, hvisit⟩
      · rw [hvisit]
        exact ⟨⟨rfl, rfl, rfl, rfl⟩, ⟨none, rfl⟩, fun g hg => (by cases hg), hviolations, rfl,
          hadvanced, .revisited hb hp hmatching hseen rfl rfl⟩
      · rw [hvisit]
        exact ⟨⟨rfl, rfl, rfl, rfl⟩, ⟨none, rfl⟩, fun _ _ => rfl, hviolations, rfl, hadvanced,
          .opened hb hp hunseen rfl rfl⟩

/-- Where a violation ends the search, its path comes to an end. -/
theorem arrive_of_stop (bound : Option Nat) (hfailed : s.checkProperties.1 = true)
    (hdone : s.checkProperties.2.done = true) :
    s.arrive bound = (.stopped, s.checkProperties.2.pathFinished) := by
  unfold arrive
  generalize s.checkProperties = c at hfailed hdone
  obtain ⟨failed, s₁⟩ := c
  dsimp only at hfailed hdone ⊢
  rw [hfailed, hdone, Bool.and_self, if_pos rfl]

/-- A search that stops at violations is over when it arrives where something is wrong. -/
theorem arrive_stops (bound : Option Nat) (hstop : s.config.stopOnFirstError = true)
    (hfails : s.failures ≠ []) (hnew : s.checkedAt ≠ some s.stats.transitions) :
    (s.arrive bound).1 = .stopped ∧ Looked s (s.arrive bound).2 := by
  obtain ⟨hfailed, hdone, hlooked⟩ := checkProperties_stops hstop hfails hnew
  rw [arrive_of_stop bound hfailed hdone]
  exact ⟨rfl, hlooked.violations, hlooked.transitions, hlooked.listening, hlooked.advanced⟩

theorem failures_eq (h : s.properties = Property.defaults) : s.failures = s.machine.failures := by
  unfold failures Machine.failures
  rw [h]

/-- A state that was just reached has not been checked, if none was that is yet to come. -/
theorem Moved.unchecked (h : Moved s e k s')
    (hchecked : ∀ c, s.checkedAt = some c → c ≤ s.stats.transitions) :
    s'.checkedAt ≠ some s'.stats.transitions := by
  rw [h.checkedAt, h.stats]
  intro hc
  have hle := hchecked _ hc
  simp only at hle
  omega

/-- A search that is not over looks at each state with the default properties. -/
structure Watchful (s : Search) : Prop where
  properties : s.properties = Property.defaults
  done : s.done = false
  /-- No state was checked that is yet to come. -/
  checked : ∀ c, s.checkedAt = some c → c ≤ s.stats.transitions

theorem Watchful.of_sameTask (hs : s.Watchful) (h : SameTask s s')
    (hchecked : ∀ c, s'.checkedAt = some c → c ≤ s'.stats.transitions) : s'.Watchful where
  properties := h.properties.trans hs.properties
  done := h.done.trans hs.done
  checked := hchecked

/-- A search goes on after a violation, and looks at each state with the default properties. -/
structure Persistent (s : Search) : Prop extends s.Watchful where
  config : s.config.stopOnFirstError = false

theorem Persistent.of_sameTask (hs : s.Persistent) (h : SameTask s s')
    (hchecked : ∀ c, s'.checkedAt = some c → c ≤ s'.stats.transitions) : s'.Persistent where
  toWatchful := hs.toWatchful.of_sameTask h hchecked
  config := by rw [h.config, hs.config]

/-- From the state in front of a choice point, restored or not, a choice leads the search to the
state that it leads to on its own. -/
theorem forward_agree (hs : s.Watchful) (halike : s.machine.Alike True { n with pending := none })
    (h : n.transition g = .ok e n') :
    ∃ k s', forward g s = .ok e s' ∧ k.Alike True n' ∧ Moved s e k s' ∧
      s'.failures = n'.failures ∧ s'.checkedAt ≠ some s'.stats.transitions := by
  obtain ⟨k, hk, hkn⟩ := Machine.transition_agree halike.forgetful.symm h
  obtain ⟨s', hs', hmoved⟩ := forward_eq_ok hk
  refine ⟨k, s', hs', hkn.symm, hmoved, ?_, hmoved.unchecked hs.checked⟩
  rw [failures_eq (hmoved.task.properties.trans hs.properties), hmoved.machine, hkn.symm.failures]

/-- The search runs the transition of a choice and arrives where the choice leads to. -/
theorem step_eq (bound : Option Nat) (hs : s.Persistent)
    (halike : s.machine.Alike True { n with pending := none }) (h : n.transition g = .ok e n') :
    ∃ k s', forward g s = .ok e s' ∧ k.Alike True n' ∧ Moved s e k s' ∧
      s'.failures = n'.failures ∧ Arrived s' bound (s'.arrive bound).1 (s'.arrive bound).2 := by
  obtain ⟨k, s', hs', hk, hmoved, hfailures, hnew⟩ := forward_agree hs.toWatchful halike h
  have hstop : s'.config.stopOnFirstError = false := by rw [hmoved.task.config, hs.config]
  refine ⟨k, s', hs', hk, hmoved, hfailures, arrive_eq bound ?_ (fun h => ?_) hnew⟩
  · rw [hmoved.task.done, hs.done]
  · rw [hstop] at h
    cases h

/-! ## The frame of a search -/

theorem takeChoicePoint_of_none (hp : s.machine.pending = none) : s.takeChoicePoint = (none, s) := by
  obtain ⟨machine, config, properties, violations, stats, visited, checkedAt, done, listening,
    notices⟩ := s
  cases machine
  cases hp
  rfl

theorem takeChoicePoint_of_some (hp : s.machine.pending = some g) :
    s.takeChoicePoint = (some g, { s with machine := { s.machine with pending := none } }) := by
  unfold takeChoicePoint Machine.takePending
  rw [hp]

/-- A strategy that faults makes no report, and listeners are told. -/
theorem run_eq_error (strategy : Strategy) (rounds : Nat) {e : SearchFault}
    (hstarted : s.machine.path.started = true)
    (h : strategy.run rounds (s.tell (.started s.depth)) = .error e s') :
    run strategy rounds s = .error e (s'.tell (.finished s'.stats.transitions)) := by
  unfold run
  simp only [hstarted, Bool.not_true, Bool.false_eq_true, if_false, h]

/-- A report says what the strategy has counted and found. -/
theorem exists_of_run {strategy : Strategy} {rounds : Nat} {report : SearchReport}
    (h : run strategy rounds s = .ok report s') :
    ∃ t, strategy.run rounds (s.tell (.started s.depth)) = .ok () t ∧
      report = { strategy := strategy.name, stats := t.stats, violations := t.violations.toList } ∧
      s' = t.tell (.finished t.stats.transitions) := by
  unfold run at h
  by_cases hstarted : s.machine.path.started = true
  · simp only [hstarted, Bool.not_true, Bool.false_eq_true, if_false] at h
    cases hrun : strategy.run rounds (s.tell (.started s.depth)) with
    | error e t => rw [hrun] at h; cases h
    | ok u t =>
      rw [hrun] at h
      cases h
      exact ⟨t, rfl, by simp, rfl⟩
  · simp [hstarted] at h

/-- A strategy that succeeds makes a report, and listeners are told. -/
theorem run_eq_ok (strategy : Strategy) (rounds : Nat) (hstarted : s.machine.path.started = true)
    (h : strategy.run rounds (s.tell (.started s.depth)) = .ok () s') :
    run strategy rounds s = .ok { strategy := strategy.name, stats := s'.stats
                                  violations := s'.violations.toList }
      (s'.tell (.finished s'.stats.transitions)) := by
  unfold run
  simp only [hstarted, Bool.not_true, Bool.false_eq_true, if_false, h, stats_tell, violations_tell]

end Search

end Interleave

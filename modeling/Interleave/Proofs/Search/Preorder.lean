import Interleave.Proofs.Search.ChoiceTree
import Interleave.Proofs.Search.Stack
import Mathlib.Data.List.Forall2

/-!
# Depth-first search goes through the choice tree in preorder

Without state matching, and if it does not end at the first violation, depth-first search reaches
the states of the choice tree in preorder, each of them once, and looks at each of them.

The stack of the search holds the choice points of the current path. A choice point on top of the
stack, with some choices tried, stands for the choices that are left: after enough rounds it is gone
from the stack, the search has gone through the tree of these choices, and what is below it on the
stack is as it was. This is shown by induction on the tree.
-/

namespace Interleave

open Effect

namespace Search

variable {s s' s₁ s₂ : Search}

/-- A search has gone through some states of a choice tree. -/
structure Explored (s s' : Search) (vs : List Vertex) : Prop where
  task : SameTask s s'
  run : Machine.SameRun s.machine s'.machine
  /-- The transitions that led to them were counted. -/
  transitions : s'.stats.transitions = s.stats.transitions + vs.length
  /-- Those with choices below were counted. -/
  newStates : s'.stats.newStates = s.stats.newStates + vs.countP Vertex.expanded
  /-- Those without choices below were counted. -/
  paths : s'.stats.paths = s.stats.paths + vs.countP (!·.expanded)
  /-- Those in which every thread had just ended were counted. -/
  endStates : s'.stats.endStates = s.stats.endStates + vs.countP (·.stop = .endState)
  /-- Those in which a generator was left pending were counted. -/
  constraintHits : s'.stats.constraintHits = s.stats.constraintHits +
    vs.countP fun v => !v.expanded && v.state.pending.isSome
  /-- What is wrong in them has been found. -/
  violations : s'.violations.toList = s.violations.toList ++ vs.flatMap (·.state.failures)
  /-- Listeners were told of them. -/
  advanced : ∃ ms, s'.advanced = s.advanced ++ ms ∧
    (s.listening = true → List.Forall₂ (Machine.Alike True) ms (vs.map Vertex.state))
  /-- The last state has been checked, and no state after it. -/
  checked : (∀ c, s.checkedAt = some c → c ≤ s.stats.transitions) →
    ∀ c, s'.checkedAt = some c → c ≤ s'.stats.transitions

namespace Explored

protected theorem refl (s : Search) : Explored s s [] where
  task := refl s
  run := refl s.machine
  transitions := rfl
  newStates := rfl
  paths := rfl
  endStates := rfl
  constraintHits := rfl
  violations := by simp
  advanced := ⟨[], by simp, fun _ => .nil⟩
  checked := id

protected theorem trans {vs ws : List Vertex} (h : Explored s s₁ vs) (h' : Explored s₁ s₂ ws) :
    Explored s s₂ (vs ++ ws) where
  task := IsTrans.trans _ _ _ h.task h'.task
  run := IsTrans.trans _ _ _ h.run h'.run
  transitions := by rw [h'.transitions, h.transitions, List.length_append, Nat.add_assoc]
  newStates := by rw [h'.newStates, h.newStates, List.countP_append, Nat.add_assoc]
  paths := by rw [h'.paths, h.paths, List.countP_append, Nat.add_assoc]
  endStates := by rw [h'.endStates, h.endStates, List.countP_append, Nat.add_assoc]
  constraintHits := by rw [h'.constraintHits, h.constraintHits, List.countP_append, Nat.add_assoc]
  violations := by rw [h'.violations, h.violations, List.flatMap_append, List.append_assoc]
  advanced := by
    obtain ⟨ms, hms, halike⟩ := h.advanced
    obtain ⟨ms', hms', halike'⟩ := h'.advanced
    refine ⟨ms ++ ms', by rw [hms', hms, List.append_assoc], fun hl => ?_⟩
    rw [List.map_append]
    exact List.rel_append (halike hl) (halike' (h.task.listening.trans hl))
  checked := fun hs => h'.checked (h.checked hs)

/-- Going back to a state in front of a choice point. -/
theorem of_returned {snapshot : Snapshot} (h : Returned s snapshot s') : Explored s s' [] := by
  obtain ⟨_, _, hstats⟩ := h.stats
  exact {
    task := h.task
    run := by rw [h.machine]; exact ⟨rfl, rfl, rfl⟩
    transitions := by rw [hstats]; rfl
    newStates := by rw [hstats]; rfl
    paths := by rw [hstats]; rfl
    endStates := by rw [hstats]; rfl
    constraintHits := by rw [hstats]; rfl
    violations := by rw [h.violations]; simp
    advanced := ⟨[], h.advanced.trans (by simp), fun _ => .nil⟩
    checked := fun hs c hc => by
      rw [hstats]
      exact hs c (h.checkedAt ▸ hc) }

variable {bound : Option Nat} {a : Arrival} {e : TransitionEnd} {k n n' : Machine}

/-- A transition whose state is looked at. What becomes of the path is a matter of the counters. -/
theorem of_arrived {expanded : Bool} (hrun : Machine.SameRun s.machine k) (hk : k.Alike True n')
    (hmoved : Moved s e k s₁) (hfailures : s₁.failures = n'.failures) (h : Arrived s₁ bound a s₂)
    (hnew : s₂.stats.newStates = s₁.stats.newStates + if expanded then 1 else 0)
    (hpaths : s₂.stats.paths = s₁.stats.paths + if expanded then 0 else 1)
    (hhits : s₂.stats.constraintHits = s₁.stats.constraintHits +
      if !expanded && n'.pending.isSome then 1 else 0)
    (htransitions : s₂.stats.transitions = s₁.stats.transitions)
    (hends : s₂.stats.endStates = s₁.stats.endStates) : Explored s s₂ [⟨e, n', expanded⟩] where
  task := IsTrans.trans _ _ _ hmoved.task h.task
  run := by
    obtain ⟨pending, hp⟩ := h.machine
    rw [hp, hmoved.machine]
    exact ⟨hrun.program, hrun.config, hrun.hostCall⟩
  transitions := by rw [htransitions, hmoved.stats]; rfl
  newStates := by rw [hnew, hmoved.stats]; cases expanded <;> rfl
  paths := by rw [hpaths, hmoved.stats]; cases expanded <;> rfl
  endStates := by
    rw [hends, hmoved.stats]
    by_cases he : e = .endState <;> simp [he]
  constraintHits := by
    rw [hhits, hmoved.stats]
    simp [List.countP_cons]
  violations := by rw [h.violations, hmoved.violations, hfailures]; simp
  advanced := by
    rw [h.advanced, hmoved.advanced]
    cases hl : s.listening with
    | true => exact ⟨[k], rfl, fun _ => .cons hk .nil⟩
    | false => exact ⟨[], rfl, nofun⟩
  checked _ c hc := by
    rw [h.checkedAt] at hc
    cases hc
    exact Nat.le_of_eq htransitions.symm

/-- After a transition the path ends in the state that was reached, or it goes on. -/
theorem of_step (hmatching : s.config.stateMatching = false) (hrun : Machine.SameRun s.machine k)
    (hk : k.Alike True n') (hmoved : Moved s e k s₁) (hfailures : s₁.failures = n'.failures)
    (h : Arrived s₁ bound a s₂) :
    (a = .closed ∧ (bound.any (· ≤ n'.depth) = true ∨ n'.pending = none) ∧
      Explored s s₂ [⟨e, n', false⟩]) ∨
    ∃ g, a = .opened g ∧ bound.any (· ≤ n'.depth) = false ∧ n'.pending = some g ∧
      s₂.machine.Alike True { n' with pending := none } ∧ Explored s s₂ [⟨e, n', true⟩] := by
  have hdepth : k.depth = n'.depth := hk.depth
  have hmachine : s₁.machine = k := hmoved.machine
  have hsettled := h.settled
  rw [hmachine] at hsettled
  cases hsettled with
  | cut reached stats =>
    rw [hdepth] at reached
    refine .inl ⟨rfl, .inl reached, of_arrived hrun hk hmoved hfailures h ?_ ?_ ?_ ?_ ?_⟩
    all_goals rw [stats]
    · rfl
    · rfl
    · simp [hk.pending]
  | ended within pending stats =>
    rw [hk.pending] at pending
    refine .inl ⟨rfl, .inr pending, of_arrived hrun hk hmoved hfailures h ?_ ?_ ?_ ?_ ?_⟩
    all_goals rw [stats]
    · rfl
    · rfl
    · simp [pending]
  | revisited _ _ matching =>
    rw [hmoved.task.config, hmatching] at matching
    cases matching
  | @opened _ g within pending _ stats =>
    rw [hdepth] at within
    rw [hk.pending] at pending
    refine .inr ⟨g, rfl, within, pending, ?_, of_arrived hrun hk hmoved hfailures h ?_ ?_ ?_ ?_ ?_⟩
    · rw [h.opened g rfl, hmachine]
      exact hk.withoutPending
    all_goals rw [stats]
    · rfl
    · rfl
    · rfl

end Explored

/-- How many choices a search takes on a path: as many as its limit says, as far as lengths can be
named, and zero for any number. -/
def limitFrom (config : SearchConfig) (m : Machine) : Nat :=
  if config.depthLimit = 0 then 0 else max 1 (min config.depthLimit (maxLength - m.depth))

/-- What a search from the state `m` has found when it has gone through its choice tree. -/
structure Covers (s : Search) (m : Machine) (t : Branches) : Prop where
  /-- There were as many transitions as choices. -/
  transitions : s.stats.transitions = t.edges
  /-- As many choice points were expanded as there are. -/
  newStates : s.stats.newStates = t.points
  /-- There were as many paths as leaves. -/
  paths : s.stats.paths = t.leaves
  /-- As many transitions ended with the end of all threads. -/
  endStates : s.stats.endStates = t.endings
  /-- As many leaves were cut off. -/
  constraintHits : s.stats.constraintHits = t.cutOffs
  /-- The violations are what is wrong in the states, in preorder, and in the first state if nothing
  is pending there. -/
  violations : s.violations.toList = (if t.isNone then m.failures else []) ++ t.failures
  /-- Listeners were told of the states, in preorder. -/
  advanced : s.listening = true → List.Forall₂ (Machine.Alike True) s.advanced
    (t.preorder.map Vertex.state)

/-- The counters of a search that has gone through a choice tree, in whatever order. -/
structure Counted (stats : SearchStats) (t : Branches) : Prop where
  transitions : stats.transitions = t.edges
  newStates : stats.newStates = t.points
  paths : stats.paths = t.leaves
  endStates : stats.endStates = t.endings
  constraintHits : stats.constraintHits = t.cutOffs

theorem Covers.counted {m : Machine} {t : Branches} (h : s.Covers m t) : Counted s.stats t :=
  ⟨h.transitions, h.newStates, h.paths, h.endStates, h.constraintHits⟩

theorem Covers.told {m : Machine} {t : Branches} (h : s.Covers m t) (htold : Told s s') :
    s'.Covers m t where
  transitions := by rw [htold.stats, h.transitions]
  newStates := by rw [htold.stats, h.newStates]
  paths := by rw [htold.stats, h.paths]
  endStates := by rw [htold.stats, h.endStates]
  constraintHits := by rw [htold.stats, h.constraintHits]
  violations := by rw [htold.violations, h.violations]
  advanced := by rw [htold.task.listening, htold.advanced]; exact h.advanced

/-- A search expands every choice point. -/
structure Plain (s : Search) : Prop extends s.Persistent where
  matching : s.config.stateMatching = false

theorem Plain.explored {vs : List Vertex} (hs : s.Plain) (h : Explored s s' vs) : s'.Plain where
  toPersistent := hs.toPersistent.of_sameTask h.task (h.checked hs.checked)
  matching := by rw [h.task.config, hs.matching]

/-- A search that is in front of its first choice point, and has not tried a choice. -/
structure Rooted (m : Machine) (config : SearchConfig) (listening : Bool) (s : Search) : Prop
    extends s.Watchful where
  config : s.config = config
  listening : s.listening = listening
  machine : s.machine = { m with pending := none }
  stats : s.stats = { newStates := 1 }
  violations : s.violations.toList = []
  advanced : s.advanced = []

theorem exists_rooted {m : Machine} {config : SearchConfig} {listening : Bool} {g : Generator}
    (hmatching : config.stateMatching = false) (hp : m.pending = some g)
    (hs : Told { machine := m, config, listening } s) :
    ∃ t, s.takeChoicePoint = (some g, t) ∧ Rooted m config listening (t.visit g).2 := by
  have htaken := takeChoicePoint_of_some (s := s) (g := g) (hs.machine ▸ hp)
  rw [hs.machine] at htaken
  refine ⟨_, htaken, ?_⟩
  unfold visit
  rw [if_neg]
  · exact {
      properties := hs.task.properties
      done := hs.task.done
      checked := fun c hc => by
        rw [show _ = none from hs.checkedAt] at hc
        cases hc
      config := hs.task.config
      listening := hs.task.listening
      machine := rfl
      stats := by
        show { s.stats with newStates := s.stats.newStates + 1 } = _
        rw [hs.stats]
      violations := by
        show s.violations.toList = []
        rw [hs.violations]
      advanced := hs.advanced }
  · rw [show ({ s with machine := { m with pending := none } } : Search).config = config from
      hs.task.config, hmatching]
    exact Bool.false_ne_true

section Rooted

variable {m : Machine} {config : SearchConfig} {listening : Bool} {t : Branches} {vs : List Vertex}

/-- Once the search has gone through the states of a tree, in whatever order, they have all been
counted. -/
theorem Rooted.counted (hs : Rooted m config listening s) (h : Explored s s' vs)
    (hvs : vs.Perm t.preorder) (hnone : t.isNone = false) : Counted s'.stats t where
  transitions := by
    rw [h.transitions, hs.stats, hvs.length_eq]
    exact Nat.zero_add _
  newStates := by
    rw [h.newStates, hs.stats, hvs.countP_eq]
    simp only [Branches.points, hnone, Bool.false_eq_true, if_false]
    exact Nat.add_comm _ _
  paths := by
    rw [h.paths, hs.stats, hvs.countP_eq]
    simp only [Branches.leaves, hnone, Bool.false_eq_true, if_false]
    exact Nat.add_comm _ _
  endStates := by
    rw [h.endStates, hs.stats, hvs.countP_eq]
    exact Nat.zero_add _
  constraintHits := by
    rw [h.constraintHits, hs.stats, hvs.countP_eq]
    exact Nat.zero_add _

theorem Rooted.covers (hs : Rooted m config listening s) (h : Explored s s' t.preorder)
    (hnone : t.isNone = false) : s'.Covers m t where
  transitions := (hs.counted h (.refl _) hnone).transitions
  newStates := (hs.counted h (.refl _) hnone).newStates
  paths := (hs.counted h (.refl _) hnone).paths
  endStates := (hs.counted h (.refl _) hnone).endStates
  constraintHits := (hs.counted h (.refl _) hnone).constraintHits
  violations := by
    rw [h.violations, hs.violations, hnone]
    rfl
  advanced hl := by
    obtain ⟨ms, hms, halike⟩ := h.advanced
    rw [hms, hs.advanced, List.nil_append]
    exact halike (h.task.listening ▸ hl)

end Rooted

/-- A search that begins where nothing is pending looks at the state. -/
theorem covers_finishWithoutChoice {m : Machine} {config : SearchConfig} {listening : Bool}
    (hstop : config.stopOnFirstError = false) (hs : Told { machine := m, config, listening } s) :
    s.finishWithoutChoice.Covers m .none ∧ s.finishWithoutChoice.listening = listening := by
  have hchecked : Checked s s.checkProperties.2 := by
    refine checkProperties_eq (fun h => ?_) ?_
    · rw [hs.task.config] at h
      exact absurd h (by simp [hstop])
    · rw [hs.checkedAt]
      exact nofun
  have hfinished : s.finishWithoutChoice.stats = { paths := 1 } := by
    unfold finishWithoutChoice pathFinished count
    rw [hchecked.stats.trans hs.stats]
  refine ⟨?_, hchecked.task.listening.trans hs.task.listening⟩
  exact {
    transitions := by rw [hfinished]; rfl
    newStates := by rw [hfinished]; rfl
    paths := by rw [hfinished]; rfl
    endStates := by rw [hfinished]; rfl
    constraintHits := by rw [hfinished]; rfl
    violations := by
      refine hchecked.violations.trans ?_
      rw [hs.violations]
      unfold Search.failures
      rw [hs.task.properties, hs.machine]
      simp [Branches.isNone, Branches.failures, Machine.failures]
    advanced := fun _ => by
      rw [show s.finishWithoutChoice.advanced = [] from hchecked.advanced.trans hs.advanced]
      exact .nil }

namespace DepthFirst

variable {m m' : Machine} {g : Generator} {i : Nat} {e : TransitionEnd} {fresh : Bool}
  {bound : Option Nat}

/-- The next choice leads to a state that belongs to the tree. The path ends there, or another
choice point comes to stand on the stack. -/
theorem leads_of_choice (bound : Option Nat) (hs : s.Plain) (hm : m.IsReady) (hrun : Machine.SameRun m s.machine)
    (hi : i < g.total) (htransition : m.transition (g.select i).2 = .ok e m')
    (hfresh : fresh = true → s.machine.Alike True { m with pending := none }) (rest : List Branch) :
    ∃ s', ((bound.any (· ≤ m'.depth) = true ∨ m'.pending = none) ∧
        Loop.Leads (round bound) 1 (branchAt m g i fresh :: rest) s
          (branchAt m g (i + 1) false :: rest) s' ∧ Explored s s' [⟨e, m', false⟩]) ∨
      ∃ g', bound.any (· ≤ m'.depth) = false ∧ m'.pending = some g' ∧
        s'.machine.Alike True { m' with pending := none } ∧
        Loop.Leads (round bound) 1 (branchAt m g i fresh :: rest) s
          (branchAt m' g' 0 true :: branchAt m g (i + 1) false :: rest) s' ∧
        Explored s s' [⟨e, m', true⟩] := by
  -- the machine is in the state in front of the choice point
  obtain ⟨hback, halike⟩ := backTo_branchAt (g := g) (i := i) hrun hfresh
  have hexplored : Explored s (backTo s (branchAt m g i fresh)) [] := by
    rcases hback with hsame | hreturned
    · rw [hsame]
      exact .refl s
    · exact .of_returned hreturned
  have hplain := hs.explored hexplored
  obtain ⟨k, s₁, hforward, hk, hmoved, hfailures, harrived⟩ :=
    step_eq bound hplain.toPersistent halike htransition
  have hround := round_of_choice bound rest hs.done hi hforward
  have hstep := Explored.of_step hplain.matching ?_ hk hmoved hfailures harrived
  · refine ⟨(s₁.arrive bound).2, ?_⟩
    rcases hstep with ⟨ha, hends, hvs⟩ | ⟨g', ha, hwithin, hp, hm', hvs⟩
    · rw [ha] at hround
      exact .inl ⟨hends, .single hround, hexplored.trans hvs⟩
    · rw [ha] at hround
      refine .inr ⟨g', hwithin, hp, hm', .single ?_, hexplored.trans hvs⟩
      rw [hround, ← branch_eq hm' ((hm.transition htransition).untried g' hp)]
      rfl
  · have hthere : Machine.SameRun (backTo s (branchAt m g i fresh)).machine m :=
      ⟨halike.program.symm, halike.config.symm, halike.hostCall.symm⟩
    have hstep : Machine.SameRun m m' := Machine.sameRun_of_transition hm.hostCall htransition
    exact IsTrans.trans _ _ _ (IsTrans.trans _ _ _ hthere hstep) hk.sameRun

/-- A bound on the length of paths that cuts off the choices of a state of this depth after so many
of them, or not at all if the limit is zero. -/
def CutsAfter (bound : Option Nat) (depth limit : Nat) : Prop :=
  ∀ i, bound.any (· ≤ depth + i + 1) = decide (limit ≠ 0 ∧ limit ≤ i + 1)

/-- The depth of a state is that of the state in front of the choice and one more. -/
theorem depth_of_transition {g : Generator} (hm : m.IsReady) (h : m.transition g = .ok e m') :
    m'.depth = m.depth + 1 := by
  obtain ⟨-, c, -, htrail⟩ := Machine.transition_trail hm.hostCall h
  unfold Machine.depth Path.length
  rw [htrail, Array.size_push]

/-- The bound cuts off behind the next choice if one choice is allowed. -/
theorem CutsAfter.reached {depth limit : Nat} (h : CutsAfter bound depth limit) :
    bound.any (· ≤ depth + 1) = decide (limit = 1) := by
  have h0 := h 0
  rw [Nat.add_zero] at h0
  rw [h0]
  exact decide_eq_decide.mpr (by omega)

theorem CutsAfter.below {depth limit : Nat} (h : CutsAfter bound depth limit) (hlimit : limit ≠ 1) :
    CutsAfter bound (depth + 1) (limit - 1) := by
  intro j
  have hj := h (j + 1)
  rw [show depth + 1 + j + 1 = depth + (j + 1) + 1 by omega, hj]
  exact decide_eq_decide.mpr (by omega)

/-- The search goes through a tree, with a round for each of its states and for each of its choice
points, and comes from one stack to another. -/
def GoesThrough (bound : Option Nat) (b : Branches) (stack : List Branch) (s : Search)
    (stack' : List Branch) (s' : Search) : Prop :=
  Loop.Leads (round bound) (b.preorder.length + b.preorder.countP Vertex.expanded + 1) stack s
    stack' s' ∧ Explored s s' b.preorder

/-- A leaf takes one round, and the search goes on with the choices after it. -/
theorem goesThrough_leaf {s s₁ : Search} {stack stack₁ rest : List Branch} {after : Branches}
    (hround : Loop.Leads (round bound) 1 stack s stack₁ s₁)
    (hvertex : Explored s s₁ [⟨e, m', false⟩])
    (hafter : ∃ s', GoesThrough bound after stack₁ s₁ rest s') :
    ∃ s', GoesThrough bound (.cons e m' .none after) stack s rest s' := by
  obtain ⟨s', hleads, hexplored⟩ := hafter
  refine ⟨s', ?_, hvertex.trans hexplored⟩
  convert hround.trans hleads using 1
  simp [Branches.isNone]
  omega

/-- The search goes through the choices of the choice point on top from a position on, and through
what is below them, and comes to what is below the choice point on the stack. -/
theorem goesThrough_rest (bound : Option Nat) {b : Branches} (h : Branches.Of m g i b) :
    ∀ {s : Search} {limit : Nat} (fresh : Bool), m.IsReady → s.Plain → Machine.SameRun m s.machine →
      CutsAfter bound m.depth limit → 0 < g.total →
      (fresh = true → s.machine.Alike True { m with pending := none }) → ∀ rest, ∃ s',
        GoesThrough bound (b.cut limit) (branchAt m g i fresh :: rest) s rest s' := by
  induction h with
  | @exhausted m g i last =>
    intro s limit fresh _ hs _ _ hpos _ rest
    refine ⟨s, ?_, .refl s⟩
    exact .single (round_of_exhausted _ _ hs.done last hpos)
  | @ended m m' g i e after more transition pending _ ih =>
    intro s limit fresh hm hs hrun hcuts hpos hfresh rest
    obtain ⟨s₁, ⟨-, hround, hvertex⟩ | ⟨g', -, hp, -⟩⟩ :=
      leads_of_choice bound hs hm hrun more transition hfresh rest
    · have hrun₁ : Machine.SameRun m s₁.machine := IsTrans.trans _ _ _ hrun hvertex.run
      rw [Branches.cut_leaf]
      exact goesThrough_leaf hround hvertex
        (ih false hm (hs.explored hvertex) hrun₁ hcuts hpos nofun rest)
    · rw [pending] at hp
      cases hp
  | @opened m m' g g' i e below after more transition pending nonempty deeper _ ihb iha =>
    intro s limit fresh hm hs hrun hcuts hpos hfresh rest
    have hdepth := depth_of_transition hm transition
    have hreached : bound.any (· ≤ m'.depth) = decide (limit = 1) := hdepth ▸ hcuts.reached
    obtain ⟨s₁, ⟨hends, hround, hvertex⟩ | ⟨g'', hwithin, hp, halike, hround, hvertex⟩⟩ :=
      leads_of_choice bound hs hm hrun more transition hfresh rest
    · -- the path is cut off
      have hlimit : limit = 1 := by
        rcases hends with hb | hnone
        · rw [hreached] at hb
          exact of_decide_eq_true hb
        · rw [pending] at hnone
          cases hnone
      subst hlimit
      have hrun₁ : Machine.SameRun m s₁.machine := IsTrans.trans _ _ _ hrun hvertex.run
      exact goesThrough_leaf hround hvertex
        (iha false hm (hs.explored hvertex) hrun₁ hcuts hpos nofun rest)
    · -- the search goes through what is below, and comes back
      rw [pending] at hp
      cases hp
      have hlimit : limit ≠ 1 := by
        rw [hreached] at hwithin
        exact of_decide_eq_false hwithin
      have hcuts' : CutsAfter bound m'.depth (limit - 1) := hdepth ▸ hcuts.below hlimit
      have hm' := hm.transition transition
      obtain ⟨s₂, hdown, hbelow⟩ := ihb true hm' (hs.explored hvertex)
        ⟨halike.program, halike.config, halike.hostCall⟩ hcuts' nonempty (fun _ => halike)
        (branchAt m g (i + 1) false :: rest)
      have hexplored := hvertex.trans hbelow
      have hrun₂ : Machine.SameRun m s₂.machine := IsTrans.trans _ _ _ hrun hexplored.run
      obtain ⟨s₃, hrest, hafter⟩ := iha false hm (hs.explored hexplored) hrun₂ hcuts hpos
        nofun rest
      have hisNone := deeper.isNone_eq_false nonempty
      refine ⟨s₃, ?_, ?_⟩
      · convert (hround.trans hdown).trans hrest using 1
        simp [Branches.cut, hlimit, hisNone]
        omega
      · convert hexplored.trans hafter using 1
        simp [Branches.cut, hlimit, hisNone]

theorem cutsAfter_depthBound (s : Search) :
    CutsAfter s.depthBound s.machine.depth (limitFrom s.config s.machine) := by
  intro i
  unfold depthBound limitFrom Search.depth
  by_cases h : s.config.depthLimit = 0
  · simp [h]
  · rw [if_neg h, if_neg h]
    simp only [Option.any_some]
    exact decide_eq_decide.mpr (by omega)

theorem search_of_none {config : SearchConfig} {listening : Bool} {rounds : Nat}
    (hp : m.pending = none) (hs : Told { machine := m, config, listening } s) :
    search rounds s = .ok () s.finishWithoutChoice := by
  unfold search
  rw [get_bind, get_bind, takeChoicePoint_of_none (hs.machine ▸ hp)]
  rfl

/-- A search that begins at a choice point goes through the choice tree. -/
theorem search_of_some {config : SearchConfig} {listening : Bool} {rounds : Nat} {tree : Branches}
    (hm : m.IsReady) (hmatching : config.stateMatching = false)
    (hstop : config.stopOnFirstError = false) (hp : m.pending = some g) (hpos : 0 < g.total)
    (htree : tree.Of m g 0) (hs : Told { machine := m, config, listening } s)
    (hrounds : (tree.cut (limitFrom config m)).edges + (tree.cut (limitFrom config m)).points <
      rounds) :
    ∃ s', search rounds s = .ok () s' ∧ s'.Covers m (tree.cut (limitFrom config m)) ∧
      s'.listening = listening := by
  have hbound : CutsAfter s.depthBound m.depth (limitFrom config m) := by
    have h := cutsAfter_depthBound s
    rwa [hs.machine, hs.task.config] at h
  obtain ⟨t, htaken, hrooted⟩ := exists_rooted hmatching hp hs
  have halike : (t.visit g).2.machine.Alike True { m with pending := none } := by
    rw [hrooted.machine]
    exact .refl _
  have hplain : (t.visit g).2.Plain := {
    toWatchful := hrooted.toWatchful
    config := by rw [hrooted.config, hstop]
    matching := by rw [hrooted.config, hmatching] }
  obtain ⟨s', hleads, hexplored⟩ := goesThrough_rest s.depthBound htree true hm
    hplain (by rw [hrooted.machine]; exact ⟨rfl, rfl, rfl⟩) hbound hpos (fun _ => halike) []
  have hnone : (tree.cut (limitFrom config m)).isNone = false := by
    rw [Branches.isNone_cut, htree.isNone_eq_false hpos]
  refine ⟨s', ?_, hrooted.covers hexplored hnone, hexplored.task.listening.trans hrooted.listening⟩
  unfold search
  rw [get_bind, get_bind, htaken]
  dsimp only
  rw [set_bind, branch_eq halike (hm.untried g hp)]
  refine hleads.run_eq_ok rfl ?_
  simp only [Branches.edges, Branches.points, hnone, Bool.false_eq_true, if_false] at hrounds
  exact hrounds

end DepthFirst

variable {m : Machine}

/-- A search that goes through the whole choice tree. -/
def exhaustive : SearchConfig := { stopOnFirstError := false, stateMatching := false }

/-- **Depth-first search goes through the choice tree in preorder.** Begun in a state whose choice
tree is finite, without state matching and going on after violations, depth-first search succeeds
under every large enough bound on its rounds. It reaches the states of the tree, cut off at its
depth limit, in preorder, and each of them once: so say the listeners, the counters and the
violations that it reports. The number of paths is what plain recursion over snapshots counts, if
nothing is cut off. -/
theorem depthFirst_preorder (hm : m.IsReady) (hfinite : m.HasFiniteTree) :
    ∃ tree, m.Unfolds tree ∧
      (∃ bound, ∀ n, bound ≤ n → ∃ m', Machine.countPaths n m = .ok tree.leaves m') ∧
      ∀ (config : SearchConfig) (listening : Bool) (rounds : Nat),
        config.stateMatching = false → config.stopOnFirstError = false →
        (tree.cut (limitFrom config m)).edges + (tree.cut (limitFrom config m)).points < rounds →
        ∃ report s', run depthFirst rounds { machine := m, config, listening } = .ok report s' ∧
          s'.Covers m (tree.cut (limitFrom config m)) ∧ s'.listening = listening ∧
          report.stats = s'.stats ∧ report.violations = s'.violations.toList ∧
          (config.depthLimit = 0 → report.stats.paths = tree.leaves) := by
  obtain ⟨tree, htree⟩ := hfinite.exists_unfolds
  refine ⟨tree, htree, Machine.countPaths_eq htree hm, ?_⟩
  intro config listening rounds hmatching hstop hrounds
  have hstart := Told.tell { machine := m, config, listening } (n := .started m.depth)
    fun _ => by exact nofun
  have hsearch : ∃ s', DepthFirst.search rounds
      (({ machine := m, config, listening } : Search).tell (.started m.depth)) = .ok () s' ∧
        s'.Covers m (tree.cut (limitFrom config m)) ∧ s'.listening = listening := by
    cases hp : m.pending with
    | none =>
      rw [htree.of_none hp]
      exact ⟨_, DepthFirst.search_of_none hp hstart, covers_finishWithoutChoice hstop hstart⟩
    | some g =>
      obtain ⟨hpos, hof⟩ := htree.of_some hp
      exact DepthFirst.search_of_some hm hmatching hstop hp hpos hof hstart hrounds
  obtain ⟨s', hs', hcovers, hlistening⟩ := hsearch
  have hrun := run_eq_ok depthFirst rounds
    (s := { machine := m, config, listening }) hm.started hs'
  have htold := Told.tell s' (n := .finished s'.stats.transitions) fun _ => by exact nofun
  refine ⟨_, _, hrun, hcovers.told htold, htold.task.listening.trans hlistening,
    htold.stats.symm, ?_, ?_⟩
  · rw [htold.violations]
  · intro hlimit
    have h : limitFrom config m = 0 := by simp [limitFrom, hlimit]
    show s'.stats.paths = tree.leaves
    rw [hcovers.paths, h, Branches.cut_zero]

/-- The program that picks three values has a finite choice tree, and the search goes through it. -/
theorem depthFirst_preorder_nondet : ∃ p m tree report s',
    Demo.nondet.run (Program.base .plain) = .ok ((), p) ∧ m.Driven p {} ∧ m.IsReady ∧
      m.HasFiniteTree ∧ m.Unfolds tree ∧ tree.isNone = false ∧
      run depthFirst (tree.edges + tree.points + 1) { machine := m, config := exhaustive } =
        .ok report s' ∧
      s'.Covers m tree ∧ report.stats.paths = tree.leaves := by
  obtain ⟨p, m, hbuild, hdriven, htest⟩ := Machine.Driven.exists_of_demo Demo.nondet
    [] (fun _ m => m.pending.isSome && m.endsWithin 5) (by decide +kernel)
  simp only [Bool.and_eq_true] at htest
  obtain ⟨hpending, hends⟩ := htest
  have hfinite := Machine.HasFiniteTree.of_endsWithin hends
  obtain ⟨tree, htree, -, hruns⟩ := depthFirst_preorder hdriven.isReady hfinite
  have hcut : tree.cut (limitFrom exhaustive m) = tree := tree.cut_zero
  obtain ⟨report, s', hrun, hcovers, -, -, -, hpaths⟩ := hruns exhaustive false
    (tree.edges + tree.points + 1) rfl rfl (by rw [hcut]; exact Nat.lt_succ_self _)
  rw [hcut] at hcovers
  refine ⟨p, m, tree, report, s', hbuild, hdriven, hdriven.isReady, hfinite, htree, ?_, hrun,
    hcovers, hpaths rfl⟩
  cases hp : m.pending with
  | none => simp [hp] at hpending
  | some g =>
    obtain ⟨hpos, hof⟩ := htree.of_some hp
    exact hof.isNone_eq_false hpos

end Search

end Interleave

import Interleave.Proofs.Search.Growth

/-!
# Searches in step

A search that stops at the first violation is run side by side with one that goes on. Up to the first
violation the two are in step: `Lockstep`. There the one is over, and whatever the other does from
then on is added to what it has done: `Parted`.
-/

namespace Interleave

open Effect

/-- The same task, but the search ends at the first violation. -/
def SearchConfig.stopping (c : SearchConfig) : SearchConfig := { c with stopOnFirstError := true }

/-- The same task, but the search goes on after violations. -/
def SearchConfig.lasting (c : SearchConfig) : SearchConfig := { c with stopOnFirstError := false }

namespace Search

variable {s s' t t' : Search} {m n : Machine} {g : Generator} {e : TransitionEnd}
  {listening parting : Bool} {bound : Option Nat}

/-! ## Side by side -/

/-- Two searches have found the same, as far as somebody listens to both. -/
structure SameFindings (listening : Bool) (s t : Search) : Prop where
  violations : s.violations = t.violations
  stats : s.stats = t.stats
  advanced : listening = true → s.advanced = t.advanced

/-- Two searches do the same, except that one of them may stop at violations where the other one does
not, and that it may be that nobody listens to the first one. -/
structure Abreast (listening : Bool) (s t : Search) : Prop extends SameFindings listening s t where
  machine : s.machine = t.machine
  config : s.config.stopping = t.config.stopping
  properties : s.properties = t.properties
  visited : s.visited = t.visited
  checkedAt : s.checkedAt = t.checkedAt
  done : s.done = t.done
  listens : s.listening = listening
  listened : t.listening = true

namespace Abreast

theorem tell {n n' : SearchNotice} (h : Abreast listening s t) (hn : n = n') :
    Abreast listening (s.tell n) (t.tell n') where
  violations := by simp [h.violations]
  stats := by simp [h.stats]
  advanced hl := by
    rw [advanced_tell, advanced_tell, h.advanced hl, h.listens, hl, h.listened, hn]
  machine := by simp [h.machine]
  config := by simp [h.config]
  properties := by simp [h.properties]
  visited := by simp [h.visited]
  checkedAt := by simp [h.checkedAt]
  done := by simp [h.done]
  listens := by simp [h.listens]
  listened := by simp [h.listened]

theorem drive (h : Abreast listening s t) (m : Machine) (f : SearchStats → SearchStats) :
    Abreast listening (({ s with machine := m } : Search).count f)
      (({ t with machine := m } : Search).count f) :=
  { h with
    stats := congrArg f h.stats
    advanced := h.advanced
    machine := rfl }

theorem count (h : Abreast listening s t) (f : SearchStats → SearchStats) :
    Abreast listening (s.count f) (t.count f) :=
  { h with
    stats := congrArg f h.stats
    advanced := h.advanced }

theorem forward (h : Abreast listening s t) (g : Generator) :
    Agree (Abreast listening) (forward g s) (forward g t) := by
  unfold Search.forward
  rw [h.machine]
  cases t.machine.transition g with
  | ok e k => exact .ok ((h.drive k _).tell rfl)
  | error e k => exact .error (h.drive k id)

theorem backtrack (h : Abreast listening s t) (snapshot : Snapshot) :
    Abreast listening (s.backtrack snapshot) (t.backtrack snapshot) := by
  unfold Search.backtrack
  rw [h.machine]
  refine (h.drive _ _).tell ?_
  unfold Search.count Search.depth
  rw [h.stats]

theorem restore (h : Abreast listening s t) (snapshot : Snapshot) :
    Abreast listening (s.restore snapshot) (t.restore snapshot) := by
  unfold Search.restore
  rw [h.machine]
  refine (h.drive _ _).tell ?_
  unfold Search.count Search.depth
  rw [h.stats]

theorem pathFinished (h : Abreast listening s t) : Abreast listening s.pathFinished t.pathFinished :=
  h.count _

theorem depth (h : Abreast listening s t) : s.depth = t.depth := congrArg Machine.depth h.machine

theorem cutOff (h : Abreast listening s t) : Abreast listening s.cutOff t.cutOff := by
  unfold Search.cutOff
  rw [h.machine]
  split
  · exact (h.count _).tell (congrArg (SearchNotice.constraintHit · "depth limit") h.depth)
  · exact h

theorem hasReached (h : Abreast listening s t) (bound : Option Nat) :
    s.hasReached bound = t.hasReached bound := by
  unfold Search.hasReached
  rw [h.depth]

theorem depthBound (h : Abreast listening s t) : s.depthBound = t.depthBound := by
  have hlimit : s.config.stopping.depthLimit = t.config.stopping.depthLimit := by rw [h.config]
  unfold Search.depthBound
  rw [show s.config.depthLimit = t.config.depthLimit from hlimit, h.depth]

theorem takeChoicePoint (h : Abreast listening s t) : s.takeChoicePoint.1 = t.takeChoicePoint.1 ∧
    Abreast listening s.takeChoicePoint.2 t.takeChoicePoint.2 := by
  unfold Search.takeChoicePoint
  rw [h.machine]
  exact ⟨rfl, h.drive _ id⟩

theorem visit (h : Abreast listening s t) (g : Generator) :
    (s.visit g).1 = (t.visit g).1 ∧ Abreast listening (s.visit g).2 (t.visit g).2 := by
  have hmatching : s.config.stopping.stateMatching = t.config.stopping.stateMatching := by
    rw [h.config]
  unfold Search.visit stateKey
  rw [show s.config.stateMatching = t.config.stateMatching from hmatching, h.machine, h.visited]
  split
  · dsimp only
    split
    · dsimp only
      exact ⟨rfl, h.count _⟩
    · dsimp only
      have hdriven := h.drive t.machine fun c => { c with newStates := c.newStates + 1 }
      exact ⟨rfl, { hdriven with visited := rfl, advanced := hdriven.advanced }⟩
  · dsimp only
    exact ⟨rfl, h.count _⟩

theorem failures (h : Abreast listening s t) : s.failures = t.failures := by
  unfold Search.failures
  rw [h.properties, h.machine]

theorem recordViolations (h : Abreast listening s t) (vs : List Violation) :
    Abreast listening (vs.foldl recordViolation s) (vs.foldl recordViolation t) := by
  induction vs generalizing s t with
  | nil => exact h
  | cons v vs ih =>
    have htold := h.tell (congrArg (SearchNotice.violated · v) h.depth)
    refine ih { htold with violations := ?_, advanced := htold.advanced }
    show (s.tell _).violations.push v = (t.tell _).violations.push v
    rw [htold.violations]

/-- Properties are checked alike, except that one of the searches may be over then. -/
theorem checkProperties (h : Abreast listening s t) :
    s.checkProperties.1 = t.checkProperties.1 ∧
      SameFindings listening s.checkProperties.2 t.checkProperties.2 ∧
      (s.config.stopOnFirstError = t.config.stopOnFirstError ∨ t.failures = [] →
        Abreast listening s.checkProperties.2 t.checkProperties.2) := by
  have hchecked : Abreast listening { s with checkedAt := some s.stats.transitions }
      { t with checkedAt := some t.stats.transitions } :=
    { h with
      checkedAt := by rw [h.stats]
      advanced := h.advanced }
  unfold Search.checkProperties
  rw [h.checkedAt, h.stats]
  rw [h.stats] at hchecked
  split
  · exact ⟨rfl, h.toSameFindings, fun _ => h⟩
  · dsimp only
    rw [hchecked.failures]
    cases hf : ({ t with checkedAt := some t.stats.transitions } : Search).failures with
    | nil => exact ⟨rfl, hchecked.toSameFindings, fun _ => hchecked⟩
    | cons v vs =>
      have hfound := hchecked.recordViolations (v :: vs)
      refine ⟨rfl, ⟨hfound.violations, hfound.stats, hfound.advanced⟩, ?_⟩
      rintro (hstop | hnone)
      · refine { hfound with done := ?_, advanced := hfound.advanced }
        obtain ⟨_, rfl, hs, -⟩ := foldl_recordViolation (v :: vs)
          { s with stats := t.stats, checkedAt := some t.stats.transitions }
        obtain ⟨_, rfl, ht, -⟩ := foldl_recordViolation (v :: vs)
          { t with checkedAt := some t.stats.transitions }
        show (_ || _) = (_ || _)
        rw [hfound.done, hs.task.config, ht.task.config]
        exact congrArg _ hstop
      · rw [show ({ t with checkedAt := some t.stats.transitions } : Search).failures = t.failures
          from rfl, hnone] at hf
        cases hf

end Abreast

/-- Nothing was wrong in the states that were reached so far, and where something is wrong the first
search is to stop and the second one is to go on. -/
structure Calm (s t : Search) : Prop where
  stops : s.config.stopOnFirstError = true
  lasts : t.config.stopOnFirstError = false
  violations : t.violations.toList = []
  fine : ∀ k ∈ t.advanced, k.failures = []

/-- Two searches are in step in front of a transition. -/
structure Lockstep (parting listening : Bool) (s t : Search) : Prop
    extends Abreast listening s t where
  defaults : t.properties = Property.defaults
  /-- No state was checked that is yet to come. -/
  checked : ∀ c, t.checkedAt = some c → c ≤ t.stats.transitions
  same : parting = false → s.config.stopOnFirstError = t.config.stopOnFirstError
  calm : parting = true → Calm s t

/-- The first search is over, since the last state that it has reached is one in which something is
wrong. The second one has reached the same states, and perhaps others after them. -/
def Parted (listening : Bool) (s t : Search) : Prop :=
  ∃ fine n, fine ++ [n] <+: t.advanced ∧ (∀ k ∈ fine, k.failures = []) ∧ n.failures ≠ [] ∧
    s.violations.toList = n.failures ∧ (listening = true → s.advanced = fine ++ [n])

theorem Parted.grows (h : Parted listening s t) (ht : Grows t t') : Parted listening s t' := by
  obtain ⟨fine, n, hreached, hrest⟩ := h
  exact ⟨fine, n, hreached.trans ht, hrest⟩

theorem Parted.steady (h : Parted listening s t) (hs : Steady s s') : Parted listening s' t := by
  unfold Parted
  rw [hs.violations, hs.advanced]
  exact h

namespace Lockstep

theorem of_steady (h : Lockstep parting listening s t) (hs : Steady s s') (ht : Steady t t')
    (h' : Abreast listening s' t') : Lockstep parting listening s' t' where
  toAbreast := h'
  defaults := ht.properties.trans h.defaults
  checked := by
    rw [ht.checkedAt, ht.transitions]
    exact h.checked
  same hp := by
    rw [hs.config, ht.config]
    exact h.same hp
  calm hp := by
    obtain ⟨hstops, hlasts, hviolations, hfine⟩ := h.calm hp
    refine ⟨by rw [hs.config, hstops], by rw [ht.config, hlasts], by rw [ht.violations, hviolations],
      ?_⟩
    rw [ht.advanced]
    exact hfine

theorem advanced_eq (h : Lockstep parting listening s t) (ht : Moved t e n t') :
    t'.advanced = t.advanced ++ [n] := by
  rw [ht.advanced, if_pos h.listened]

theorem failures_of_moved (h : Lockstep parting listening s t) (ht : Moved t e n t') :
    t'.failures = n.failures := by
  rw [failures_eq (ht.task.properties.trans h.defaults), ht.machine]

/-- Both have run a transition, and check the state that they have reached. They remain in step,
unless they part there. -/
theorem goesOn (h : Lockstep parting listening s t) (hs : Moved s e n s') (ht : Moved t e n t')
    (h' : Abreast listening s' t')
    (hstop : s'.config.stopOnFirstError = t'.config.stopOnFirstError ∨ t'.failures = [])
    (hfine : parting = true → t'.failures = []) :
    s'.checkProperties.1 = t'.checkProperties.1 ∧
      Lockstep parting listening s'.checkProperties.2 t'.checkProperties.2 := by
  have hsx := examined_checkProperties s'
  have htx := examined_checkProperties t'
  obtain ⟨hfailed, -, habreast⟩ := h'.checkProperties
  replace habreast := habreast hstop
  refine ⟨hfailed, { habreast with
    defaults := htx.properties.trans (ht.task.properties.trans h.defaults)
    checked := ?_
    same := ?_
    calm := ?_ }⟩
  · intro c hc
    rw [htx.checkedAt] at hc
    cases hc
    exact Nat.le_of_eq htx.transitions.symm
  · intro hp
    rw [hsx.config, htx.config, hs.task.config, ht.task.config]
    exact h.same hp
  · intro hp
    obtain ⟨hstops, hlasts, hviolations, hfines⟩ := h.calm hp
    refine ⟨?_, ?_, ?_, ?_⟩
    · rw [hsx.config, hs.task.config, hstops]
    · rw [htx.config, ht.task.config, hlasts]
    · rw [(looked_checkProperties (ht.unchecked h.checked)).violations, hfine hp, ht.violations,
        hviolations]
      rfl
    · rw [htx.advanced, h.advanced_eq ht]
      refine List.forall_mem_append.mpr ⟨hfines, List.forall_mem_singleton.mpr ?_⟩
      rw [← h.failures_of_moved ht, hfine hp]

/-- Where something is wrong, the search that is to stop is over when it has checked the state. -/
theorem parts (h : Lockstep true listening s t) (hs : Moved s e n s') (ht : Moved t e n t')
    (h' : Abreast listening s' t') (hwrong : t'.failures ≠ []) :
    (s'.checkProperties.1 = true ∧ s'.checkProperties.2.done = true) ∧
      Parted listening s'.checkProperties.2 t' := by
  obtain ⟨hstops, -, hviolations, hfines⟩ := h.calm rfl
  have hadvanced := h.advanced_eq ht
  have hfailures := h.failures_of_moved ht
  have hnew : s'.checkedAt ≠ some s'.stats.transitions := by
    rw [h'.checkedAt, h'.stats]
    exact ht.unchecked h.checked
  obtain ⟨hfailed, hdone, hlooked⟩ := checkProperties_stops
    (hs.task.config ▸ hstops) (h'.failures ▸ hwrong) hnew
  refine ⟨⟨hfailed, hdone⟩, t.advanced, n, hadvanced ▸ List.prefix_rfl, hfines, hfailures ▸ hwrong,
    ?_, fun hl => ?_⟩
  · rw [hlooked.violations, h'.failures, hfailures, h'.violations, ht.violations, hviolations]
    rfl
  · rw [hlooked.advanced, h'.advanced hl, hadvanced]

/-- So either they remain in step, or the first one stops. -/
theorem checkProperties (h : Lockstep parting listening s t) (hs : Moved s e n s')
    (ht : Moved t e n t') (h' : Abreast listening s' t') :
    (s'.checkProperties.1 = t'.checkProperties.1 ∧
      Lockstep parting listening s'.checkProperties.2 t'.checkProperties.2) ∨
    parting = true ∧ (s'.checkProperties.1 = true ∧ s'.checkProperties.2.done = true) ∧
      Parted listening s'.checkProperties.2 t' := by
  -- only a search that is to stop where the other goes on parts from it
  by_cases hfine : t'.failures = []
  · exact .inl (h.goesOn hs ht h' (.inr hfine) fun _ => hfine)
  · cases parting with
    | false =>
      refine .inl (h.goesOn hs ht h' (.inl ?_) nofun)
      rw [hs.task.config, ht.task.config]
      exact h.same rfl
    | true => exact .inr ⟨rfl, h.parts hs ht h' hfine⟩

/-- What becomes of the path is the same for both searches, or the first one is over. -/
theorem arrive (bound : Option Nat) (h : Lockstep parting listening s t) (hs : Moved s e n s')
    (ht : Moved t e n t') (h' : Abreast listening s' t') :
    ((s'.arrive bound).1 = (t'.arrive bound).1 ∧
      Lockstep parting listening (s'.arrive bound).2 (t'.arrive bound).2) ∨
    parting = true ∧ (s'.arrive bound).1 = .stopped ∧
      Parted listening (s'.arrive bound).2 t' := by
  have hssteady := steady_arrive s' bound
  have htsteady := steady_arrive t' bound
  rcases h.checkProperties hs ht h' with ⟨hfailed, hlockstep⟩ | ⟨hp, ⟨hfailed, hdone⟩, hparted⟩
  · suffices habreast : (s'.arrive bound).1 = (t'.arrive bound).1 ∧
        Abreast listening (s'.arrive bound).2 (t'.arrive bound).2 from
      .inl ⟨habreast.1, hlockstep.of_steady hssteady htsteady habreast.2⟩
    have hchecked := hlockstep.toAbreast
    unfold Search.arrive
    generalize s'.checkProperties = c at hfailed hchecked
    generalize t'.checkProperties = d at hfailed hchecked
    obtain ⟨_, s₁⟩ := c
    obtain ⟨failed, t₁⟩ := d
    dsimp only at hfailed hchecked ⊢
    rw [hfailed, hchecked.done, hchecked.hasReached]
    split
    · exact ⟨rfl, hchecked.pathFinished⟩
    · split
      · exact ⟨rfl, hchecked.cutOff.pathFinished⟩
      · obtain ⟨hpending, htaken⟩ := hchecked.takeChoicePoint
        generalize s₁.takeChoicePoint = c at hpending htaken
        generalize t₁.takeChoicePoint = d at hpending htaken
        obtain ⟨_, s₂⟩ := c
        obtain ⟨_ | g, t₂⟩ := d
        · dsimp only at hpending htaken
          subst hpending
          exact ⟨rfl, htaken.pathFinished⟩
        · dsimp only at hpending htaken
          subst hpending
          obtain ⟨hopen, hvisited⟩ := htaken.visit g
          dsimp only
          generalize s₂.visit g = c at hopen hvisited
          generalize t₂.visit g = d at hopen hvisited
          obtain ⟨_, s₃⟩ := c
          obtain ⟨_ | _, t₃⟩ := d
          · dsimp only at hopen hvisited
            subst hopen
            exact ⟨rfl, hvisited⟩
          · dsimp only at hopen hvisited
            subst hopen
            exact ⟨rfl, hvisited⟩
  · refine .inr ⟨hp, ?_, hparted.steady hssteady⟩
    rw [arrive_of_stop bound hfailed hdone]

theorem proceed (bound : Option Nat) (h : Lockstep parting listening s t) :
    (Sampling.proceed s bound).1 = (Sampling.proceed t bound).1 ∧
      Lockstep parting listening (Sampling.proceed s bound).2 (Sampling.proceed t bound).2 := by
  suffices habreast : (Sampling.proceed s bound).1 = (Sampling.proceed t bound).1 ∧
      Abreast listening (Sampling.proceed s bound).2 (Sampling.proceed t bound).2 from
    ⟨habreast.1, h.of_steady (steady_proceed s bound) (steady_proceed t bound) habreast.2⟩
  unfold Sampling.proceed
  rw [h.done, h.hasReached]
  split
  · exact ⟨rfl, h.toAbreast⟩
  · split
    · exact ⟨rfl, h.cutOff⟩
    · exact h.takeChoicePoint

end Lockstep

/-! ## Rounds -/

/-- What comes of the two searches: their outcomes agree, or the first one is over. -/
def InStep {α : Type} (parting listening : Bool) (R : Search → Search → Prop) (stop : α)
    (x y : EStateM.Result SearchFault Search α) : Prop :=
  Agree R x y ∨ parting = true ∧ ∃ s', x = .ok stop s' ∧
    Ends (fun _ => Parted listening s') (Parted listening s') y

/-- What the two searches make of a round. -/
abbrev RoundInStep {β : Type} (parting listening : Bool)
    (x y : EStateM.Result SearchFault Search (β ⊕ Unit)) : Prop :=
  InStep parting listening (Lockstep parting listening) (.inr ()) x y

/-- Both searches run a transition, and look at the state that it leads to. -/
theorem Lockstep.forward {β : Type} {f : TransitionEnd → Action (β ⊕ Unit)}
    (h : Lockstep parting listening s t) (g : Generator)
    (hf : ∀ e n s' t', Moved s e n s' → Moved t e n t' → Abreast listening s' t' →
      RoundInStep parting listening (f e s') (f e t')) :
    RoundInStep parting listening ((Search.forward g >>= f) s) ((Search.forward g >>= f) t) := by
  have hagree := h.toAbreast.forward g
  cases hs : Search.forward g s with
  | error e s' =>
    obtain ⟨t', ht, habreast⟩ : ∃ t', Search.forward g t = .error e t' ∧ Abreast listening s' t' := by
      rw [hs] at hagree
      exact hagree.of_error rfl
    rw [bind_of_error hs, bind_of_error ht]
    exact .inl (.error (h.of_steady (steady_forward hs) (steady_forward ht) habreast))
  | ok e s' =>
    obtain ⟨t', ht, habreast⟩ := hagree.of_ok hs
    obtain ⟨n, -, hsmoved⟩ := exists_moved hs
    obtain ⟨k, -, htmoved⟩ := exists_moved ht
    have hsame : k = n := by rw [← hsmoved.machine, ← htmoved.machine, habreast.machine]
    rw [bind_of_ok hs, bind_of_ok ht]
    exact hf e n s' t' hsmoved (hsame ▸ htmoved) habreast

theorem Lockstep.returned {snapshot : Snapshot} (h : Lockstep parting listening s t)
    (hs : Returned s snapshot s') (ht : Returned t snapshot t') (h' : Abreast listening s' t') :
    Lockstep parting listening s' t' :=
  h.of_steady hs.steady ht.steady h'

theorem DepthFirst.round_inStep (bound : Option Nat) (stack : List Branch)
    (h : Lockstep parting listening s t) :
    RoundInStep parting listening (round bound stack s) (round bound stack t) := by
  cases stack with
  | nil => exact .inl (.ok h)
  | cons top rest =>
    by_cases hdone : t.done = true
    · rw [round_of_done bound rest hdone, round_of_done bound rest (h.done.trans hdone)]
      exact .inl (.ok h)
    · have hgo : t.done = false := Bool.not_eq_true _ ▸ hdone
      rw [round_cons bound rest top hgo, round_cons bound rest top (h.done.trans hgo)]
      rcases top.generator.advance with ⟨_ | c, g⟩
      · dsimp only
        split
        · exact .inl (.error h)
        · exact .inl (.ok h)
      · have hback : Lockstep parting listening (backTo s top) (backTo t top) := by
          unfold backTo
          split
          · exact h
          · exact h.returned (Returned.backtrack s _) (Returned.backtrack t _)
              (h.backtrack top.snapshot)
        refine hback.forward g fun e n s' t' hs ht habreast => ?_
        rcases hback.arrive bound hs ht habreast with ⟨harrival, hlockstep⟩ | ⟨hp, hstop, hparted⟩
        · refine .inl ?_
          unfold look
          rw [harrival]
          have hbranch : ∀ g, branch (s'.arrive bound).2 g = branch (t'.arrive bound).2 g := by
            intro g
            unfold branch
            rw [hlockstep.machine]
          cases (t'.arrive bound).1 with
          | stopped => exact .ok hlockstep
          | closed => exact .ok hlockstep
          | opened g =>
            dsimp only [stackAfter]
            rw [hbranch g]
            exact .ok hlockstep
        · refine .inr ⟨hp, _, ?_, hparted.grows (grows_arrive t' bound)⟩
          unfold look
          rw [hstop]
          rfl

/-- What is queued depends on the state of the machine alone. -/
theorem BestFirst.expand_agree {α : Type} (heuristic : Heuristic α) (q : Queue α) (g : Generator)
    (h : Lockstep parting listening s t) :
    Agree (Lockstep parting listening) (q.expand heuristic g s) (q.expand heuristic g t) := by
  have hadd : Queue.add heuristic s g = Queue.add heuristic t g := by
    funext q i
    unfold Queue.add
    rw [h.machine]
  rw [Queue.expand_apply, Queue.expand_apply, hadd]
  split
  · exact .error h
  · exact .ok h

theorem BestFirst.round_inStep {α : Type} (heuristic : Heuristic α) (bound : Option Nat)
    (q : Queue α) (h : Lockstep parting listening s t) :
    RoundInStep parting listening (round heuristic bound q s) (round heuristic bound q t) := by
  cases hq : q.entries.minEntry? with
  | none =>
    rw [round_of_none hq, round_of_none hq]
    exact .inl (.ok h)
  | some r =>
    obtain ⟨rank, entry⟩ := r
    by_cases hdone : t.done = true
    · rw [round_of_done hdone hq, round_of_done (h.done.trans hdone) hq]
      exact .inl (.ok h)
    · have hgo : t.done = false := Bool.not_eq_true _ ▸ hdone
      rw [round_eq heuristic bound hgo hq, round_eq heuristic bound (h.done.trans hgo) hq]
      have hjump : Lockstep parting listening (jumpTo s q.atRoot entry)
          (jumpTo t q.atRoot entry) := by
        unfold jumpTo
        split
        · exact h
        · exact h.returned (Returned.restore s _) (Returned.restore t _) (h.restore entry.snapshot)
      refine hjump.forward entry.generator fun e n s' t' hs ht habreast => ?_
      rcases hjump.arrive bound hs ht habreast with ⟨harrival, hlockstep⟩ | ⟨hp, hstop, hparted⟩
      · refine .inl ?_
        unfold look
        rw [harrival]
        cases (t'.arrive bound).1 with
        | stopped => exact .ok hlockstep
        | closed => exact .ok hlockstep
        | opened g =>
          exact Agree.bind (expand_agree heuristic _ g hlockstep) fun q s t hst => .ok hst
      · refine .inr ⟨hp, (s'.arrive bound).2, ?_, ?_⟩
        · unfold look
          rw [hstop]
          rfl
        · exact (ongoing_look heuristic bound _ t').mono (fun _ _ => hparted.grows)
            fun _ => hparted.grows

theorem Sampling.round_inStep (bound : Option Nat) (init : Snapshot) (root : Generator)
    (next : Generator × Rng) (h : Lockstep parting listening s t) :
    RoundInStep parting listening (round bound init root next s) (round bound init root next t) := by
  obtain ⟨g, rng⟩ := next
  rcases Nat.eq_zero_or_pos g.total with hempty | hpos
  · rw [round_of_empty bound init root rng hempty, round_of_empty bound init root rng hempty]
    exact .inl (.error h)
  · rw [round_eq bound init root rng hpos, round_eq bound init root rng hpos]
    refine h.forward _ fun e n s' t' hs ht habreast => ?_
    rcases h.checkProperties hs ht habreast with
      ⟨-, hlockstep⟩ | ⟨hp, ⟨-, hdone⟩, hparted⟩
    · refine .inl ?_
      obtain ⟨hnext, hproceed⟩ := hlockstep.proceed bound
      have hlimit : ∀ s t, Lockstep parting listening s t →
          s.config.pathLimit = t.config.pathLimit := by
        intro s t hst
        have hlimit : s.config.stopping.pathLimit = t.config.stopping.pathLimit := by rw [hst.config]
        exact hlimit
      unfold look
      generalize proceed s'.checkProperties.2 bound = c at hnext hproceed
      generalize proceed t'.checkProperties.2 bound = d at hnext hproceed
      obtain ⟨_, s₁⟩ := c
      obtain ⟨_ | next, t₁⟩ := d
      · dsimp only at hnext hproceed
        subst hnext
        have hfinished : Lockstep parting listening s₁.pathFinished t₁.pathFinished :=
          hproceed.of_steady (steady_pathFinished s₁) (steady_pathFinished t₁)
            hproceed.toAbreast.pathFinished
        dsimp only
        rw [hproceed.done, hlimit s₁ t₁ hproceed, hfinished.stats]
        split
        · exact .ok hfinished
        · exact .ok (hfinished.returned (Returned.restore _ _) (Returned.restore _ _)
            (hfinished.toAbreast.restore init))
      · dsimp only at hnext hproceed
        subst hnext
        exact .ok hproceed
    · refine .inr ⟨hp, s'.checkProperties.2.pathFinished, ?_,
        (ongoing_look bound init root _ t').mono (fun _ _ ht' => ?_) fun _ ht' => ?_⟩
      · unfold look proceed
        rw [hdone, if_pos rfl]
        dsimp only
        rw [hdone, Bool.true_or, if_pos rfl]
      · exact (hparted.steady (steady_pathFinished _)).grows ht'
      · exact (hparted.steady (steady_pathFinished _)).grows ht'

end Search

end Interleave

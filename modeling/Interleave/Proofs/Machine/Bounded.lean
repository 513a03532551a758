import Interleave.Proofs.Machine.HostCalls
import Interleave.Proofs.Machine.Isolation
import Interleave.Proofs.Machine.Stops
import Mathlib.Data.Finset.Card
import Mathlib.Data.Finset.Range

/-!
# Transitions that are broken in time

A transition is broken after a given number of steps, but not before the first instruction of a
thread that the machine has just switched to. It comes to an end all the same. Once it has run for
long enough, it goes on only with a thread that was the only one left that can run. If that thread
can still run after its instruction, the transition is broken. If it waits, it has woken nobody, and
no thread can run. So the transition goes on only if the thread has ended, and no thread ends twice.
-/

namespace Interleave

open Effect

/-! ## Threads that have ended -/

namespace Kernel

variable {p : Program} {k k' : Kernel} {t : ThreadId}

/-- The numbers of the threads that have ended. -/
def endedThreads (k : Kernel) : Finset Nat :=
  (Finset.range k.threads.size).filter fun i => k.threads[i]?.any Thread.isTerminated = true

/-- The number of threads that have not ended. -/
def living (k : Kernel) : Nat := k.threads.size - k.endedThreads.card

theorem mem_endedThreads {i : Nat} :
    i ∈ k.endedThreads ↔ ∃ th, k.threads[i]? = some th ∧ th.isTerminated = true := by
  unfold endedThreads
  rw [Finset.mem_filter, Finset.mem_range, Option.any_eq_true]
  constructor
  · rintro ⟨-, th, hth, hended⟩
    exact ⟨th, hth, hended⟩
  · rintro ⟨th, hth, hended⟩
    obtain ⟨hi, -⟩ := Array.getElem?_eq_some_iff.mp hth
    exact ⟨hi, th, hth, hended⟩

theorem card_endedThreads_le (k : Kernel) : k.endedThreads.card ≤ k.threads.size := by
  have hcard := Finset.card_filter_le (Finset.range k.threads.size)
    fun i => k.threads[i]?.any Thread.isTerminated = true
  rwa [Finset.card_range] at hcard

theorem Runs.not_mem_endedThreads (h : k.Runs t) : t.index ∉ k.endedThreads := by
  intro hmem
  obtain ⟨th, hth, hended⟩ := mem_endedThreads.mp hmem
  obtain ⟨th', hth', hrun⟩ := h
  rw [hth] at hth'
  cases hth'
  have hrunnable : th.status = .runnable := by simpa [Thread.isRunnable] using hrun
  simp [Thread.isTerminated, hrunnable] at hended

/-- A thread that can run has not ended. -/
theorem Runs.card_endedThreads_lt (h : k.Runs t) : k.endedThreads.card < k.threads.size := by
  obtain ⟨th, hth⟩ := h.exists
  obtain ⟨hi, -⟩ := Array.getElem?_eq_some_iff.mp hth
  have hsubset : insert t.index k.endedThreads ⊆ Finset.range k.threads.size := by
    refine Finset.insert_subset (Finset.mem_range.mpr hi) ?_
    exact Finset.filter_subset _ _
  have hcard := Finset.card_le_card hsubset
  rw [Finset.card_insert_of_notMem h.not_mem_endedThreads, Finset.card_range] at hcard
  exact hcard

/-- Threads that have ended stay so while another one takes a step. -/
theorem Isolated.endedThreads_subset (h : Isolated t k k') (hruns : k.Runs t) :
    k.endedThreads ⊆ k'.endedThreads := by
  intro i hi
  obtain ⟨th, hth, hended⟩ := mem_endedThreads.mp hi
  have hne : (⟨i⟩ : ThreadId) ≠ t := by
    rintro rfl
    exact hruns.not_mem_endedThreads hi
  obtain ⟨th', hth', hwoken⟩ := h.others ⟨i⟩ th hne hth
  have hstatus : th.status = .terminated := by simpa [Thread.isTerminated] using hended
  have hsame : th' = th := by
    refine hwoken.left fun hfulfils => ?_
    rw [hstatus] at hfulfils
    cases hfulfils
  rw [hsame] at hth'
  exact mem_endedThreads.mpr ⟨th, hth', hended⟩

/-- Turns of threads keep a state sound. -/
theorem Sound.turns (hs : k.Sound p) (h : Relation.ReflTransGen (Turn p) k k') : k'.Sound p := by
  induction h with
  | refl => exact hs
  | tail _ hlast ih => exact ih.turn hlast

end Kernel

namespace Machine

namespace Performed.LeadsTo

variable {x : Performed} {m' : Machine} {p : Program}

theorem isolated (h : x.LeadsTo m') (hlives : x.before.Lives x.thread) :
    x.before.Isolated x.thread x.after := by
  have htouched : x.before.Touched x.thread x.work.kernel :=
    Step.touched_perform h.stands h.performed
  unfold after
  cases x.outcome with
  | running =>
    have hisolated := htouched.isolated hlives (g := id) fun _ => ⟨rfl, rfl, rfl⟩
    rwa [Kernel.modifyThread_id] at hisolated
  | finished => exact htouched.isolated_ended
  | escaped r => exact htouched.isolated_ended

theorem endedThreads_subset (h : x.LeadsTo m') (hruns : x.before.Runs x.thread) :
    x.before.endedThreads ⊆ x.after.endedThreads :=
  (h.isolated hruns.lives).endedThreads_subset hruns

/-- At most one thread is added, and none if the thread ends. -/
theorem size_after (h : x.LeadsTo m') : x.after.threads.size = x.before.threads.size ∨
    x.outcome ≠ .finished ∧ x.after.threads.size = x.before.threads.size + 1 := by
  have hsettled : x.after.threads.size = x.work.kernel.threads.size := by
    unfold after
    cases x.outcome with
    | running => rfl
    | finished => exact Kernel.size_ended _ _
    | escaped r => exact Kernel.size_ended _ _
  rw [hsettled]
  rcases Step.size_perform h.performed with hsame | ⟨-, hfinished, hmore⟩
  · exact .inl hsame
  · exact .inr ⟨hfinished, hmore⟩

theorem size_le (h : x.LeadsTo m') : x.before.threads.size ≤ x.after.threads.size := by
  rcases h.size_after with he | ⟨-, he⟩
  all_goals omega

/-- **A thread that waits has woken nobody.** When the only thread that can run has run an
instruction, it can still run, or nobody can, or it has ended. -/
theorem runs_or_rests_or_ends (h : x.LeadsTo m') (hstays : ∀ r, x.outcome ≠ .escaped r)
    (hs : x.after.Sound p) (honly : ∀ u, x.before.Runs u ↔ u = x.thread) :
    x.after.Runs x.thread ∨ x.after.runnable = [] ∨
      x.before.endedThreads.card < x.after.endedThreads.card ∧
        x.after.threads.size = x.before.threads.size := by
  have hruns : x.before.Runs x.thread := (honly _).mpr rfl
  rcases Step.perform_others h.performed with ⟨hrunning, htakes⟩ | hgives
  · have hafter : x.after = x.work.kernel := by
      unfold after
      rw [hrunning]
      rfl
    by_cases hstill : x.after.Runs x.thread
    · exact .inl hstill
    · refine .inr (.inl ?_)
      by_contra hne
      obtain ⟨u, hu⟩ := hs.runnable_ne_nil.mp hne
      have hother : u ≠ x.thread := by
        rintro rfl
        exact hstill hu
      -- the other thread was there, and it could run already
      rw [hafter] at hu
      obtain ⟨th, hth, hrun⟩ := hu
      obtain ⟨hi, -⟩ := Array.getElem?_eq_some_iff.mp hth
      rw [htakes.size] at hi
      have hbefore := htakes.others u _ hother (Array.getElem?_eq_getElem hi)
      rw [hth] at hbefore
      cases hbefore
      exact hother ((honly u).mp ⟨_, Array.getElem?_eq_getElem hi, hrun⟩)
  · obtain ⟨th, hth, hrun⟩ := hruns
    have hrunnable : th.status = .runnable := by simpa [Thread.isRunnable] using hrun
    obtain ⟨th', hth', hrunnable'⟩ := hgives.status th hth hrunnable
    cases hout : x.outcome with
    | running =>
      refine .inl ⟨th', ?_, by simp [Thread.isRunnable, hrunnable']⟩
      unfold after
      rw [hout]
      exact hth'
    | escaped r => exact absurd hout (hstays r)
    | finished =>
      refine .inr (.inr ⟨?_, ?_⟩)
      · refine Finset.card_lt_card ⟨h.endedThreads_subset ⟨th, hth, hrun⟩, fun hback => ?_⟩
        refine Kernel.Runs.not_mem_endedThreads ⟨th, hth, hrun⟩ (hback ?_)
        refine Kernel.mem_endedThreads.mpr ⟨th'.terminate, ?_, rfl⟩
        unfold after
        rw [hout]
        show (x.work.kernel.ended x.thread).threads[x.thread.index]? = _
        rw [Kernel.getElem?_ended_self, hth']
        rfl
      · rcases h.size_after with hsame | ⟨hfinished, -⟩
        · exact hsame
        · exact absurd hout hfinished

end Performed.LeadsTo

/-! ## How far a transition is from its end -/

variable {p : Program} {config : Config} {m m' : Machine} {steps left : Nat}
  {x : Option Performed} {n : Nat}

/-- A transition that is broken after `n` steps is at a point where at most `left` rounds go on. -/
inductive Nears (n : Nat) (m : Machine) (left : Nat) : Nat → Prop where
  /-- It has not run for long enough, or the only thread that can run is fresh. A thread that is not
  fresh may be followed by one that is, which takes one more round. -/
  | underway {steps : Nat} (only : n ≤ steps → m.isFresh = true → m.kernel.runnable = [m.current])
    (steps_le : steps ≤ n + m.kernel.endedThreads.card)
    (room : 4 * (n - steps) + 2 * m.kernel.living + 1 ≤ left)
    (more : ¬ (m.isFresh = true ∧ m.kernel.Runs m.current) →
      4 * (n - steps) + 2 * m.kernel.living + 2 ≤ left) : Nears n m left steps
  /-- The next round is the last. -/
  | last {steps : Nat} (late : n ≤ steps) (steps_le : steps ≤ n + m.kernel.threads.size)
    (ends : m.kernel.Runs m.current ∨ m.kernel.runnable = []) (stale : m.isFresh = false) :
    Nears n m left steps

/-- A transition that has run for long enough is broken before the next instruction. -/
theorem isDue_of_le {i : Instruction} (hpos : 0 < m.config.maxTransitionLength)
    (hsteps : m.config.maxTransitionLength ≤ steps) (hat : m.kernel.At m.current i) :
    m.IsDue steps := by
  obtain ⟨f, hf, hi⟩ := hat
  by_cases hrelevant :
      (!m.config.isAtomic f.method && Relevance.isRelevant m.program m.kernel m.current i) = true
  · exact ⟨f, i, _, hf, hi, by rw [breakBefore, if_pos hrelevant]⟩
  · exact ⟨f, i, _, hf, hi, by rw [breakBefore, if_neg hrelevant, if_pos ⟨hpos, hsteps⟩]⟩

/-- An instruction that is run after that is the first one of a fresh thread. -/
theorem Performed.Starts.isFresh_of_le {y : Performed} (h : y.Starts m steps)
    (hleads : y.LeadsTo m') (hpos : 0 < m.config.maxTransitionLength)
    (hsteps : m.config.maxTransitionLength ≤ steps) : m.isFresh = true := by
  obtain ⟨rfl, hthread, -, hfree⟩ := h
  rcases hfree with hfresh | hdue
  · exact hfresh
  · exact absurd (isDue_of_le hpos hsteps (hthread ▸ hleads.stands)) hdue

namespace Nears

theorem steps_le (h : Nears n m left steps) : steps ≤ n + m.kernel.threads.size := by
  cases h with
  | underway _ hsteps =>
    have hcard := m.kernel.card_endedThreads_le
    omega
  | last _ hsteps => exact hsteps

theorem of_stale (hstale : m.isFresh = false) (h : steps ≤ n + m.kernel.endedThreads.card) :
    Nears n m (4 * (n - steps) + 2 * m.kernel.living + 2) steps := by
  refine .underway ?_ h ?_ fun _ => Nat.le_refl _
  · intro _ hfresh
    rw [hstale] at hfresh
    cases hfresh
  · omega

/-- The machine may switch to the only thread that can run. -/
theorem switched {t : ThreadId} (h : Nears n m left steps) (hs : m.kernel.Sound p)
    (hidle : ¬ m.kernel.Runs m.current) (honly : m.kernel.runnable = [t])
    (hsame : SameState { m with path := { m.path with current := t } } m')
    (hfresh : m'.isFresh = true) : ∃ left' < left, Nears n m' left' steps := by
  cases h with
  | last _ _ ends _ =>
    rcases ends with hruns | hnone
    · exact absurd hruns hidle
    · rw [honly] at hnone
      cases hnone
  | underway _ hsteps _ more =>
    have hmore := more fun h => hidle h.2
    have hcurrent : m'.current = t := by
      unfold current
      rw [hsame.path]
    have hruns : m'.kernel.Runs m'.current := by
      rw [hsame.kernel, hcurrent]
      refine hs.mem_runnable.mp ?_
      show t ∈ m.kernel.runnable
      simp [honly]
    refine ⟨4 * (n - steps) + 2 * m.kernel.living + 1, by omega, .underway ?_ ?_ ?_ ?_⟩
    · intro _ _
      rw [hsame.kernel, hcurrent]
      exact honly
    · rw [hsame.kernel]
      exact hsteps
    · rw [hsame.kernel]
    · intro hnot
      exact absurd ⟨hfresh, hruns⟩ hnot

/-- An instruction brings the end closer. -/
theorem stepped {y : Performed} (h : Nears m.config.maxTransitionLength m left steps)
    (hpos : 0 < m.config.maxTransitionLength) (hstarts : y.Starts m steps)
    (hleads : y.LeadsTo m') (hstays : ∀ r, y.outcome ≠ .escaped r) (hstale : m'.isFresh = false)
    (hs : m.kernel.Sound p) (hs' : m'.kernel.Sound p) :
    ∃ left' < left, Nears m.config.maxTransitionLength m' left' (steps + 1) := by
  have hfresh := hstarts.isFresh_of_le hleads
  obtain ⟨rfl, hthread, hruns, -⟩ := hstarts
  generalize hn : y.machine.config.maxTransitionLength = n at h hpos hfresh ⊢
  have hbefore : y.before.Runs y.thread := hthread ▸ hruns
  have hended : y.machine.kernel.endedThreads.card ≤ m'.kernel.endedThreads.card := by
    rw [hleads.kernel]
    exact Finset.card_le_card (hleads.endedThreads_subset hbefore)
  have hsize : m'.kernel.threads.size ≤ y.machine.kernel.threads.size + 1 ∧
      y.machine.kernel.threads.size ≤ m'.kernel.threads.size := by
    rw [hleads.kernel]
    show _ ≤ y.before.threads.size + 1 ∧ y.before.threads.size ≤ _
    rcases hleads.size_after with he | ⟨-, he⟩
    all_goals omega
  have hlt := hruns.card_endedThreads_lt
  have hlt' := m'.kernel.card_endedThreads_le
  cases h with
  | last late _ _ stale =>
    rw [hfresh hpos late] at stale
    cases stale
  | underway only hsteps room =>
    unfold Kernel.living at room
    -- up to `n` steps the steps that are left carry the measure, and after that the living threads
    by_cases hlate : n ≤ steps
    · have honly : ∀ u, y.before.Runs u ↔ u = y.thread := by
        intro u
        have hrunnable := only hlate (hfresh hpos hlate)
        rw [hthread, ← List.mem_singleton, ← hrunnable]
        exact hs.mem_runnable.symm
      have hends := hleads.runs_or_rests_or_ends hstays (hleads.kernel ▸ hs') honly
      rw [← hleads.kernel, hthread, ← hleads.current_eq, ← or_assoc] at hends
      rcases hends with hlast | ⟨hmore, hsame⟩
      · exact ⟨0, by omega, .last (by omega) (by omega) hlast hstale⟩
      · replace hmore : y.machine.kernel.endedThreads.card < m'.kernel.endedThreads.card := hmore
        replace hsame : m'.kernel.threads.size = y.machine.kernel.threads.size := hsame
        have hnears : Nears n m' _ (steps + 1) := of_stale hstale (by omega)
        refine ⟨_, ?_, hnears⟩
        unfold Kernel.living
        omega
    · have hnears : Nears n m' _ (steps + 1) := of_stale hstale (by omega)
      refine ⟨_, ?_, hnears⟩
      unfold Kernel.living
      omega

/-- The instructions up to one that is performed are counted. -/
theorem counts {y : Performed} (h : Nears m.config.maxTransitionLength m left steps)
    (hpos : 0 < m.config.maxTransitionLength) (hstarts : y.Starts m steps)
    (hleads : y.LeadsTo m') :
    steps + 1 ≤ m.config.maxTransitionLength + m'.kernel.threads.size := by
  have hfresh := hstarts.isFresh_of_le hleads hpos
  obtain ⟨rfl, -, hruns, -⟩ := hstarts
  have hsize : y.machine.kernel.threads.size ≤ m'.kernel.threads.size :=
    hleads.kernel ▸ hleads.size_le
  have hlt := hruns.card_endedThreads_lt
  cases h with
  | last late _ _ stale =>
    rw [hfresh late] at stale
    cases stale
  | underway _ hsteps => omega

end Nears

/-- A transition that is broken in time has got to a point. -/
structure InTime (m : Machine) (left steps : Nat) : Prop where
  hostCall : m.hostCall = none
  sound : m.kernel.Sound m.program
  bounded : 0 < m.config.maxTransitionLength
  nears : Nears m.config.maxTransitionLength m left steps

namespace InTime

/-- A round that goes on brings the end closer. -/
theorem next {steps' : Nat} (h : InTime m left steps)
    (hplayed : Played m steps x (.inl steps') m') : ∃ left' < left, InTime m' left' steps' := by
  obtain ⟨hprogram, hconfig, hhost⟩ := hplayed.sameRun h.hostCall
  have hsound : m'.kernel.Sound m.program := h.sound.turns hplayed.rounded.turns
  obtain ⟨left', hlt, hnears⟩ :
      ∃ left' < left, Nears m.config.maxTransitionLength m' left' steps' := by
    cases hplayed with
    | switched idle only same fresh => exact h.nears.switched h.sound idle only same fresh
    | stepped starts leads stays _ stale =>
      exact h.nears.stepped h.bounded starts leads stays stale h.sound hsound
  exact ⟨left', hlt, hhost, hprogram ▸ hsound, hconfig ▸ h.bounded, hconfig ▸ hnears⟩

/-- The instructions of a transition are counted. -/
theorem last {e : TransitionEnd} (h : InTime m left steps)
    (hplayed : Played m steps x (.inr e) m') :
    steps + x.toList.length ≤ m.config.maxTransitionLength + m'.kernel.threads.size := by
  have hoffers : ∀ {n n' : Machine}, n.Offers n' → n'.kernel = n.kernel :=
    fun ⟨_, hsame⟩ => hsame.kernel
  have hsteps := h.nears.steps_le
  cases hplayed with
  | finished => exact hsteps
  | blocked _ _ offers => rw [hoffers offers]; exact hsteps
  | broken _ _ _ offers => rw [hoffers offers]; exact hsteps
  | asked starts leads => exact h.nears.counts h.bounded starts leads
  | escaped starts leads _ opened =>
    have hcounts := h.nears.counts h.bounded starts leads
    rcases opened with ⟨-, rfl⟩ | ⟨-, offers⟩
    · exact hcounts
    · rw [hoffers offers]
      exact hcounts

end InTime

/-! ## Whole transitions -/

/-- The rounds of a transition go on from one point to another, and perform these instructions. -/
inductive Passes : Nat → Machine → List Performed → Nat → Machine → Prop where
  | refl (steps : Nat) (m : Machine) : Passes steps m [] steps m
  | next {steps steps₁ steps' : Nat} {m m₁ m' : Machine} {x : Option Performed}
    {xs : List Performed} (round : Machine.round steps m = .ok (.inl steps₁) m₁)
    (played : Played m steps x (.inl steps₁) m₁) (rest : Passes steps₁ m₁ xs steps' m') :
    Passes steps m (x.toList ++ xs) steps' m'

variable {steps' : Nat} {xs : List Performed} {e : TransitionEnd} {g : Generator}

/-- The steps of a transition are its instructions. -/
theorem Played.steps_eq (h : Played m steps x (.inl steps') m') :
    steps' = steps + x.toList.length := by
  cases h with
  | switched => rfl
  | stepped => rfl

theorem Passes.inTime (h : Passes steps m xs steps' m') (hm : InTime m left steps) :
    (∃ left', InTime m' left' steps') ∧ m'.config = m.config ∧ steps' = steps + xs.length := by
  induction h generalizing left with
  | refl => exact ⟨⟨left, hm⟩, rfl, rfl⟩
  | next _ played _ ih =>
    obtain ⟨left', -, hm₁⟩ := hm.next played
    obtain ⟨hm', hconfig, hsteps⟩ := ih hm₁
    have hfirst := played.steps_eq
    refine ⟨hm', hconfig.trans (played.sameRun hm.hostCall).2.1, ?_⟩
    rw [List.length_append]
    omega

/-- A transition that comes to an end passes to its last round. -/
theorem Plays.exists_passes (h : Plays steps m xs e m') : ∃ ys steps' n x,
    Passes steps m ys steps' n ∧ Played n steps' x (.inr e) m' ∧ xs = ys ++ x.toList := by
  induction h with
  | last _ played => exact ⟨[], _, _, _, .refl _ _, played, rfl⟩
  | next round played _ ih =>
    obtain ⟨ys, steps', n, x, hpasses, hlast, rfl⟩ := ih
    exact ⟨_, steps', n, x, .next round played hpasses, hlast, (List.append_assoc _ _ _).symm⟩

theorem Passes.length_le (h : Passes 0 m xs steps' m') (hm : InTime m left 0) :
    xs.length ≤ m.config.maxTransitionLength + m'.kernel.threads.size := by
  obtain ⟨⟨left', htime⟩, hconfig, hsteps⟩ := h.inTime hm
  have hle := htime.nears.steps_le
  rw [hconfig] at hle
  omega

theorem Plays.length_le (h : Plays 0 m xs e m') (hm : InTime m left 0) :
    xs.length ≤ m.config.maxTransitionLength + m'.kernel.threads.size := by
  obtain ⟨ys, steps', n, x, hpasses, hlast, rfl⟩ := h.exists_passes
  obtain ⟨⟨left', htime⟩, hconfig, hsteps⟩ := hpasses.inTime hm
  have hle := htime.last hlast
  rw [hconfig] at hle
  rw [List.length_append]
  omega

/-- A round faults only as instructions do. -/
theorem inwardly_round (steps : Nat) : Inwardly (round steps) := by
  intro m e m' h
  rcases round_eq_error h with hthread | ⟨-, hstuck⟩
  · exact m.kernel.inner_thread _ e hthread
  · exact hstuck.isInner

theorem InTime.run_ne_exhausted {k : Nat} (h : InTime m left steps) (hk : left < k) :
    Loop.run round .budgetExhausted k steps m ≠ .error .budgetExhausted m' := by
  refine Loop.run_ne_exhausted (I := fun left steps n => InTime n left steps) ?_ ?_ h hk
  · intro left steps n steps' n' hn hround
    obtain ⟨x, hplayed⟩ := round_played hn.hostCall hround
    exact hn.next hplayed
  · intro steps n n' hround
    have hinner : Fault.budgetExhausted.isInner = true := inwardly_round steps hround
    cases hinner

/-- Only the rounds of a transition use up its bound. -/
theorem run_of_exhausted (h : transition g m = .error .budgetExhausted m') : ∃ c,
    g.current = some c ∧ Loop.run round .budgetExhausted m.roundBound 0 (m.begin g c) =
      .error .budgetExhausted m' := by
  rw [transition_eq] at h
  split at h
  · cases h
  · cases hc : g.current with
    | none =>
      rw [hc] at h
      cases h
    | some c =>
      simp only [hc] at h
      cases hthread : m.kernel.thread (m.withChoice g c).current with
      | error e' =>
        rw [hthread] at h
        cases h
        have hinner : Fault.budgetExhausted.isInner = true := m.kernel.inner_thread _ _ hthread
        cases hinner
      | ok th =>
        rw [hthread] at h
        exact ⟨c, rfl, h⟩

/-- A transition begins in time. -/
theorem Driven.inTime (hdriven : Driven p config m) (hpos : 0 < config.maxTransitionLength)
    (c : Choice) : InTime (m.begin g c)
      (4 * config.maxTransitionLength + 2 * m.kernel.living + 2) 0 := by
  have hsame : SameState (m.withChoice g c) (m.begin g c) := SameState.modifyScratch _ _ _
  obtain ⟨hprogram, hconfig⟩ := hdriven.sameRun
  have hsound : m.kernel.Sound p :=
    (hdriven.sound_induction (I := fun _ => True) (fun _ _ => trivial) fun _ _ _ _ _ => trivial).1
  have hbounded : 0 < m.config.maxTransitionLength := hconfig ▸ hpos
  subst hconfig
  refine ⟨hsame.hostCall.trans hdriven.isReady.hostCall, hprogram.symm ▸ hsound, hbounded,
    .underway ?_ (Nat.zero_le _) ?_ fun _ => ?_⟩
  · intro hle
    have hzero : m.config.maxTransitionLength ≤ 0 := hle
    omega
  · show 4 * (m.config.maxTransitionLength - 0) + 2 * m.kernel.living + 1 ≤ _
    omega
  · show 4 * (m.config.maxTransitionLength - 0) + 2 * m.kernel.living + 2 ≤ _
    omega

/-- **Transitions that are broken in time come to an end.** If transitions are broken after some
number of steps, a transition of a machine that was started does not go on without end, whatever the
program does and whichever choice is taken. However far it has got, and when it has come to its end,
the instructions that it has performed are no more than that number and the number of threads
together. -/
theorem transition_bounded (hdriven : Driven p config m) (hpos : 0 < config.maxTransitionLength) :
    (∀ m', transition g m ≠ .error .budgetExhausted m') ∧
      (∀ c xs steps m', g.current = some c → Passes 0 (m.begin g c) xs steps m' →
        xs.length ≤ config.maxTransitionLength + m'.kernel.threads.size) ∧
      ∀ xs e m', Transits g m xs e m' →
        xs.length ≤ config.maxTransitionLength + m'.kernel.threads.size := by
  have hbegin : ∀ c, InTime (m.begin g c)
      (4 * config.maxTransitionLength + 2 * m.kernel.living + 2) 0 :=
    fun c => hdriven.inTime hpos c
  have hconfig : ∀ c, (m.begin g c).config = config := fun _ => hdriven.sameRun.2
  refine ⟨fun m' h => ?_, fun c xs steps m' _ hpasses => ?_, fun xs e m' htransits => ?_⟩
  · obtain ⟨c, -, hrun⟩ := run_of_exhausted h
    refine (hbegin c).run_ne_exhausted ?_ hrun
    have hliving : m.kernel.living ≤ m.kernel.threads.size := Nat.sub_le _ _
    have hne : config.maxTransitionLength ≠ 0 := by omega
    rw [roundBound, hdriven.sameRun.2, if_neg hne]
    omega
  · rw [← hconfig c]
    exact hpasses.length_le (hbegin c)
  · obtain ⟨c, -, hplays⟩ := htransits.plays
    rw [← hconfig c]
    exact hplays.length_le (hbegin c)

/-- A program that goes round and round. -/
def spinning : Demo.Build Unit := do
  let main ← Demo.declareMain []
  Demo.define main "main" Demo.mainModifiers 0 fun a =>
    let (again, a) := a.newLabel
    (a.bind again).branch .goto again

/-- The transition of a program that goes round and round is broken. -/
theorem transition_bounded_spinning : ∃ p m g m' g' xs,
    spinning.run (Program.base .plain) = .ok ((), p) ∧
      Driven p { maxTransitionLength := 3 } m ∧ m.pending = some g ∧ 0 < g.total ∧
      Transits (g.select 0).2 m xs .choicePoint m' ∧
      m'.pending = some g' ∧ g'.id = "maxTransitionLength" ∧ m'.kernel.threads.size = 1 ∧
      xs.length ≤ 3 + m'.kernel.threads.size ∧
      ∀ n, transition (g.select 0).2 m ≠ .error .budgetExhausted n := by
  obtain ⟨p, m, hbuild, hstart, htest⟩ := exists_start_of_build spinning
    { maxTransitionLength := 3 }
    (fun _ m => m.pending.any fun (g : Generator) => decide (0 < g.total) &&
      gives (transition (g.select 0).2) m fun e m' => e == .choicePoint &&
        (m'.pending.any fun g => g.id == "maxTransitionLength") &&
        m'.kernel.threads.size == 1) (by decide +kernel)
  simp only [Option.any_eq_true, Bool.and_eq_true, decide_eq_true_eq, beq_iff_eq,
    gives_iff] at htest
  obtain ⟨g, hg, htotal, e, m', hm', ⟨rfl, g', hg', hid⟩, hone⟩ := htest
  have hdriven : Driven p { maxTransitionLength := 3 } m := .start hstart
  obtain ⟨xs, htransits⟩ := exists_transits hdriven.isReady.hostCall hm'
  obtain ⟨hends, -, hcounts⟩ := transition_bounded (g := (g.select 0).2) hdriven (by decide)
  exact ⟨p, m, g, m', g', xs, hbuild, hdriven, hg, htotal, htransits, hg', hid, hone,
    hcounts xs .choicePoint m' htransits, hends⟩

end Machine

end Interleave

import Interleave.Proofs.Machine.Choices
import Interleave.Proofs.Machine.History

/-!
# Why a transition stops

A transition performs the instructions of one thread after another. The thread changes only where
the running one cannot go on and just one other can: all other decisions are left to the search. So
when a transition stops, a generator is pending as long as some thread can run, and the reason that
is given says which of the cases it is.

`Machine.Stopped` collects what holds of the state in which a transition stops. A choice of the
generator that is pending there can be carried out: the chosen thread can run, and so can the one
that has asked for a value.
-/

namespace Interleave

open Effect

namespace Kernel

variable {p : Program} {k : Kernel} {t : ThreadId}

/-- The threads that can run are listed. -/
theorem Sound.mem_runnable (hs : Sound p k) : t ∈ k.runnable ↔ k.Runs t := by
  constructor
  · intro hmem
    obtain ⟨th, hth, rfl⟩ := List.mem_map.mp hmem
    obtain ⟨hth, hrun⟩ := List.mem_filter.mp hth
    obtain ⟨i, hi⟩ := List.mem_iff_getElem?.mp hth
    rw [Array.getElem?_toList] at hi
    have hid : th.id = ⟨i⟩ := hs.ids ⟨i⟩ th hi
    exact ⟨th, by rw [hid]; exact hi, hrun⟩
  · rintro ⟨th, hth, hrun⟩
    have hmem : th ∈ k.threads.toList := List.mem_of_getElem? (by simpa using hth)
    rw [← hs.ids t th hth]
    exact List.mem_map.mpr ⟨th, List.mem_filter.mpr ⟨hmem, hrun⟩, rfl⟩

/-- They are listed in the order of their numbers, each one once. -/
theorem Sound.runnable_ascending (hs : Sound p k) :
    k.runnable.Pairwise fun t u => t.index < u.index := by
  unfold runnable
  rw [List.pairwise_map]
  refine List.Pairwise.filter _ (List.pairwise_iff_getElem.mpr ?_)
  intro i j hi hj hij
  have hids : ∀ n (hn : n < k.threads.toList.length), k.threads.toList[n].id = ⟨n⟩ := by
    intro n hn
    refine hs.ids ⟨n⟩ _ ?_
    rw [← Array.getElem?_toList, List.getElem?_eq_getElem hn]
  rw [hids i hi, hids j hj]
  exact hij

/-- Some thread can run if the list is not empty. -/
theorem Sound.runnable_ne_nil (hs : Sound p k) : k.runnable ≠ [] ↔ ∃ t, k.Runs t := by
  constructor
  · intro hne
    obtain ⟨t, ht⟩ := List.exists_mem_of_ne_nil _ hne
    exact ⟨t, hs.mem_runnable.mp ht⟩
  · rintro ⟨t, ht⟩
    exact Machine.runnable_ne_nil ht

theorem threads_ne_empty (h : k.runnable ≠ []) : k.threads ≠ #[] := by
  rintro he
  simp [runnable, he] at h

/-- Where no thread can run, there is a deadlock if one has not ended. -/
theorem isDeadlocked_iff (hidle : k.runnable = []) :
    k.isDeadlocked = true ↔ ∃ th ∈ k.threads, th.isAlive = true := by
  unfold isDeadlocked aliveCount
  simp [hidle, List.length_pos_iff_exists_mem]

/-- No thread that can run is left if all have ended. -/
theorem runnable_eq_nil (h : k.aliveCount = 0) : k.runnable = [] := by
  simp only [aliveCount, List.length_eq_zero_iff, List.filter_eq_nil_iff] at h
  simp only [runnable, List.map_eq_nil_iff, List.filter_eq_nil_iff]
  intro th hth hrun
  have hstatus : th.status = .runnable := by simpa [Thread.isRunnable] using hrun
  exact h th hth (by simp [Thread.isAlive, Thread.isTerminated, hstatus])

/-- No source picks among threads. -/
theorem kind_of_sourceDomain {m : Method} {s : ValueSource} {f : Frame} {d : Domain}
    (h : Call.sourceDomain m s f = .ok d) : d.kind ≠ .threads := by
  unfold Call.sourceDomain at h
  split at h
  · cases h
    exact nofun
  · split at h
    · simp only [bind, Except.bind] at h
      split at h
      · cases h
      · split at h
        · cases h
        · cases h
          exact nofun
    · cases h
  · split at h
    · simp only [bind, Except.bind] at h
      split at h
      · cases h
      · split at h
        · cases h
        · cases h
          exact nofun
    · cases h
  · cases h
    exact nofun
  · cases h
    exact nofun
  · split at h
    · cases h
    · simp only [bind, Except.bind] at h
      split at h
      · cases h
      · cases h
        exact nofun
  · cases h

theorem Requests.isThreadChoice {g : Generator} (h : k.Requests p t g) :
    g.isThreadChoice = false := by
  obtain ⟨f, i, m, s, d, -, -, -, hd, rfl⟩ := h
  have hkind := kind_of_sourceDomain hd
  simpa [Generator.isThreadChoice] using hkind

/-- Threads do not disappear. -/
theorem Turn.stays {k' : Kernel} {u : ThreadId} (h : Turn p k k')
    (hu : ∃ th, k.threads[u.index]? = some th) : ∃ th, k'.threads[u.index]? = some th := by
  obtain ⟨th, hth⟩ := hu
  have hmoves : ∀ {t k₁}, Relation.ReflTransGen (Move p t) k k₁ →
      ∃ th, k₁.threads[u.index]? = some th := fun hmoves => by
    obtain ⟨th', hth', -⟩ := (Advance.of_moves hmoves).old u th hth
    exact ⟨th', hth'⟩
  cases h with
  | ran _ moves => exact hmoves moves
  | @stalled t k₁ st _ moves _ =>
    obtain ⟨th', hth'⟩ := hmoves moves
    unfold setStatus
    rw [getElem?_modifyThread, hth']
    split <;> exact ⟨_, rfl⟩
  | ended _ moves =>
    obtain ⟨th', hth'⟩ := hmoves moves
    rw [getElem?_ended, hth']
    exact ⟨_, rfl⟩

end Kernel

namespace Machine

variable {p : Program} {config : Config} {m m' n : Machine} {g : Generator} {e : TransitionEnd}
  {t : ThreadId} {xs : List Performed} {x : Performed}

/-- A generator offers a choice among the threads that can run, or a value that the current thread
asks for. -/
def Offered (p : Program) (m : Machine) (g : Generator) : Prop :=
  (∃ id, g = m.kernel.threadChoice id) ∨
    m.kernel.Runs m.current ∧ m.kernel.Requests p m.current g

/-- The thread goes on, or it cannot and just one other thread can. -/
def KeepsOn (k : Kernel) (t u : ThreadId) : Prop := u = t ∨ ¬ k.Runs t ∧ k.runnable = [u]

/-- From a state in which one thread runs, instructions lead to a state in which another one does.
Each of them is performed in the state that the one before has left behind, and the thread that runs
is another one only if it has to be. -/
inductive Relay : Kernel → ThreadId → List Performed → Kernel → ThreadId → Prop where
  | nil {k : Kernel} {t u : ThreadId} (keeps : KeepsOn k t u) : Relay k t [] k u
  | cons {k : Kernel} {t u : ThreadId} {x : Performed} {xs : List Performed} {k' : Kernel}
    (before : x.before = k) (keeps : KeepsOn k t x.thread) (rest : Relay x.after x.thread xs k' u) :
    Relay k t (x :: xs) k' u

/-- What holds where a transition stops. -/
structure Stopped (p : Program) (e : TransitionEnd) (m : Machine) : Prop where
  /-- A generator is pending as long as some thread can run. -/
  pending_iff : m.pending.isSome = true ↔ ∃ t, m.kernel.Runs t
  /-- Transitions can follow as long as some thread can run. -/
  terminal_iff : m.isTerminal = false ↔ ∃ t, m.kernel.Runs t
  choicePoint : e = .choicePoint → m.pending.isSome = true
  endState : e = .endState → (∀ th ∈ m.kernel.threads, th.isTerminated = true) ∧ m.pending = none
  deadlock : e = .deadlock → (∀ t, ¬ m.kernel.Runs t) ∧
    (∃ th ∈ m.kernel.threads, th.isAlive = true) ∧ m.pending = none
  uncaughtException : e = .uncaughtException ↔ m.path.uncaught.isSome = true
  /-- The thread that an exception escaped has ended. -/
  thrower : ∀ u, m.path.uncaught = some u →
    ∃ th, m.kernel.threads[u.thread.index]? = some th ∧ th.isTerminated = true
  /-- A choice among threads offers those that can run, in order. -/
  threads : ∀ g, m.pending = some g → g.isThreadChoice = true →
    ∃ ts, g.domain = .threads ts ∧ ts.Pairwise (fun t u => t.index < u.index) ∧
      ∀ t, t ∈ ts ↔ m.kernel.Runs t
  /-- A value is asked for by the current thread. -/
  values : ∀ g, m.pending = some g → g.isThreadChoice = false →
    m.kernel.Runs m.current ∧ m.kernel.Requests p m.current g

/-! ## The rounds of a transition -/

/-- A transition is under way: nothing is pending, and no exception has escaped. -/
structure UnderWay (p : Program) (m : Machine) : Prop where
  program : m.program = p
  pending : m.pending = none
  uncaught : m.path.uncaught = none

/-- What is seen of the state in which a transition stops. -/
structure Halted (p : Program) (e : TransitionEnd) (m : Machine) : Prop where
  there : m.kernel.threads ≠ #[]
  offered : ∀ g, m.pending = some g → m.Offered p g
  pending_eq_none : m.pending = none ↔ m.kernel.runnable = []
  choicePoint : e = .choicePoint → m.kernel.runnable ≠ []
  endState : e = .endState → m.kernel.runnable = [] ∧ m.kernel.isDeadlocked = false
  deadlock : e = .deadlock → m.kernel.runnable = [] ∧ m.kernel.isDeadlocked = true
  uncaughtException : e = .uncaughtException ↔ m.path.uncaught.isSome = true
  thrower : ∀ u, m.path.uncaught = some u →
    ∃ th, m.kernel.threads[u.thread.index]? = some th ∧ th.isTerminated = true

/-- An instruction that no exception escapes from leaves no record of one. -/
theorem Performed.LeadsTo.uncaught_eq (h : x.LeadsTo m') (hstays : ∀ r, x.outcome ≠ .escaped r) :
    m'.path.uncaught = x.machine.path.uncaught := by
  rw [h.path]
  cases hout : x.outcome with
  | escaped r => exact absurd hout (hstays r)
  | running => rfl
  | finished => rfl

/-- An exception that escapes ends its thread, and leaves no generator behind. -/
theorem Performed.LeadsTo.ends {r : Uncaught} (h : x.LeadsTo m') (hruns : x.before.Runs x.thread)
    (hnone : x.machine.pending = none) (hout : x.outcome = .escaped r) :
    m'.pending = none ∧ m'.path.uncaught = some r ∧ r.thread = x.thread ∧
      ∃ th, m'.kernel.threads[r.thread.index]? = some th ∧ th.isTerminated = true := by
  have hthread : r.thread = x.thread := by
    have hperformed := h.performed
    rw [hout] at hperformed
    exact Step.thread_of_escaped hperformed
  refine ⟨?_, ?_, hthread, ?_⟩
  · cases hg : m'.pending with
    | none => rfl
    | some g =>
      have hstepped : Stepped x.machine x.thread true m' := h.stepped (by simp [hout])
      cases (hstepped.requests hnone hg).1
  · rw [h.path, hout]
    rfl
  · obtain ⟨th', hth'⟩ := (h.turn hruns).stays hruns.exists
    rw [hthread]
    refine ⟨th', hth', ?_⟩
    rw [h.kernel, Performed.after, hout] at hth'
    replace hth' : (x.work.kernel.ended x.thread).threads[x.thread.index]? = some th' := hth'
    rw [Kernel.getElem?_ended] at hth'
    obtain ⟨th₁, -, rfl⟩ := Option.map_eq_some_iff.mp hth'
    rw [if_pos rfl]
    rfl

theorem UnderWay.next {steps steps' : Nat} {y : Option Performed} (h : UnderWay p n)
    (hplayed : Played n steps y (.inl steps') m') : UnderWay p m' := by
  cases hplayed with
  | switched idle only same _ =>
    refine ⟨same.program.trans h.program, same.pending.trans h.pending, ?_⟩
    rw [same.path]
    exact h.uncaught
  | stepped starts leads stays settled _ =>
    obtain ⟨rfl, -, -, -⟩ := starts
    exact ⟨leads.program.trans h.program, settled, (leads.uncaught_eq stays).trans h.uncaught⟩

/-- A choice among the threads that can run has been left pending. -/
theorem Offers.halted (hoffers : n.Offers m') (hothers : n.kernel.runnable ≠ [])
    (hchoice : e = .choicePoint ∨ e = .uncaughtException)
    (he : e = .uncaughtException ↔ n.path.uncaught.isSome = true)
    (hthrower : ∀ u, n.path.uncaught = some u →
      ∃ th, n.kernel.threads[u.thread.index]? = some th ∧ th.isTerminated = true) :
    Halted p e m' := by
  obtain ⟨id, hsame⟩ := hoffers
  have hkernel : m'.kernel = n.kernel := hsame.kernel
  have hpath : m'.path = n.path := hsame.path
  have hpending : m'.pending = some (m'.kernel.threadChoice id) := by
    rw [hsame.pending, hkernel]
  exact {
    there := by
      rw [hkernel]
      exact Kernel.threads_ne_empty hothers
    offered := fun g hg => by
      rw [hpending] at hg
      exact .inl ⟨id, (Option.some.inj hg).symm⟩
    pending_eq_none := by
      rw [hpending, hkernel]
      simp [hothers]
    choicePoint := fun _ => hkernel ▸ hothers
    endState := fun h => by rcases hchoice with rfl | rfl <;> cases h
    deadlock := fun h => by rcases hchoice with rfl | rfl <;> cases h
    uncaughtException := hpath ▸ he
    thrower := fun u hu => by
      rw [hkernel]
      exact hthrower u (hpath ▸ hu) }

/-- Nothing is left pending where no thread can run. -/
theorem UnderWay.finished (h : UnderWay p n) (hthere : n.kernel.threads ≠ #[])
    (hidle : n.kernel.runnable = []) :
    Halted p (if n.kernel.isDeadlocked then .deadlock else .endState) n where
  there := hthere
  offered g hg := by
    rw [h.pending] at hg
    cases hg
  pending_eq_none := by simp [h.pending, hidle]
  choicePoint he := by split at he <;> cases he
  endState he := by
    split at he
    · cases he
    · exact ⟨hidle, by simpa using ‹¬ n.kernel.isDeadlocked = true›⟩
  deadlock he := by
    split at he
    · exact ⟨hidle, ‹_›⟩
    · cases he
  uncaughtException := by
    rw [h.uncaught]
    split <;> simp
  thrower u hu := by
    rw [h.uncaught] at hu
    cases hu

/-- An instruction has left a generator behind. -/
theorem UnderWay.asked {steps : Nat} (h : UnderWay p n) (starts : x.Starts n steps) (leads : x.LeadsTo m')
    (stays : ∀ r, x.outcome ≠ .escaped r) (opened : m'.pending.isSome = true) :
    Halted p .choicePoint m' := by
  obtain ⟨rfl, hthread, hruns, -⟩ := starts
  obtain ⟨g, hg⟩ := Option.isSome_iff_exists.mp opened
  have hstepped : Stepped x.machine x.thread false m' := leads.stepped (by simp [stays])
  obtain ⟨-, hmoves, hrequests⟩ := hstepped.requests h.pending hg
  have hcurrent : m'.current = x.thread := hstepped.current.trans hthread.symm
  have hruns' : m'.kernel.Runs m'.current := by
    rw [hcurrent, hthread]
    exact hruns.advance (.of_moves (hthread ▸ hmoves))
  have huncaught : m'.path.uncaught = none := (leads.uncaught_eq stays).trans h.uncaught
  exact {
    there := Kernel.threads_ne_empty (runnable_ne_nil hruns')
    offered := fun g' hg' => by
      rw [hg] at hg'
      cases hg'
      refine .inr ⟨hruns', ?_⟩
      rw [hcurrent, ← h.program]
      exact hrequests
    pending_eq_none := by simp [hg, runnable_ne_nil hruns']
    choicePoint := fun _ => runnable_ne_nil hruns'
    endState := nofun
    deadlock := nofun
    uncaughtException := by simp [huncaught]
    thrower := fun u hu => by
      rw [huncaught] at hu
      cases hu }

theorem UnderWay.last {steps : Nat} {y : Option Performed} (h : UnderWay p n)
    (hplayed : Played n steps y (.inr e) m') : Halted p e m' := by
  have hoffers : n.Offers m' → n.kernel.runnable ≠ [] → Halted p .choicePoint m' := by
    intro hoffers hothers
    refine hoffers.halted hothers (.inl rfl) (by simp [h.uncaught]) fun u hu => ?_
    rw [h.uncaught] at hu
    cases hu
  cases hplayed with
  | finished there idle =>
    obtain ⟨th, hth⟩ := there
    refine h.finished (fun hnone => ?_) idle
    simp [hnone] at hth
  | blocked idle others offers => exact hoffers offers others
  | broken runs stale due offers => exact hoffers offers (runnable_ne_nil runs)
  | asked starts leads stays opened => exact h.asked starts leads stays opened
  | @escaped x r m₁ m' starts leads outcome opened =>
    obtain ⟨rfl, hthread, hruns, -⟩ := starts
    obtain ⟨hnone, huncaught, -, hended⟩ := leads.ends (hthread ▸ hruns) h.pending outcome
    have hthrower : ∀ u, m₁.path.uncaught = some u →
        ∃ th, m₁.kernel.threads[u.thread.index]? = some th ∧ th.isTerminated = true := by
      intro u hu
      rw [huncaught] at hu
      cases hu
      exact hended
    rcases opened with ⟨hidle, rfl⟩ | ⟨hothers, hoffers⟩
    · exact {
        there := fun hempty => by
          obtain ⟨th, hth, -⟩ := hended
          simp [hempty] at hth
        offered := fun g hg => by
          rw [hnone] at hg
          cases hg
        pending_eq_none := by simp [hnone, hidle]
        choicePoint := nofun
        endState := nofun
        deadlock := nofun
        uncaughtException := by simp [huncaught]
        thrower := hthrower }
    · exact hoffers.halted hothers (.inr rfl) (by simp [huncaught]) hthrower

/-! ## Whole transitions -/

/-- A switch that has to be is followed by no other one. -/
theorem Relay.switch {k k' : Kernel} {u v : ThreadId} (hidle : ¬ k.Runs t)
    (honly : k.runnable = [u]) (h : Relay k u xs k' v) : Relay k t xs k' v := by
  have hkeeps : ∀ {w}, KeepsOn k u w → KeepsOn k t w := by
    rintro w (rfl | ⟨-, hw⟩)
    · exact .inr ⟨hidle, honly⟩
    · exact .inr ⟨hidle, hw⟩
  cases h with
  | nil keeps => exact .nil (hkeeps keeps)
  | cons before keeps rest => exact .cons before (hkeeps keeps) rest

/-- The thread that runs is another one after a round only if it has to be. -/
theorem Plays.relay {steps : Nat} (h : Plays steps n xs e m') :
    Relay n.kernel n.current xs m'.kernel m'.current := by
  have hinstruction : ∀ {n m₁ : Machine} {x : Performed} {steps ys k u},
      x.Starts n steps → x.LeadsTo m₁ → Relay m₁.kernel m₁.current ys k u →
        Relay n.kernel n.current (x :: ys) k u := by
    intro n m₁ x steps ys k u hstarts hleads hrest
    obtain ⟨rfl, hthread, -, -⟩ := hstarts
    refine .cons rfl (.inl hthread) ?_
    have hcurrent : m₁.current = x.thread := by
      unfold current at hthread ⊢
      rw [hleads.path, hthread]
      cases x.outcome <;> rfl
    rw [← hleads.kernel, ← hcurrent]
    exact hrest
  have hoffers : ∀ {n m' : Machine}, n.Offers m' →
      Relay n.kernel n.current [] m'.kernel m'.current := by
    rintro n m' ⟨id, hsame⟩
    unfold current
    rw [hsame.kernel, hsame.path]
    exact .nil (.inl rfl)
  induction h with
  | last _ played =>
    cases played with
    | finished => exact .nil (.inl rfl)
    | blocked _ _ offers => exact hoffers offers
    | broken _ _ _ offers => exact hoffers offers
    | asked starts leads => exact hinstruction starts leads (.nil (.inl rfl))
    | escaped starts leads _ opened =>
      refine hinstruction starts leads ?_
      rcases opened with ⟨-, rfl⟩ | ⟨-, offers⟩
      · exact .nil (.inl rfl)
      · exact hoffers offers
  | next _ played _ ih =>
    cases played with
    | switched idle only same _ =>
      refine Relay.switch idle only ?_
      rw [same.kernel] at ih
      unfold current at ih
      rw [same.path] at ih
      exact ih
    | stepped starts leads => exact hinstruction starts leads ih

/-- The first instruction is one of the current thread, if that can run. -/
theorem Plays.first {steps : Nat} (h : Plays steps n xs e m') (hfresh : n.isFresh = true)
    (hruns : n.kernel.Runs n.current) : ∃ x ys, xs = x :: ys ∧ x.thread = n.current := by
  cases h with
  | last _ played =>
    cases played with
    | finished _ idle => exact absurd idle (runnable_ne_nil hruns)
    | blocked idle => exact absurd hruns idle
    | broken _ stale =>
      rw [hfresh] at stale
      cases stale
    | asked starts => exact ⟨_, _, rfl, starts.thread⟩
    | escaped starts => exact ⟨_, _, rfl, starts.thread⟩
  | next _ played _ =>
    cases played with
    | switched idle => exact absurd hruns idle
    | stepped starts => exact ⟨_, _, rfl, starts.thread⟩

/-- A transition halts where its rounds end. -/
theorem Transits.halted (h : Transits g m xs e m') (hhost : m.hostCall = none) :
    Halted m.program e m' := by
  obtain ⟨c, -, hplays⟩ := h.plays
  have hsame : SameState (m.withChoice g c) (m.begin g c) := SameState.modifyScratch _ _ _
  refine hplays.induction (I := fun n => UnderWay m.program n) (hsame.hostCall.trans hhost)
    (fun _ _ _ _ _ hn _ hplayed => hn.next hplayed)
    (fun _ _ _ _ _ hn _ hplayed => hn.last hplayed) ⟨hsame.program, hsame.pending, ?_⟩
  rw [hsame.path]
  cases c <;> rfl

/-- No transition can follow where no thread can run. -/
theorem isTerminal_iff (hthere : m.kernel.threads ≠ #[]) :
    m.isTerminal = true ↔ m.kernel.runnable = [] := by
  simp only [isTerminal, Kernel.isEndState, Kernel.isDeadlocked, Bool.or_eq_true, Bool.and_eq_true,
    Bool.not_eq_true', Array.isEmpty_eq_false_iff, beq_iff_eq, decide_eq_true_eq, List.isEmpty_iff]
  constructor
  · rintro (⟨-, hended⟩ | ⟨-, hidle⟩)
    · exact Kernel.runnable_eq_nil hended
    · exact hidle
  · intro hidle
    rcases Nat.eq_zero_or_pos m.kernel.aliveCount with hended | halive
    · exact .inl ⟨hthere, hended⟩
    · exact .inr ⟨halive, hidle⟩

/-- What is seen of the state in which a transition stops, said of its threads. -/
theorem Halted.stopped (h : Halted p e m) (hs : m.kernel.Sound p) : Stopped p e m := by
  have hidle : m.kernel.runnable = [] ↔ ¬ ∃ t, m.kernel.Runs t := by
    rw [← hs.runnable_ne_nil, not_not]
  have halive : ∀ th : Thread, th.isAlive = !th.isTerminated := fun _ => rfl
  exact {
    pending_iff := by
      rw [← hs.runnable_ne_nil, ne_eq, ← h.pending_eq_none, Option.isSome_iff_ne_none]
    terminal_iff := by
      rw [← hs.runnable_ne_nil, ne_eq, ← isTerminal_iff h.there, Bool.not_eq_true]
    choicePoint := fun he => by
      rw [Option.isSome_iff_ne_none, ne_eq, h.pending_eq_none]
      exact h.choicePoint he
    endState := fun he => by
      obtain ⟨hnone, hdead⟩ := h.endState he
      refine ⟨fun th hth => ?_, h.pending_eq_none.mpr hnone⟩
      by_contra hterminated
      have hdeadlock := (Kernel.isDeadlocked_iff hnone).mpr
        ⟨th, hth, by simpa [halive] using hterminated⟩
      rw [hdead] at hdeadlock
      cases hdeadlock
    deadlock := fun he => by
      obtain ⟨hnone, hdead⟩ := h.deadlock he
      exact ⟨fun t ht => hidle.mp hnone ⟨t, ht⟩, (Kernel.isDeadlocked_iff hnone).mp hdead,
        h.pending_eq_none.mpr hnone⟩
    uncaughtException := h.uncaughtException
    thrower := h.thrower
    threads := fun g hg hthread => by
      rcases h.offered g hg with ⟨id, rfl⟩ | ⟨-, hrequests⟩
      · exact ⟨_, rfl, hs.runnable_ascending, fun t => hs.mem_runnable⟩
      · rw [hrequests.isThreadChoice] at hthread
        cases hthread
    values := fun g hg hvalue => by
      rcases h.offered g hg with ⟨id, rfl⟩ | hrequests
      · cases hvalue
      · exact hrequests }

/-! ## Machines that are led by choices -/

/-- The first generator offers the main thread, which can run. -/
theorem offered_of_start {listening : Bool} {name : String} {u : Unit}
    (h : start name (Machine.new p config listening) = .ok u m) :
    ∀ g, m.pending = some g → m.Offered p g := by
  obtain ⟨-, hstarted, -, -, hpending⟩ := start_eq_ok h
  obtain ⟨⟨th, f, hthreads, hid, hstatus, -⟩, -⟩ := hstarted.inv
  intro g hg
  rw [hpending] at hg
  cases hg
  refine .inl ⟨"root", ?_⟩
  have hrunnable : m.kernel.runnable = [⟨0⟩] := by
    simp [Kernel.runnable, hthreads, Thread.isRunnable, hstatus, hid]
  unfold Kernel.threadChoice
  rw [hrunnable]
  rfl

/-- What is pending between transitions can be carried out. -/
theorem offered_of_reaches {listening : Bool} {name : String} {u : Unit} {m₀ : Machine}
    (hstart : start name (Machine.new p config listening) = .ok u m₀) (h : m₀.Reaches m) :
    ∀ g, m.pending = some g → m.Offered p g := by
  have hdriven : ∀ {n}, m₀.Reaches n → n.Driven p config :=
    fun hn => (Driven.start hstart).reaches hn
  induction h with
  | refl => exact offered_of_start hstart
  | tail hreaches hlast ih =>
    obtain ⟨-, -, htransition⟩ := hlast
    have hn := hdriven hreaches
    obtain ⟨xs, htransits⟩ := exists_transits hn.isReady.hostCall htransition
    exact hn.sameRun.1 ▸ (htransits.halted hn.isReady.hostCall).offered

/-- The thread that a choice lets run. -/
def runner (m : Machine) : Choice → ThreadId
  | .thread t => t
  | _ => m.current

/-- A choice of what is offered lets a thread run that can. -/
theorem Offered.runs {c : Choice} {i : Nat} (h : m.Offered p g) (hs : m.kernel.Sound p)
    (hc : g.domain.get? i = some c) : m.kernel.Runs (m.runner c) := by
  rcases h with ⟨id, rfl⟩ | ⟨hruns, hrequests⟩
  · obtain ⟨t, rfl⟩ := (Domain.kind_of_get? hc).mp rfl
    have hmem : t ∈ m.kernel.runnable := by
      have hget : (Domain.threads m.kernel.runnable).get? i = some (.thread t) := hc
      unfold Domain.get? at hget
      split at hget
      · simp only [Option.map_eq_some_iff, Choice.thread.injEq] at hget
        obtain ⟨t', ht', rfl⟩ := hget
        exact List.mem_of_getElem? ht'
      · cases hget
    exact hs.mem_runnable.mp hmem
  · have hvalue := hrequests.isThreadChoice
    cases c with
    | thread t =>
      have hkind := (Domain.kind_of_get? hc).mpr ⟨t, rfl⟩
      simp [Generator.isThreadChoice, hkind] at hvalue
    | _ => exact hruns

/-- **A transition stops for the right reason and hides no decision.** Wherever choices have led a
machine that was started, a transition that succeeds performs an instruction of the thread that was
chosen, or of the one that asked for the value, and hands over to another thread only where it has
to. It adds its choice to the trail, and the state in which it stops is one in which it has to. -/
theorem transition_stops {listening : Bool} {name : String} {u : Unit} {m₀ : Machine} {i : Nat}
    (hstart : start name (Machine.new p config listening) = .ok u m₀) (hreaches : m₀.Reaches m)
    (hg : m.pending = some g) (hi : i < g.total) (h : transition (g.select i).2 m = .ok e m') :
    ∃ c x xs, (g.select i).1 = some c ∧ Transits (g.select i).2 m (x :: xs) e m' ∧
      (∀ t, c = .thread t → x.thread = t) ∧
      ((∀ t, c ≠ .thread t) → x.thread = m.current ∧ m.kernel.Requests p m.current g) ∧
      Relay m.kernel x.thread (x :: xs) m'.kernel m'.current ∧
      m'.path.trail = m.path.trail.push (.of (g.select i).2 c) ∧ Stopped p e m' := by
  have hdriven : m.Driven p config := (Driven.start hstart).reaches hreaches
  have hhost := hdriven.isReady.hostCall
  have hsound : m.kernel.Sound p :=
    (hdriven.sound_induction (I := fun _ => True) (fun _ _ => trivial) fun _ _ _ _ _ => trivial).1
  have hsound' : m'.kernel.Sound p :=
    ((hdriven.transition h).sound_induction (I := fun _ => True) (fun _ _ => trivial)
      fun _ _ _ _ _ => trivial).1
  obtain ⟨c, hget, hselect, hcurrent⟩ := Generator.current_select hi
  have hoffered := offered_of_reaches hstart hreaches g hg
  obtain ⟨xs, htransits⟩ := exists_transits hhost h
  obtain ⟨c', hc', hplays⟩ := htransits.plays
  obtain rfl : c = c' := Option.some.inj (hcurrent.symm.trans hc')
  -- the transition begins in front of the first instruction of the thread that is to run
  have hsame : SameState (m.withChoice (g.select i).2 c) (m.begin (g.select i).2 c) :=
    SameState.modifyScratch _ _ _
  have hkernel : (m.begin (g.select i).2 c).kernel = m.kernel := hsame.kernel
  have hrunner : (m.begin (g.select i).2 c).current = m.runner c := by
    unfold current
    rw [hsame.path]
    cases c <;> rfl
  have hruns : m.kernel.Runs (m.runner c) := hoffered.runs hsound hget
  have hrelay := hplays.relay
  rw [hkernel, hrunner] at hrelay
  obtain ⟨x, ys, rfl, hthread⟩ :=
    hplays.first (isFresh_begin m _ c) (by rw [hkernel, hrunner]; exact hruns)
  rw [hrunner] at hthread
  refine ⟨c, x, ys, hselect, htransits, ?_, ?_, hthread ▸ hrelay, ?_, ?_⟩
  · rintro t rfl
    exact hthread
  · intro hvalue
    have hrequests : m.kernel.Requests p m.current g := by
      rcases hoffered with ⟨id, rfl⟩ | ⟨-, hrequests⟩
      · obtain ⟨t, rfl⟩ := (Domain.kind_of_get? hget).mp rfl
        exact absurd rfl (hvalue t)
      · exact hrequests
    refine ⟨?_, hrequests⟩
    cases c with
    | thread t => exact absurd rfl (hvalue t)
    | _ => exact hthread
  · obtain ⟨-, c', hc', htrail⟩ := transition_trail hhost h
    obtain rfl : c = c' := Option.some.inj (hcurrent.symm.trans hc')
    exact htrail
  · exact hdriven.sameRun.1 ▸ (htransits.halted hhost).stopped (hdriven.sameRun.1.symm ▸ hsound')

/-- In the program whose threads take two locks in opposite order, each of them can get one lock.
The transition that follows lets the thread run that was chosen, and ends in a deadlock. -/
theorem transition_stops_deadlock : ∃ p m₀ m g c x xs m',
    Demo.deadlock.run (Program.base .plain) = .ok ((), p) ∧
      start Demo.mainClass (Machine.new p {} false) = .ok () m₀ ∧ m₀.Reaches m ∧
      m.pending = some g ∧ 0 < g.total ∧ transition (g.select 0).2 m = .ok .deadlock m' ∧
      (g.select 0).1 = some c ∧ Transits (g.select 0).2 m (x :: xs) .deadlock m' ∧
      (∀ t, c = .thread t → x.thread = t) ∧
      Relay m.kernel x.thread (x :: xs) m'.kernel m'.current ∧ Stopped p .deadlock m' := by
  obtain ⟨p, m₀, hbuild, hstart, htest⟩ := exists_start_of_demo Demo.deadlock
    (fun _ m => gives (follow [0, 0, 0, 0, 0, 1, 1, 1, 1, 0, 0]) m fun _ (m : Machine) =>
      m.pending.any fun (g : Generator) => decide (0 < g.total) &&
        gives (transition (g.select 0).2) m fun e _ => e == .deadlock) (by decide +kernel)
  obtain ⟨_, m, hfollow, htest⟩ := gives_iff.mp htest
  simp only [Option.any_eq_true, Bool.and_eq_true, decide_eq_true_eq] at htest
  obtain ⟨g, hg, htotal, hgives⟩ := htest
  obtain ⟨e, m', hm, he⟩ := gives_iff.mp hgives
  obtain rfl : e = .deadlock := by simpa using he
  have hreaches : m₀.Reaches m := (Driven.start hstart).isReady.reaches_follow hfollow
  obtain ⟨c, x, xs, hc, htransits, hchosen, -, hrelay, -, hstopped⟩ :=
    transition_stops hstart hreaches hg htotal hm
  exact ⟨p, m₀, m, g, c, x, xs, m', hbuild, hstart, hreaches, hg, htotal, hm, hc, htransits,
    hchosen, hrelay, hstopped⟩

end Machine

end Interleave

import Interleave.Proofs.Machine.Isolation
import Interleave.Proofs.Step.Events

/-!
# What listeners hear

A machine queues the events of an instruction and delivers them when it has been settled what became
of the thread. So between instructions nothing is left in the queue, and whoever has listened from
the start has heard of everything that has happened.

What has been heard determines who holds which monitor how often, which methods each live thread is
in, and which threads are alive.
-/

namespace Interleave

open Effect Relation

/-- The events by which it is reported what became of a thread. -/
def Outcome.endings (t : ThreadId) : Outcome → Log
  | .running => []
  | .finished => [.threadTerminated t]
  | .escaped _ => [.threadTerminated t]

/-- When a thread has ended, it has; the others are not concerned. -/
theorem Kernel.hasEnded_ended {k : Kernel} {t u : ThreadId} (ht : t.index < k.threads.size) :
    (k.ended t).HasEnded u ↔ u = t ∨ k.HasEnded u := by
  unfold HasEnded
  rw [getElem?_ended]
  by_cases htu : t = u
  · subst htu
    rw [Array.getElem?_eq_getElem ht]
    simp [Thread.terminate]
  · cases hth : k.threads[u.index]? with
    | none => simp [Ne.symm htu]
    | some th =>
      by_cases hs : th.status = .joining t
      · simp [htu, Ne.symm htu, hs]
      · simp [htu, Ne.symm htu, hs]

/-! ## Logs that match a state -/

namespace Log

variable {es fs : Log} {k k' : Kernel} {t u : ThreadId} {p : Program}

/-- A log says the same as a state. -/
structure Matches (es : Log) (k : Kernel) : Prop where
  held : ∀ r u, es.heldBy r u = k.heap.heldBy r u
  /-- The frames of a thread that has ended are gone, whatever they were. -/
  calls : ∀ u, ¬ k.HasEnded u → es.calls u = some (k.calls u)
  started : es.started = k.threadIds
  ended : ∀ u, u ∈ es.ended ↔ k.HasEnded u
  /-- No thread has ended twice. -/
  once : es.ended.Nodup

/-- A log determines what there is to know of monitors, calls and threads. -/
structure Faithful (es : Log) (k : Kernel) : Prop where
  /-- A thread holds a monitor as often as it has taken it and not given it back. -/
  counts : ∀ r o u, k.heap.get? r = some o →
    es.heldBy r u = if o.monitor.owner? = some u then (o.monitor.count : Int) else 0
  /-- Whoever holds a monitor is its owner. -/
  owners : ∀ r o u, k.heap.get? r = some o → (o.monitor.owner? = some u ↔ 0 < es.heldBy r u)
  /-- The calls of a live thread are nested properly, and those that it has not come back from are
  its frames, but for those that belong to the machine. -/
  calls : ∀ u, k.Lives u → es.calls u = some (k.calls u)
  /-- The threads that have been started and have not ended are those that live. -/
  threads : ∀ u, k.Lives u ↔ u ∈ es.started ∧ u ∉ es.ended
  /-- No thread starts or ends twice. -/
  once : es.started.Nodup ∧ es.ended.Nodup

namespace Matches

theorem append (h : es.Matches k) (h' : fs.Accounts k k') : (es ++ fs).Matches k' where
  held r u := by rw [heldBy_append, h.held, h'.held]
  calls u hu := by
    rw [Log.calls, callsFrom_append, ← Log.calls, h.calls u (mt (h'.endings u).mpr hu)]
    exact h'.calls u
  started := by rw [started_append, h.started, h'.started]
  ended u := by rw [ended_append, h'.ended, List.append_nil, h.ended, h'.endings]
  once := by
    rw [ended_append, h'.ended, List.append_nil]
    exact h.once

/-- A thread ends that is there and has not ended. -/
theorem finish (h : es.Matches k) (ht : t.index < k.threads.size) (halive : ¬ k.HasEnded t) :
    Matches (es ++ [.threadTerminated t]) (k.ended t) where
  held r u := by
    rw [heldBy_append, heldBy_singleton, h.held]
    exact Int.add_zero _
  calls u hu := by
    have hne : t ≠ u := fun htu => hu ((Kernel.hasEnded_ended ht).mpr (.inl htu.symm))
    rw [Log.calls, callsFrom_append, ← Log.calls,
      h.calls u fun hended => hu ((Kernel.hasEnded_ended ht).mpr (.inr hended))]
    refine congrArg some (Kernel.calls_congr ?_).symm
    rw [Kernel.frames_ended, if_neg hne]
  started := by
    rw [started_append, h.started, Kernel.threadIds_congr (Kernel.size_ended k t)]
    exact List.append_nil _
  ended u := by
    rw [ended_append, List.mem_append, h.ended, Kernel.hasEnded_ended ht, or_comm]
    simp [Log.ended, Event.ended?]
  once := by
    rw [ended_append]
    refine List.nodup_append.mpr ⟨h.once, List.pairwise_singleton _ t, fun u hu v hv huv => ?_⟩
    obtain rfl : v = t := List.mem_singleton.mp hv
    exact halive ((h.ended v).mp (huv ▸ hu))

/-- What became of a thread is settled. -/
theorem settled (h : es.Matches k) (ht : t.index < k.threads.size) (halive : ¬ k.HasEnded t)
    (out : Outcome) : Matches (es ++ out.endings t) (out.settled k t) := by
  cases out with
  | running => rwa [Outcome.endings, List.append_nil]
  | finished => exact h.finish ht halive
  | escaped r => exact h.finish ht halive

/-- When a machine has been started, its first thread is in a stub. -/
theorem start (h : Kernel.Started p k) : Matches [.threadStarted .main] k := by
  have hheld := (Kernel.Orderly.start h).2
  obtain ⟨⟨th, f, hthreads, -, hstatus, hframes, hstub⟩, -⟩ := h.inv
  have hthread : ∀ (u : ThreadId) th', k.threads[u.index]? = some th' → th' = th := by
    rintro ⟨i⟩ th' hth'
    rw [hthreads] at hth'
    cases i with
    | zero => exact (Option.some.inj hth').symm
    | succ i => simp at hth'
  have hended : ∀ u, ¬ k.HasEnded u := by
    rintro u ⟨th', hth', hended⟩
    rw [hthread u th' hth', hstatus] at hended
    cases hended
  refine ⟨fun r u => ?_, fun u _ => ?_, ?_, fun u => ?_, List.nodup_nil⟩
  · rw [(hheld r u).1]
    rfl
  · refine congrArg some (List.filter_eq_nil_iff.mpr fun m hm => ?_).symm
    obtain ⟨g, hg, rfl⟩ := List.mem_map.mp hm
    cases hth : k.threads[u.index]? with
    | none => simp [Kernel.frames, hth] at hg
    | some th' =>
      rw [Kernel.frames_of_getElem? hth, hthread u th' hth, hframes, List.mem_singleton] at hg
      simp [hg, hstub.isMachineOwned]
  · unfold Kernel.threadIds
    rw [hthreads]
    rfl
  · exact iff_of_false List.not_mem_nil (hended u)

theorem faithful (h : es.Matches k) : es.Faithful k := by
  have hcounts : ∀ r o u, k.heap.get? r = some o → es.heldBy r u = o.monitor.heldBy u := by
    intro r o u ho
    rw [h.held, Heap.heldBy, ho]
  have hlives : ∀ u, k.Lives u ↔ u ∈ k.threadIds ∧ ¬ k.HasEnded u := by
    intro u
    rw [Kernel.mem_threadIds]
    constructor
    · rintro ⟨th, hth, halive⟩
      refine ⟨⟨th, hth⟩, ?_⟩
      rintro ⟨th', hth', hended⟩
      obtain rfl : th = th' := Option.some.inj (hth.symm.trans hth')
      simp [Thread.isAlive, Thread.isTerminated, hended] at halive
    · rintro ⟨⟨th, hth⟩, hended⟩
      have hstatus : th.status ≠ .terminated := fun hs => hended ⟨th, hth, hs⟩
      exact ⟨th, hth, by simpa [Thread.isAlive, Thread.isTerminated] using hstatus⟩
  refine ⟨fun r o u ho => ?_, fun r o u ho => ?_, fun u hu => h.calls u ((hlives u).mp hu).2,
    fun u => ?_, ?_, h.once⟩
  · rw [hcounts r o u ho, Monitor.heldBy]
    split <;> rfl
  · rw [hcounts r o u ho, Monitor.heldBy]
    cases o.monitor with
    | free => simp [Monitor.owner?]
    | held v n => by_cases hv : v = u <;> simp [Monitor.owner?, Monitor.count, hv]
  · rw [hlives, h.started, h.ended]
  · rw [h.started]
    exact k.nodup_threadIds

end Matches

end Log

/-! ## What machines tell -/

/-- The event that a listener is told of. -/
def Notice.event? : Notice → Option Event
  | event e => some e
  | _ => none

namespace Machine

variable {m m' n : Machine} {t : ThreadId}

/-- The events that listeners have been told of, in order. -/
def log (m : Machine) : Log := m.notices.toList.filterMap Notice.event?

/-- Nothing happens to the program, and listeners hear of no event. -/
structure Silent (m m' : Machine) : Prop where
  program : m'.program = m.program
  kernel : m'.kernel = m.kernel
  hostCall : m'.hostCall = m.hostCall
  listening : m'.listening = m.listening
  queue : m'.queue = m.queue
  log : m'.log = m.log

namespace Silent

protected theorem refl (m : Machine) : Silent m m := ⟨rfl, rfl, rfl, rfl, rfl, rfl⟩

protected theorem trans (h : Silent m n) (h' : Silent n m') : Silent m m' where
  program := h'.program.trans h.program
  kernel := h'.kernel.trans h.kernel
  hostCall := h'.hostCall.trans h.hostCall
  listening := h'.listening.trans h.listening
  queue := h'.queue.trans h.queue
  log := h'.log.trans h.log

theorem tell {a : Notice} (ha : a.event? = none) : Silent m (m.tell a) := by
  unfold Machine.tell
  split
  · exact ⟨rfl, rfl, rfl, rfl, rfl, by simp [Machine.log, ha]⟩
  · exact .refl m

theorem modifyScratch (m : Machine) (t : ThreadId) (f : Scratch → Scratch) :
    Silent m (m.modifyScratch t f) := ⟨rfl, rfl, rfl, rfl, rfl, rfl⟩

theorem tellExecuting (m : Machine) (t : ThreadId) (th : Thread) (f : Frame) (i : Instruction) :
    Silent m (m.tellExecuting t th f i) := by
  unfold Machine.tellExecuting
  split
  · exact tell rfl
  · exact .refl m

theorem tellExecuted (m : Machine) (t : ThreadId) (i : Instruction) :
    Silent m (m.tellExecuted t i) := by
  unfold Machine.tellExecuted
  split
  · split
    · exact tell rfl
    · exact .refl m
  · exact .refl m

theorem register (m : Machine) (g : Generator) : Silent m (m.register g) := by
  have hpending : Silent m { m with pending := some g } := ⟨rfl, rfl, rfl, rfl, rfl, rfl⟩
  exact hpending.trans (tell rfl)

end Silent

theorem deliver_tells (m : Machine) : m.deliver.queue = #[] ∧ m.deliver.listening = m.listening ∧
    (m.listening = true → m.deliver.log = m.log ++ m.queue.toList) := by
  have hfold : ∀ (es : Log) (n : Machine),
      (es.foldl (fun n e => n.tell (.event e)) n).queue = n.queue ∧
        (es.foldl (fun n e => n.tell (.event e)) n).listening = n.listening ∧
        (n.listening = true →
          (es.foldl (fun n e => n.tell (.event e)) n).log = n.log ++ es) := by
    -- to tell of an event neither fills the queue nor makes listeners go away
    intro es
    induction es with
    | nil => exact fun n => ⟨rfl, rfl, fun _ => (List.append_nil _).symm⟩
    | cons e es ih =>
      intro n
      obtain ⟨hqueue, hlistening, hlog⟩ := ih (n.tell (.event e))
      have htell : (n.tell (.event e)).queue = n.queue ∧
          (n.tell (.event e)).listening = n.listening := by
        unfold tell
        split <;> exact ⟨rfl, rfl⟩
      refine ⟨hqueue.trans htell.1, hlistening.trans htell.2, fun hn => ?_⟩
      refine (hlog (htell.2.trans hn)).trans ?_
      simp [tell, hn, log, Notice.event?]
  unfold deliver
  simp only [← Array.foldl_toList]
  exact hfold m.queue.toList { m with queue := #[] }

theorem settle_tells (hhost : m.hostCall = none) (t : ThreadId) (out : Outcome) :
    (m.settle t out).2.listening = m.listening ∧ (m.settle t out).2.log = m.log ∧
      (m.settle t out).2.queue.toList = m.queue.toList ++ out.endings t := by
  cases out with
  | running => exact ⟨rfl, rfl, (List.append_nil _).symm⟩
  | finished => exact ⟨rfl, rfl, Array.toList_push⟩
  | escaped r =>
    simp only [settle, hhost, settle.escape]
    exact ⟨rfl, rfl, Array.toList_push⟩

/-- An instruction has been run, and listeners have heard of what it did. -/
theorem step_tells {escaped : Bool} (hhost : m.hostCall = none) (h : step t m = .ok escaped m') :
    ∃ i out w', Step.perform m.program t i m.work = .ok out w' ∧
      (m'.program = m.program ∧ m'.kernel = out.settled w'.kernel t ∧ m'.hostCall = none) ∧
      m'.listening = m.listening ∧ m'.queue = #[] ∧ (m.listening = true →
        m'.log = m.log ++ (m.queue.toList ++ w'.events.toList ++ out.endings t)) := by
  obtain ⟨th, f, i, out, w', -, -, -, hperform, -, rfl⟩ := step_eq_ok_iff.mp h
  have htold : Silent m (m.told t th f i) :=
    (Silent.modifyScratch m t _).trans (.tellExecuting _ t th f i)
  have hhost' : (m.worked t th f i w').hostCall = none := htold.hostCall.trans hhost
  obtain ⟨-, hprogram, -, hhost'', -, hkernel, -⟩ := settle_eq _ hhost' t out
  obtain ⟨hlistening, hlog, hqueue⟩ := settle_tells hhost' t out
  obtain ⟨hempty, hlistening', hlog'⟩ :=
    deliver_tells (((m.worked t th f i w').settle t out).2.updateNext t)
  have hlast := Silent.tellExecuted
    ((((m.worked t th f i w').settle t out).2.updateNext t).deliver) t i
  have hdelivered := SameState.deliver (((m.worked t th f i w').settle t out).2.updateNext t)
  have hstill : ((m.worked t th f i w').settle t out).2.listening = m.listening :=
    hlistening.trans htold.listening
  refine ⟨i, out, w', hperform, ⟨?_, ?_, ?_⟩, ?_, ?_, fun hm => ?_⟩
  · exact hlast.program.trans (hdelivered.program.trans (hprogram.trans htold.program))
  · exact hlast.kernel.trans (hdelivered.kernel.trans hkernel)
  · exact hlast.hostCall.trans (hdelivered.hostCall.trans hhost'')
  · exact hlast.listening.trans (hlistening'.trans hstill)
  · exact hlast.queue.trans hempty
  · have hworked : (m.worked t th f i w').queue.toList = m.queue.toList ++ w'.events.toList := by
      rw [← htold.queue]
      exact Array.toList_append
    refine hlast.log.trans ((hlog' (hstill.trans hm)).trans ?_)
    rw [← hworked, ← hqueue, ← htold.log]
    exact congrArg (· ++ _) hlog

/-- A round runs at most one instruction. Of what it does besides, listeners hear nothing. -/
theorem round_tells {steps : Nat} {r : Nat ⊕ TransitionEnd} (h : round steps m = .ok r m') :
    m.Silent m' ∨ ∃ escaped m₁, m.kernel.Runs m.current ∧ step m.current m = .ok escaped m₁ ∧
      m₁.Silent m' := by
  rcases round_cases h with ⟨-, stop, -, -, hreschedule, -⟩ |
    ⟨-, -, f, i, g, -, -, -, -, rfl⟩ | ⟨hruns, -, hadvance⟩
  · refine .inl ?_
    rcases reschedule_cases hreschedule with ⟨-, -, rfl⟩ | ⟨t, -, -, rfl⟩ | ⟨-, -, id, rfl⟩
    · exact .refl _
    · exact ⟨rfl, rfl, rfl, rfl, rfl, rfl⟩
    · exact .register m _
  · exact .inl (.register m g)
  · obtain ⟨escaped, m₁, hstep, h⟩ := advance_cases hadvance
    refine .inr ⟨escaped, m₁, hruns, hstep, ?_⟩
    rcases h with ⟨-, -, ⟨-, rfl⟩ | ⟨-, rfl⟩⟩ | ⟨-, rfl, -⟩
    · exact .refl _
    · exact .register m₁ _
    · exact .refl _

/-- The main thread has been started, and listeners have heard of it. -/
theorem start_tells {name : String} {u : Unit} (h : start name m = .ok u m') :
    m'.queue = #[] ∧ m'.listening = m.listening ∧ (m.listening = true →
      m'.log = m.log ++ (m.queue.toList ++ [.threadStarted ⟨m.kernel.threads.size⟩])) := by
  obtain ⟨c, main, stub, f, r, heap, -, -, -, -, -, -, -, -, rfl⟩ := start_cases h
  have htold : ∀ (n : Machine) (g : Generator), (n.deliver.register g).queue = #[] ∧
      (n.deliver.register g).listening = n.listening ∧ (n.listening = true →
        (n.deliver.register g).log = n.log ++ n.queue.toList) := by
    intro n g
    obtain ⟨hqueue, hlistening, hlog⟩ := deliver_tells n
    have hregister := Silent.register n.deliver g
    exact ⟨hregister.queue.trans hqueue, hregister.listening.trans hlistening,
      fun hn => hregister.log.trans (hlog hn)⟩
  rw [← Array.toList_push]
  exact htold _ _

/-! ## Listeners that are up to date -/

variable {p : Program} {config : Config} {g : Generator} {c : Choice}

/-- Whoever has listened from the start has heard of everything that has happened. -/
structure IsUpToDate (p : Program) (m : Machine) : Prop where
  program : m.program = p
  hostCall : m.hostCall = none
  queue : m.queue = #[]
  log : m.listening = true → m.log.Matches m.kernel

namespace IsUpToDate

theorem silent (h : m.IsUpToDate p) (hsilent : m.Silent m') : m'.IsUpToDate p where
  program := hsilent.program.trans h.program
  hostCall := hsilent.hostCall.trans h.hostCall
  queue := hsilent.queue.trans h.queue
  log hm := by
    rw [hsilent.log, hsilent.kernel]
    exact h.log (hsilent.listening.symm.trans hm)

theorem step {escaped : Bool} (hp : p.WellFormed) (h : m.IsUpToDate p) (hruns : m.kernel.Runs t)
    (hstep : Machine.step t m = .ok escaped m') : m'.IsUpToDate p := by
  obtain ⟨i, out, w', hperform, ⟨hprogram, hkernel, hhost⟩, hlistening, hqueue, hlog⟩ :=
    step_tells h.hostCall hstep
  -- who runs an instruction is there and has not ended
  obtain ⟨th, hth, hrunnable⟩ := hruns
  have ht : t.index < m.kernel.threads.size := (Array.getElem?_eq_some_iff.mp hth).1
  have halive : ¬ m.kernel.HasEnded t := by
    rintro ⟨th', hth', hended⟩
    obtain rfl : th = th' := Option.some.inj (hth.symm.trans hth')
    simp [Thread.isRunnable, hended] at hrunnable
  rw [h.program] at hperform
  obtain ⟨es, hes, haccounts⟩ := Step.reports_perform hperform hp ht halive
  replace hes : w'.events.toList = es := hes
  refine ⟨hprogram.trans h.program, hhost, hqueue, fun hm => ?_⟩
  rw [hlistening] at hm
  have hmatches : Log.Matches (m.log ++ es ++ out.endings t) (out.settled w'.kernel t) :=
    ((h.log hm).append haccounts).settled (Nat.lt_of_lt_of_le ht haccounts.size_le)
      (mt (haccounts.endings t).mp halive) out
  rw [hkernel, hlog hm, h.queue, hes]
  rwa [List.append_assoc] at hmatches

theorem round {steps : Nat} {r : Nat ⊕ TransitionEnd} (hp : p.WellFormed) (h : m.IsUpToDate p)
    (hround : Machine.round steps m = .ok r m') : m'.IsUpToDate p := by
  rcases round_tells hround with hsilent | ⟨escaped, m₁, hruns, hstep, hsilent⟩
  · exact h.silent hsilent
  · exact (h.step hp hruns hstep).silent hsilent

theorem begin (h : m.IsUpToDate p) : (m.begin g c).IsUpToDate p :=
  h.silent ⟨rfl, rfl, rfl, rfl, rfl, rfl⟩

theorem transition {e : TransitionEnd} (hp : p.WellFormed) (h : m.IsUpToDate p)
    (htransition : Machine.transition g m = .ok e m') : m'.IsUpToDate p := by
  obtain ⟨-, c, th, -, -, hrun⟩ := transition_eq_ok.mp htransition
  exact Loop.run_induction (I := fun _ n => n.IsUpToDate p) (Q := fun _ n => n.IsUpToDate p)
    (fun _ _ _ _ hn => hn.round hp) (fun _ _ _ _ hn => hn.round hp) h.begin hrun

theorem start {listening : Bool} {name : String} {u : Unit}
    (h : Machine.start name (Machine.new p config listening) = .ok u m) : m.IsUpToDate p := by
  obtain ⟨⟨hprogram, -⟩, hstarted, hready, -, -⟩ := start_eq_ok h
  obtain ⟨hqueue, hlistening, hlog⟩ := start_tells h
  refine ⟨hprogram, hready.hostCall, hqueue, fun hm => ?_⟩
  rw [hlog (hlistening.symm.trans hm)]
  exact .start hstarted

theorem of_driven (hp : p.WellFormed) (h : Driven p config m) : m.IsUpToDate p := by
  induction h with
  | start h => exact .start h
  | transition _ h ih => exact ih.transition hp h

end IsUpToDate

/-- A round leads on. -/
def GoesOn (x y : Nat × Machine) : Prop := Machine.round x.1 x.2 = .ok (.inl y.1) y.2

/-- A machine that was started and driven by transitions: between two of them, or in the course of
one, when a round is over. -/
inductive Visited (p : Program) (config : Config) : Machine → Prop where
  | between {m : Machine} (driven : Driven p config m) : Visited p config m
  | within {m n : Machine} {g : Generator} {c : Choice} {steps : Nat} (driven : Driven p config m)
    (choice : g.current = some c) (rounds : ReflTransGen GoesOn (0, m.begin g c) (steps, n)) :
    Visited p config n

theorem Visited.isUpToDate (hp : p.WellFormed) (h : Visited p config m) : m.IsUpToDate p := by
  cases h with
  | between driven => exact .of_driven hp driven
  | @within m n g c steps driven _ rounds =>
    -- by induction on the rounds; whether the transition comes to an end does not matter
    suffices hall : ∀ x, ReflTransGen GoesOn (0, m.begin g c) x → x.2.IsUpToDate p from
      hall _ rounds
    intro x hx
    induction hx with
    | refl => exact (IsUpToDate.of_driven hp driven).begin
    | tail _ hlast ih => exact ih.round hp hlast

/-- **What listeners hear is a faithful log.** In every state that a machine reaches, between
transitions and after each round of one, the events that a listener has been told of since the start
determine who owns which monitor and how often, which methods each live thread is in, and which
threads are alive. -/
theorem faithful_of_visited (hp : p.Built) (h : Visited p config m)
    (hlistening : m.listening = true) : m.log.Faithful m.kernel :=
  ((h.isUpToDate hp.wellFormed).log hlistening).faithful

/-- Two threads take two locks in opposite order, and each of them has got one. -/
theorem faithful_of_visited_deadlock : ∃ p m ms ms',
    Demo.deadlock.run (Program.base .plain) = .ok ((), p) ∧ p.Built ∧ Visited p {} m ∧
      m.listening = true ∧ m.log.Faithful m.kernel ∧ 0 < m.log.heldBy ⟨21⟩ ⟨1⟩ ∧
      0 < m.log.heldBy ⟨22⟩ ⟨2⟩ ∧ m.log.calls ⟨1⟩ = some ms ∧ ms.map Method.name = ["run"] ∧
      m.log.calls ⟨2⟩ = some ms' ∧ ms'.map Method.name = ["run"] := by
  obtain ⟨p, m₀, hbuild, hstart, htest⟩ := exists_start Demo.deadlock {} true
    (fun _ m => gives (follow [0, 0, 0, 0, 0, 0, 1, 1, 1, 1]) m fun _ m => m.listening &&
      (m.kernel.heap.get? ⟨21⟩).any (·.monitor.owner? == some ⟨1⟩) &&
      (m.kernel.heap.get? ⟨22⟩).any (·.monitor.owner? == some ⟨2⟩) &&
      [1, 2].all fun i => m.kernel.threads[i]?.any Thread.isAlive &&
        (m.kernel.calls ⟨i⟩).map Method.name == ["run"]) (by decide +kernel)
  obtain ⟨_, m, hfollow, htest⟩ := gives_iff.mp htest
  simp only [Bool.and_eq_true, Option.any_eq_true, beq_iff_eq, List.all_cons, List.all_nil,
    and_true] at htest
  obtain ⟨⟨⟨hlistening, o, ho, howner⟩, o', ho', howner'⟩, ⟨hlives, hname⟩, hlives', hname'⟩ := htest
  have hp : p.Built := Demo.keepsBuilt_deadlock (.base .plain) hbuild
  have hdriven : Driven p {} m₀ := .start hstart
  have hvisited : Visited p {} m :=
    .between (hdriven.reaches (hdriven.isReady.reaches_follow hfollow))
  have hfaithful := faithful_of_visited hp hvisited hlistening
  exact ⟨p, m, _, _, hbuild, hp, hvisited, hlistening, hfaithful,
    (hfaithful.owners _ o _ ho).mp howner, (hfaithful.owners _ o' _ ho').mp howner',
    hfaithful.calls _ hlives, hname, hfaithful.calls _ hlives', hname'⟩

end Machine

end Interleave

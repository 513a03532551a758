import Interleave.Proofs.Choice
import Interleave.Proofs.Machine.Sound
import Interleave.Proofs.Step.Sources

/-!
# Values are delivered

A thread that needs a value stops in front of the call of a source, and the generator that it leaves
behind is handed out. If the next transition takes a choice of this generator, then the first thing
it does is to run the call again, which consumes the choice. So values get where they are asked for:
between transitions no choice waits, and a value is asked for only by the current thread.

This holds for every program and every configuration as long as only choices of the generators are
taken that are handed out. Classes with initializers do not get in the way, because the initializers
have been run before the call asks for a value.
-/

namespace Interleave

open Effect Relation

/-- A thread awaits a value, and this generator lets choose it. -/
def Kernel.Demands (p : Program) (k : Kernel) (t : ThreadId) (g : Generator) : Prop :=
  ∃ f i m s, k.Awaits p t f i m s ∧ g.id = "nondet." ++ m.name ∧ Call.Candidates m s f g.domain

namespace Machine

/-- A machine between transitions, led there by choices of the generators that it has handed
out. -/
structure Served (p : Program) (m : Machine) : Prop extends IsReady m where
  program : m.program = p
  /-- No choice waits to be consumed. -/
  choice : m.path.choice = none
  /-- A value is asked for by the current thread, which awaits it. -/
  demands : ∀ g, m.pending = some g → g.isThreadChoice = false →
    m.kernel.Runs m.current ∧ m.kernel.Demands p m.current g

variable {p : Program} {m m' n : Machine} {t : ThreadId} {escaped : Bool} {g : Generator}
  {e : TransitionEnd}

/-! ## One instruction -/

/-- What an instruction leaves behind lets choose a value that its thread awaits. -/
theorem Stepped.demands (hnone : m.pending = none) (hruns : m.kernel.Runs t)
    (h : Stepped m t escaped m') (hg : m'.pending = some g) :
    m'.kernel.Runs t ∧ m'.kernel.Demands m.program t g := by
  obtain ⟨-, hmoves, f, i, callee, s, d, htop, hi, hsource, hmay, hd, rfl⟩ := h.leaves hnone hg
  exact ⟨hruns.advance (.of_moves hmoves), f, i, callee, s, ⟨htop, hi, hsource, hmay⟩, rfl,
    Call.candidates_of_sourceDomain hd⟩

/-- No instruction brings up a choice, and a thread that awaits a value consumes it. -/
theorem Stepped.choice_eq_none (h : Stepped m t escaped m')
    (hchoice : m.path.choice = none ∨ ∃ g, m.kernel.Demands m.program t g) :
    m'.path.choice = none := by
  obtain ⟨i, w, out, w', hat, hk, hc, -, hperform, -, hpath, -⟩ := h.performed
  have hstays : w.choice = none → w'.choice = none := by
    intro hnone
    rcases Step.perform_eq_ok (hk ▸ hat) hperform with hran | ⟨-, hpaused⟩
    · cases hran with
      | moved hmoved => exact hmoved.choice.trans hnone
      | consumed _ hmoved => exact hmoved.choice
    · cases hpaused with
      | stalled hmoved _ status => exact status.choice.trans (hmoved.choice.trans hnone)
      | asked _ _ _ _ hmoved => exact hmoved.choice.trans hnone
  have hnone : w'.choice = none := by
    rcases hchoice with hnone | ⟨g, f, j, callee, source, hawaits, -⟩
    · exact hstays (hc.trans hnone)
    · obtain ⟨f', hf', hi⟩ := hat
      rw [hawaits.top] at hf'
      cases hf'
      rw [hawaits.instruction] at hi
      cases hi
      cases hcw : w.choice with
      | none => exact hstays hcw
      | some c => exact Step.choice_eq_none_of_awaits (hk ▸ hawaits) hcw hperform
  rw [hpath]
  cases out <;> exact hnone

/-- A step leaves its thread current. -/
theorem Stepped.current (h : Stepped m t escaped m') : m'.current = m.current := by
  obtain ⟨i, w, out, w', -, -, -, -, -, -, hpath, -⟩ := h.performed
  unfold Machine.current
  rw [hpath]
  cases out <;> rfl

/-! ## Transitions -/

/-- Where a thread can run, the list of those that can is not empty. -/
theorem runnable_ne_nil {k : Kernel} (h : k.Runs t) : k.runnable ≠ [] := by
  obtain ⟨th, hth, hrun⟩ := h
  have hmem : th ∈ k.threads.toList := List.mem_of_getElem? (by simpa using hth)
  refine List.ne_nil_of_mem (a := th.id) ?_
  exact List.mem_map.mpr ⟨th, List.mem_filter.mpr ⟨hmem, hrun⟩, rfl⟩

/-- Choices among threads ask for no values. -/
theorem Offers.isThreadChoice (h : n.Offers m') (hg : m'.pending = some g) :
    g.isThreadChoice = true := by
  obtain ⟨id, hsame⟩ := h
  rw [hsame.pending] at hg
  cases hg
  rfl

/-- While a transition runs, a choice waits to be consumed only where the current thread is about to
consume it. -/
structure Expects (p : Program) (m : Machine) : Prop where
  program : m.program = p
  pending : m.pending = none
  /-- No choice waits, or the next instruction consumes it. -/
  choice : m.path.choice = none ∨
    m.isFresh = true ∧ m.kernel.Runs m.current ∧ ∃ g, m.kernel.Demands p m.current g

theorem Expects.stepped (h : Expects p m) (hstepped : m.Stepped m.current escaped m') : m'.path.choice = none := by
  refine hstepped.choice_eq_none (h.choice.imp_right ?_)
  rw [h.program]
  exact fun h => h.2.2

/-- A choice of a generator that is handed out is a thread if the generator is among threads, and
else a value that the current thread awaits. -/
theorem Served.thread_or_demands {i : Nat} {c : Choice} (hm : Served p m) (hg : m.pending = some g)
    (hc : (g.select i).2.current = some c) :
    (∃ t, c = .thread t) ∨
      g.isThreadChoice = false ∧ m.kernel.Runs m.current ∧ m.kernel.Demands p m.current g := by
  by_cases hthread : ∃ t, c = .thread t
  · exact .inl hthread
  · refine .inr ?_
    have hdata : g.isThreadChoice = false := by
      cases hselect : g.domain.get? i with
      | none =>
        simp only [Generator.select, hselect, Generator.current, hm.untried g hg] at hc
        cases hc
      | some d =>
        have hd : d = c := by
          simpa only [Generator.select, hselect, Generator.current, Option.bind_some,
            Option.some.injEq] using hc
        rw [hd] at hselect
        refine Bool.eq_false_iff.mpr fun hthreads => hthread ?_
        have hkind : g.domain.kind = .threads := by
          simpa only [Generator.isThreadChoice, beq_iff_eq] using hthreads
        exact (Domain.kind_of_get? hselect).mp hkind
    exact ⟨hdata, hm.demands g hg hdata⟩

/-- A choice that is no thread waits to be consumed. -/
theorem takeChoice_of_data (path : Path) {c : Choice} (hdata : ∀ t, c ≠ .thread t) :
    (takeChoice path g c).choice = some c ∧ (takeChoice path g c).current = path.current := by
  cases c with
  | thread t => exact absurd rfl (hdata t)
  | _ => exact ⟨rfl, rfl⟩

/-- The first choice of a transition is consumed where it was asked for. -/
theorem Served.expects {i : Nat} {c : Choice} (hm : Served p m) (hg : m.pending = some g)
    (hc : (g.select i).2.current = some c)
    (hsame : SameState (m.withChoice (g.select i).2 c) n) (hfresh : n.isFresh = true) :
    Expects p n := by
  refine ⟨hsame.program.trans hm.program, hsame.pending, ?_⟩
  unfold Machine.current
  rw [hsame.path, hsame.kernel]
  rcases hm.thread_or_demands hg hc with ⟨t, rfl⟩ | ⟨hdata, hruns, hdemands⟩
  · exact .inl hm.choice
  · by_cases hthread : ∃ t, c = .thread t
    · obtain ⟨t, rfl⟩ := hthread
      exact .inl hm.choice
    · have hcurrent : (m.withChoice (g.select i).2 c).path.current = m.path.current :=
        (takeChoice_of_data _ fun t ht => hthread ⟨t, ht⟩).2
      rw [hcurrent]
      exact .inr ⟨hfresh, hruns, g, hdemands⟩

/-- A transition consumes the choice that it begins with, and leaves a generator of values behind
only where one is asked for. -/
theorem Served.transition {i : Nat} (hm : Served p m) (hg : m.pending = some g)
    (h : m.transition (g.select i).2 = .ok e m') : Served p m' := by
  have hoffers : ∀ {n n' : Machine}, n.Offers n' → ∀ g', n'.pending = some g' →
      g'.isThreadChoice = false → n'.kernel.Runs n'.current ∧ n'.kernel.Demands p n'.current g' := by
    intro n n' hoffers g' hg' hdata
    rw [hoffers.isThreadChoice hg'] at hdata
    cases hdata
  obtain ⟨hchoice, hdemands⟩ : m'.path.choice = none ∧ ∀ g', m'.pending = some g' →
      g'.isThreadChoice = false → m'.kernel.Runs m'.current ∧ m'.kernel.Demands p m'.current g' := by
    refine transition_induction (I := Expects p) (Q := fun _ n => n.path.choice = none ∧
      ∀ g', n.pending = some g' → g'.isThreadChoice = false →
        n.kernel.Runs n.current ∧ n.kernel.Demands p n.current g') hm.hostCall
      (fun c n hc hsame hfresh => hm.expects hg hc hsame hfresh) ?_ ?_ h
    · intro n n' steps steps' hn hhost hrounded
      have hprogram := (hrounded.sameRun hhost).1.trans hn.program
      cases hrounded with
      | switched idle _ same _ =>
        refine ⟨hprogram, same.pending.trans hn.pending, .inl ?_⟩
        rcases hn.choice with hnone | ⟨-, hruns, -⟩
        · rw [same.path]
          exact hnone
        · exact absurd hruns idle
      | stepped _ h settled _ => exact ⟨hprogram, settled, .inl (hn.stepped h)⟩
    · intro n n' steps e hn hhost hrounded
      -- what an instruction leaves behind it leaves in front of the current thread
      have hstepped : ∀ {escaped n'}, n.kernel.Runs n.current → n.Stepped n.current escaped n' →
          ∀ g', n'.pending = some g' → g'.isThreadChoice = false →
            n'.kernel.Runs n'.current ∧ n'.kernel.Demands p n'.current g' := by
        intro escaped n' hruns hstepped g' hg' _
        rw [hstepped.current]
        exact hn.program ▸ hstepped.demands hn.pending hruns hg'
      have hidle : ¬ n.kernel.Runs n.current → n.path.choice = none := by
        intro hidle
        rcases hn.choice with hnone | ⟨-, hruns, -⟩
        · exact hnone
        · exact absurd hruns hidle
      cases hrounded with
      | finished idle =>
        refine ⟨hidle fun hruns => runnable_ne_nil hruns idle, fun g' hg' => ?_⟩
        rw [hn.pending] at hg'
        cases hg'
      | blocked idle offers =>
        refine ⟨?_, hoffers offers⟩
        obtain ⟨id, hsame⟩ := offers
        rw [hsame.path]
        exact hidle idle
      | broken stale offers =>
        refine ⟨?_, hoffers offers⟩
        obtain ⟨id, hsame⟩ := offers
        rw [hsame.path]
        rcases hn.choice with hnone | ⟨hfresh, -⟩
        · exact hnone
        · rw [stale] at hfresh
          cases hfresh
      | asked runs h _ => exact ⟨hn.stepped h, hstepped runs h⟩
      | escaped runs h opened =>
        rcases opened with rfl | offers
        · exact ⟨hn.stepped h, hstepped runs h⟩
        · have hnone := hn.stepped h
          refine ⟨?_, hoffers offers⟩
          obtain ⟨id, hsame⟩ := offers
          rw [hsame.path]
          exact hnone
  exact {
    toIsReady := hm.toIsReady.transition h
    program := (transition_turns hm.hostCall h).1.1.trans hm.program
    choice := hchoice
    demands := hdemands }

/-- A machine that was just started is served. -/
theorem Served.start {config : Config} {listening : Bool} {name : String} {u : Unit}
    (h : start name (Machine.new p config listening) = .ok u m) : Served p m := by
  obtain ⟨⟨hprogram, -⟩, -, hready, hpath, hpending⟩ := start_eq_ok h
  refine ⟨hready, hprogram, by rw [hpath], fun g hg hdata => ?_⟩
  rw [hpending] at hg
  cases hg
  cases hdata

theorem Served.reaches (hm : Served p m) (h : m.Reaches m') : Served p m' := by
  induction h with
  | refl => exact hm
  | tail _ hlast ih =>
    obtain ⟨hg, -, htransition⟩ := hlast
    exact ih.transition hg htransition

/-! ## The next transition -/

/-- The transition that begins with a choice of this generator begins with the current thread
running a call again, which takes the value; then it goes on from the second machine. -/
structure Delivers (m : Machine) (g : Generator) (c : Choice) (f : Frame) (i : Instruction)
    (callee : Method) (m₁ : Machine) : Prop where
  /-- The first round runs the call. -/
  first : round 0 (m.begin g c) = .ok (.inl 1) m₁
  performed : ∃ x : Performed, x.machine = m.begin g c ∧ x.thread = m.current ∧ x.instruction = i ∧
    x.LeadsTo m₁
  /-- The transition is this round and those that follow. -/
  rest : ∀ rounds, m.roundBound = rounds + 1 →
    m.transition g = Loop.run round .budgetExhausted rounds 1 m₁
  /-- The arguments have been taken off the operand stack and the value has been put there, and the
  thread stands behind the call. Nothing else has changed. -/
  kernel : m₁.kernel = m.kernel.modifyThread m.current (·.setTop (f.behind callee i c))
  /-- The value has the size of the result. -/
  slots : c.toSlots.length = callee.resultSlots
  /-- The choice has been consumed, and no generator has been left behind. -/
  choice : m₁.path.choice = none
  pending : m₁.pending = none
  current : m₁.current = m.current

/-- A round begins with the instruction of the current thread, if that can be performed and its
scheduling point has been taken. -/
theorem exists_round (steps : Nat) {i : Instruction} {out : Outcome} {w' : Work}
    (hfresh : m.isFresh = true) (hruns : m.kernel.Runs m.current) (hat : m.kernel.At m.current i)
    (hperform : Step.perform m.program m.current i m.work = .ok out w') :
    ∃ r m', round steps m = .ok r m' := by
  obtain ⟨escaped, m₁, hstep⟩ := exists_step hat hperform
  obtain ⟨r, m', hadvance⟩ : ∃ r m', advance steps m = .ok r m' := by
    unfold advance
    rw [get_bind, bind_of_ok hstep, get_bind]
    cases escaped with
    | true =>
      simp only [if_true]
      split <;> exact ⟨_, _, rfl⟩
    | false =>
      simp only [Bool.false_eq_true, if_false]
      split <;> exact ⟨_, _, rfl⟩
  obtain ⟨th, hth, hrun⟩ := hruns
  refine ⟨r, m', ?_⟩
  unfold round
  rw [get_bind]
  refine Action.thread_bind_eq_ok.mpr ⟨th, hth, ?_⟩
  simp only [hrun, hfresh, Bool.not_true, Bool.false_eq_true, if_false, if_true]
  exact hadvance

/-- Such a round performs the instruction, and the transition goes on if the thread does and no
generator is left behind. -/
theorem round_of_perform (steps : Nat) {i : Instruction} {w' : Work} (hhost : m.hostCall = none)
    (hfresh : m.isFresh = true) (hruns : m.kernel.Runs m.current) (hat : m.kernel.At m.current i)
    (hperform : Step.perform m.program m.current i m.work = .ok .running w')
    (hpending : w'.pending = none) :
    ∃ (m' : Machine) (x : Performed), round steps m = .ok (.inl (steps + 1)) m' ∧
      x.machine = m ∧ x.thread = m.current ∧ x.instruction = i ∧ x.outcome = .running ∧
      x.work = w' ∧ x.LeadsTo m' := by
  obtain ⟨r, m', hround⟩ := exists_round steps hfresh hruns hat hperform
  -- what is performed is this instruction, with this result
  have hran : ∀ {x : Performed} {m₁ : Machine}, x.Starts m steps → x.LeadsTo m₁ →
      x.instruction = i ∧ x.outcome = .running ∧ x.work = w' := by
    intro x m₁ hstarts hleads
    obtain ⟨f, hf, hi⟩ := hat
    obtain ⟨f', hf', hi'⟩ := hleads.stands
    rw [Performed.before, hstarts.machine, hstarts.thread, hf] at hf'
    cases hf'
    rw [hi] at hi'
    cases hi'
    have hperformed := hleads.performed
    rw [hstarts.machine, hstarts.thread, hperform, EStateM.Result.ok.injEq] at hperformed
    exact ⟨rfl, hperformed.1.symm, hperformed.2.symm⟩
  obtain ⟨y, hplayed⟩ := round_played hhost hround
  cases hplayed with
  | finished _ idle => exact absurd idle (runnable_ne_nil hruns)
  | switched idle => exact absurd hruns idle
  | blocked idle => exact absurd hruns idle
  | broken _ stale =>
    rw [hfresh] at stale
    cases stale
  | @stepped x _ starts leads =>
    obtain ⟨hi, hout, hwork⟩ := hran starts leads
    exact ⟨m', x, hround, starts.machine, starts.thread, hi, hout, hwork, leads⟩
  | asked starts leads _ opened =>
    obtain ⟨-, -, hwork⟩ := hran starts leads
    rw [leads.pending, hwork, hpending] at opened
    cases opened
  | escaped starts leads outcome =>
    obtain ⟨-, hout, -⟩ := hran starts leads
    rw [outcome] at hout
    cases hout

/-- A value that is chosen reaches the call that asked for it. -/
theorem Served.exists_delivers {f : Frame} {i : Instruction} {callee : Method} {s : ValueSource} {c : Choice}
    {idx : Nat} (hm : Served p m) (hdata : g.isThreadChoice = false)
    (hruns : m.kernel.Runs m.current) (hawaits : m.kernel.Awaits p m.current f i callee s)
    (hcandidates : Call.Candidates callee s f g.domain) (hargs : callee.argSlots ≤ f.operands.length)
    (hc : g.domain.get? idx = some c) : ∃ m₁, Delivers m (g.select idx).2 c f i callee m₁ := by
  have hselected : (g.select idx).2.current = some c := by
    unfold Generator.select
    rw [hc]
    exact hc
  have hslots := hcandidates.length_toSlots hc
  have hpositive : 0 < callee.resultSlots := by
    rw [← hslots]
    cases c <;> simp [Choice.toSlots]
  -- the choice waits in front of the first round
  have hnothread : ∀ t, c ≠ .thread t := by
    rintro t rfl
    have hkind := (Domain.kind_of_get? hc).mpr ⟨t, rfl⟩
    simp [Generator.isThreadChoice, hkind] at hdata
  obtain ⟨hchoice, hcurrent⟩ :=
    takeChoice_of_data (g := (g.select idx).2) m.path hnothread
  obtain ⟨n, hn⟩ : ∃ n, m.begin (g.select idx).2 c = n := ⟨_, rfl⟩
  have hsame : SameState (m.withChoice (g.select idx).2 c) n :=
    hn ▸ SameState.modifyScratch _ _ _
  have hprogram : n.program = p := hsame.program.trans hm.program
  have hkernel : n.kernel = m.kernel := hsame.kernel
  have hhost : n.hostCall = none := hsame.hostCall.trans hm.hostCall
  have hwaiting : n.path.choice = some c := by
    rw [hsame.path]
    exact hchoice
  have hthread : n.current = m.current := by
    unfold Machine.current
    rw [hsame.path]
    exact hcurrent
  have hpending : n.pending = none := hsame.pending
  have hfresh : n.isFresh = true := hn ▸ isFresh_begin m (g.select idx).2 c
  -- so the first round runs the call
  obtain ⟨w', hperform, hkernel', hchoice', hpending'⟩ :=
    Step.perform_of_awaits (w := n.work) (t := m.current) (hkernel ▸ hawaits) hwaiting hargs hpositive
  obtain ⟨m₁, x, hround, hmachine, hx, hi, hout, hwork, hleads⟩ :=
    round_of_perform 0 hhost hfresh (by rw [hkernel, hthread]; exact hruns)
      (by rw [hkernel, hthread]; exact ⟨f, hawaits.top, hawaits.instruction⟩)
      (by rw [hprogram, hthread]; exact hperform) (hpending'.trans hpending)
  have hpath : m₁.path = { n.path with choice := none } := by
    rw [hleads.path, hout, hmachine, hwork, hchoice']
    rfl
  refine ⟨m₁, ?_, ⟨x, ?_, hx.trans hthread, hi, hleads⟩, ?_, ?_, hslots, ?_, ?_, ?_⟩
  · rw [hn]
    exact hround
  · rw [hn]
    exact hmachine
  · intro rounds hrounds
    obtain ⟨th, hth, -⟩ := hruns
    have hthere : m.kernel.thread (m.withChoice (g.select idx).2 c).current = .ok th := by
      rw [Kernel.thread_eq_ok]
      unfold Machine.current at hth
      rw [← hcurrent] at hth
      exact hth
    rw [transition_eq, hm.started, hselected, hrounds]
    simp only [Bool.not_true, Bool.false_eq_true, if_false, hthere, hn]
    rw [Loop.run_succ, hround]
  · rw [hleads.kernel, Performed.after, hout, hwork]
    exact hkernel'.trans (by rw [work, hkernel])
  · rw [hpath]
  · rw [hleads.pending, hwork, hpending', work, hpending]
  · unfold Machine.current
    rw [hpath]
    exact hthread

/-- **Values are delivered.** Let a machine be started and led on by choices of the generators that
it hands out. Then no choice waits between transitions. If a generator of values is handed out, then
the current thread stands in front of the call of a source, and the generator lets choose from the
values of that source. Whichever choice is taken, the next transition begins with that call: the
arguments are replaced with the chosen value, and the thread goes on behind the call. -/
theorem Reaches.delivers {config : Config} {listening : Bool} {name : String} {m₀ : Machine}
    (hstart : start name (Machine.new p config listening) = .ok () m₀) (h : m₀.Reaches m) :
    m.path.choice = none ∧ ∀ g, m.pending = some g → g.isThreadChoice = false →
      ∃ f i callee s, m.kernel.Runs m.current ∧ m.kernel.topFrame m.current = .ok f ∧
        f.instruction = .ok i ∧ m.kernel.AtSource p f i callee s ∧
        g.id = "nondet." ++ callee.name ∧ Call.Candidates callee s f g.domain ∧
        (callee.argSlots ≤ f.operands.length → ∀ idx c, g.domain.get? idx = some c →
          ∃ m₁, Delivers m (g.select idx).2 c f i callee m₁) := by
  have hm : Served p m := (Served.start hstart).reaches h
  refine ⟨hm.choice, fun g hg hdata => ?_⟩
  obtain ⟨hruns, f, i, callee, s, hawaits, hid, hcandidates⟩ := hm.demands g hg hdata
  exact ⟨f, i, callee, s, hruns, hawaits.top, hawaits.instruction, hawaits.source, hid, hcandidates,
    fun hargs idx c hc => hm.exists_delivers hdata hruns hawaits hcandidates hargs hc⟩

/-- The main method of the demonstration asks for its first value, and the int 1 reaches it. -/
theorem Reaches.delivers_nondet : ∃ p m₀ m g f i callee m₁,
    Demo.nondet.run (Program.base .plain) = .ok ((), p) ∧
      start Demo.mainClass (Machine.new p {} false) = .ok () m₀ ∧ m₀.Reaches m ∧
      m.path.choice = none ∧ m.pending = some g ∧ g.domain = .ints 0 2 ∧
      callee.argSlots ≤ f.operands.length ∧ Delivers m (g.select 1).2 (.int 1) f i callee m₁ := by
  obtain ⟨p, m₀, hbuild, hstart, hgives⟩ := exists_start_of_demo Demo.nondet
    (fun p m₀ => gives (follow [0]) m₀ fun (_ : Unit) (m : Machine) =>
      m.pending.any (fun g : Generator => g.domain == .ints 0 2) &&
        (m.kernel.topFrame m.current).toOption.any fun f : Frame =>
          f.instruction.toOption.any fun i : Instruction =>
            (p.callTarget m.kernel f i).toOption.any fun target : Option Method =>
              target.any fun callee => decide (callee.argSlots ≤ f.operands.length))
    (by decide +kernel)
  obtain ⟨_, m, hfollow, htest⟩ := gives_iff.mp hgives
  have hreaches : m₀.Reaches m := (start_eq_ok hstart).2.2.1.reaches_follow hfollow
  rw [Bool.and_eq_true, Option.any_eq_true] at htest
  obtain ⟨⟨g, hg, hdomain⟩, hargs⟩ := htest
  replace hdomain : g.domain = .ints 0 2 := by simpa using hdomain
  have hdata : g.isThreadChoice = false := by
    unfold Generator.isThreadChoice
    rw [hdomain]
    rfl
  obtain ⟨hnone, hvalues⟩ := Reaches.delivers hstart hreaches
  obtain ⟨f, i, callee, s, -, htop, hi, hsource, -, -, hdelivers⟩ := hvalues g hg hdata
  simp only [htop, hi, hsource.callee, Except.toOption, Option.any_some, decide_eq_true_eq] at hargs
  obtain ⟨m₁, hm₁⟩ := hdelivers hargs 1 (.int 1) (by rw [hdomain]; rfl)
  exact ⟨p, m₀, m, g, f, i, callee, m₁, hbuild, hstart, hreaches, hnone, hg, hdomain, hargs, hm₁⟩

end Machine

end Interleave

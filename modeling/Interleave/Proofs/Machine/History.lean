import Interleave.Proofs.Machine.Driven

/-!
# What has happened

The history of a transition lists the instructions that its rounds perform, in order, each with the
machine in front of it and with what it makes of the state. The history of a run puts those of its
transitions one after another.

A history is read off the rounds themselves: a round performs an instruction if the current thread
can run and nothing has to be considered first, and otherwise it performs none. So every transition
that succeeds has a history, and so has every state that a machine reaches.

Between two instructions nothing happens to the state: each one is performed in the state that the
one before it has left behind.
-/

namespace Interleave.Machine

open Effect

/-- The rounds of a transition from some point on, with the instructions that they perform. -/
inductive Plays : Nat → Machine → List Performed → TransitionEnd → Machine → Prop where
  /-- The last round. -/
  | last {steps : Nat} {m m' : Machine} {x : Option Performed} {e : TransitionEnd}
    (round : Machine.round steps m = .ok (.inr e) m') (played : Played m steps x (.inr e) m') :
    Plays steps m x.toList e m'
  /-- One round, and the rest. -/
  | next {steps steps' : Nat} {m m₁ m' : Machine} {x : Option Performed} {xs : List Performed}
    {e : TransitionEnd} (round : Machine.round steps m = .ok (.inl steps') m₁)
    (played : Played m steps x (.inl steps') m₁) (rest : Plays steps' m₁ xs e m') :
    Plays steps m (x.toList ++ xs) e m'

/-- A transition succeeds, and these are the instructions that it performs. -/
structure Transits (g : Generator) (m : Machine) (xs : List Performed) (e : TransitionEnd)
    (m' : Machine) : Prop where
  transition : Machine.transition g m = .ok e m'
  plays : ∃ c, g.current = some c ∧ Plays 0 (m.begin g c) xs e m'

variable {g : Generator} {m m' : Machine} {xs : List Performed} {e : TransitionEnd}

/-- A round goes on with the same program, and without a call from outside. -/
theorem Played.sameRun {steps : Nat} {x : Option Performed} {r : Nat ⊕ TransitionEnd}
    (hhost : m.hostCall = none) (h : Played m steps x r m') :
    m'.program = m.program ∧ m'.config = m.config ∧ m'.hostCall = none :=
  h.rounded.sameRun hhost

/-- Rounds that come to an end have a history. -/
theorem Plays.exists_of_run {n steps : Nat} (hhost : m.hostCall = none)
    (h : Loop.run round .budgetExhausted n steps m = .ok e m') : ∃ xs, Plays steps m xs e m' := by
  induction n generalizing steps m with
  | zero => cases h
  | succ n ih =>
    rw [Loop.run_succ] at h
    cases hround : round steps m with
    | error f m₁ =>
      rw [hround] at h
      cases h
    | ok r m₁ =>
      rw [hround] at h
      obtain ⟨x, hplayed⟩ := round_played hhost hround
      cases r with
      | inl steps' =>
        obtain ⟨xs, hrest⟩ := ih (hplayed.sameRun hhost).2.2 h
        exact ⟨_, .next hround hplayed hrest⟩
      | inr e' =>
        cases h
        exact ⟨_, .last hround hplayed⟩

/-- Every transition that succeeds has a history. -/
theorem exists_transits (hhost : m.hostCall = none) (h : transition g m = .ok e m') :
    ∃ xs, Transits g m xs e m' := by
  obtain ⟨-, c, th, hc, -, hrun⟩ := transition_eq_ok.mp h
  have hsame : SameState (m.withChoice g c) (m.begin g c) := SameState.modifyScratch _ _ _
  obtain ⟨xs, hplays⟩ := Plays.exists_of_run (hsame.hostCall.trans hhost) hrun
  exact ⟨xs, h, c, hc, hplays⟩

/-- What the rounds of a transition keep leads to what holds at its end. -/
theorem Plays.induction {I : Machine → Prop} {Q : TransitionEnd → Machine → Prop} {steps : Nat}
    (h : Plays steps m xs e m') (hhost : m.hostCall = none)
    (hnext : ∀ n n' steps x steps', I n → n.hostCall = none →
      Played n steps x (.inl steps') n' → I n')
    (hlast : ∀ n n' steps x e, I n → n.hostCall = none → Played n steps x (.inr e) n' → Q e n')
    (hI : I m) : Q e m' := by
  induction h with
  | last _ played => exact hlast _ _ _ _ _ hI hhost played
  | next _ played _ ih => exact ih (played.sameRun hhost).2.2 (hnext _ _ _ _ _ hI hhost played)

/-! ## Runs -/

/-- Instructions of a program that were performed one after another, from one state to another, each
by a thread that could run. -/
inductive Succession (p : Program) : Kernel → List Performed → Kernel → Prop where
  | nil (k : Kernel) : Succession p k [] k
  | cons {x : Performed} {xs : List Performed} {m : Machine} {k k' : Kernel} (before : x.before = k)
    (program : x.machine.program = p) (runs : x.before.Runs x.thread) (leads : x.LeadsTo m)
    (rest : Succession p x.after xs k') : Succession p k (x :: xs) k'

/-- The states that a run goes through: those in front of its instructions, and the one at its
end. -/
def states (xs : List Performed) (k : Kernel) : List Kernel := xs.map Performed.before ++ [k]

/-- A machine was started on a program and driven by transitions, and these are the instructions
that have been performed. -/
inductive Recorded (p : Program) (config : Config) : List Performed → Machine → Prop where
  /-- It has just been started. -/
  | start {listening : Bool} {name : String} {m : Machine}
    (h : Machine.start name (Machine.new p config listening) = .ok () m) : Recorded p config [] m
  /-- A transition has been run. -/
  | transition {g : Generator} {m m' : Machine} {xs ys : List Performed} {e : TransitionEnd}
    (recorded : Recorded p config xs m) (h : Transits g m ys e m') : Recorded p config (xs ++ ys) m'

theorem Succession.append {p : Program} {k₁ k₂ k₃ : Kernel} {xs ys : List Performed}
    (h : Succession p k₁ xs k₂) (h' : Succession p k₂ ys k₃) : Succession p k₁ (xs ++ ys) k₃ := by
  induction h with
  | nil => exact h'
  | cons before program runs leads _ ih => exact .cons before program runs leads (ih h')

/-- What holds between the states before and after each instruction, and is transitive, holds
between all states that a run goes through. -/
theorem Succession.pairwise {p : Program} {R : Kernel → Kernel → Prop} [IsPreorder Kernel R]
    (hstep : ∀ (x : Performed) m, x.machine.program = p → x.LeadsTo m → R x.before x.after)
    {k k' : Kernel} {xs : List Performed} (h : Succession p k xs k') :
    (states xs k').Pairwise R ∧ ∀ k₁ ∈ states xs k', R k k₁ := by
  induction h with
  | nil k => simp [states, refl k]
  | @cons x xs m k k' before program runs leads rest ih =>
    subst before
    obtain ⟨hpairwise, hall⟩ := ih
    have hrest : ∀ k₁ ∈ states xs k', R x.before k₁ := fun k₁ hk₁ =>
      IsTrans.trans _ _ _ (hstep x m program leads) (hall k₁ hk₁)
    exact ⟨List.pairwise_cons.mpr ⟨hrest, hpairwise⟩, List.forall_mem_cons.mpr ⟨refl _, hrest⟩⟩

/-- The rounds of a transition perform their instructions one after another. -/
theorem Plays.succession {steps : Nat} (h : Plays steps m xs e m') (hhost : m.hostCall = none) :
    Succession m.program m.kernel xs m'.kernel := by
  have hinstruction : ∀ {n m₁ : Machine} {x : Performed} {steps ys k},
      x.Starts n steps → x.LeadsTo m₁ → Succession m₁.program m₁.kernel ys k →
        Succession n.program n.kernel (x :: ys) k := by
    rintro n m₁ x steps ys k ⟨rfl, hthread, hruns, -⟩ hleads hrest
    rw [hleads.program, hleads.kernel] at hrest
    exact .cons rfl rfl (by rw [hthread]; exact hruns) hleads hrest
  have hstays : ∀ {n n' : Machine}, n'.kernel = n.kernel →
      Succession n.program n.kernel [] n'.kernel := fun h => h ▸ .nil _
  have hoffers : ∀ {n n' : Machine}, n.Offers n' → n'.kernel = n.kernel :=
    fun ⟨_, hsame⟩ => hsame.kernel
  induction h with
  | last _ played =>
    cases played with
    | finished => exact hstays rfl
    | blocked _ _ offers => exact hstays (hoffers offers)
    | broken _ _ _ offers => exact hstays (hoffers offers)
    | asked starts leads => exact hinstruction starts leads (.nil _)
    | escaped starts leads _ opened =>
      refine hinstruction starts leads ?_
      rcases opened with ⟨-, rfl⟩ | ⟨-, offers⟩
      · exact .nil _
      · exact hstays (hoffers offers)
  | next _ played _ ih =>
    have hrest := ih (played.sameRun hhost).2.2
    cases played with
    | switched idle only same _ =>
      rw [same.program, same.kernel] at hrest
      exact hrest
    | stepped starts leads => exact hinstruction starts leads hrest

namespace Recorded

variable {p : Program} {config : Config}

theorem driven (h : Recorded p config xs m) : m.Driven p config := by
  induction h with
  | start h => exact .start h
  | transition _ h ih => exact ih.transition h.transition

/-- A run performs its instructions one after another, from the state after the start. -/
theorem exists_start (h : Recorded p config xs m) : ∃ listening name m₀,
    Machine.start name (Machine.new p config listening) = .ok () m₀ ∧
      Succession p m₀.kernel xs m.kernel := by
  induction h with
  | start h => exact ⟨_, _, _, h, .nil _⟩
  | @transition g m m' xs ys e recorded h ih =>
    obtain ⟨listening, name, m₀, hstart, hsuccession⟩ := ih
    obtain ⟨hprogram, -⟩ := recorded.driven.sameRun
    obtain ⟨c, -, hplays⟩ := h.plays
    have hsame : SameState (m.withChoice g c) (m.begin g c) := SameState.modifyScratch _ _ _
    have hlast := hplays.succession (hsame.hostCall.trans recorded.driven.isReady.hostCall)
    rw [hsame.program, hsame.kernel] at hlast
    replace hlast : Succession m.program m.kernel ys m'.kernel := hlast
    rw [hprogram] at hlast
    exact ⟨listening, name, m₀, hstart, hsuccession.append hlast⟩

theorem succession (h : Recorded p config xs m) :
    ∃ k, Kernel.Started p k ∧ Succession p k xs m.kernel := by
  obtain ⟨listening, name, m₀, hstart, hsuccession⟩ := h.exists_start
  exact ⟨m₀.kernel, (start_eq_ok hstart).2.1, hsuccession⟩

end Recorded

/-- Every state that a machine reaches has a history. -/
theorem Driven.exists_recorded {p : Program} {config : Config} (h : m.Driven p config) :
    ∃ xs, Recorded p config xs m := by
  induction h with
  | start h => exact ⟨[], .start h⟩
  | transition driven h ih =>
    obtain ⟨xs, hrecorded⟩ := ih
    obtain ⟨ys, htransits⟩ := exists_transits driven.isReady.hostCall h
    exact ⟨xs ++ ys, hrecorded.transition htransits⟩

end Interleave.Machine

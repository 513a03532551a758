import Interleave.Proofs.Machine.Rounds

/-!
# Transitions that run alike

A round of a transition reads one piece of scratch data: whether the next instruction of the current
thread is a first one. It has been written in the same transition before, when the choice was taken,
when the machine switched to the thread, or by the step in front. Which of these it was can be told
from the number of steps that the transition carries along. So two machines that have gone alike
through the rounds so far have the same flag, whatever scratch data there was in front of the
transition.
-/

namespace Interleave.Machine

open Effect (Agree)

variable {full : Prop} {m n : Machine} {g : Generator}

/-- Rounds that go on with the same number of steps have written the same flag. -/
theorem isFresh_eq_of_rounds {m' n' : Machine} {steps steps' : Nat}
    (hm : round steps m = .ok (.inl steps') m') (hn : round steps n = .ok (.inl steps') n') :
    m'.isFresh = n'.isFresh := by
  rcases isFresh_of_round hm with ⟨hfresh, hsame⟩ | ⟨hstale, hmore⟩
  · rcases isFresh_of_round hn with ⟨hfresh', -⟩ | ⟨-, hmore⟩
    · rw [hfresh, hfresh']
    · omega
  · rcases isFresh_of_round hn with ⟨-, hsame⟩ | ⟨hstale', -⟩
    · omega
    · rw [hstale, hstale']

/-- From states with the same flag, any number of rounds have the same outcome. -/
theorem rounds_agree (bound steps : Nat) (h : Alike full m n) (hfresh : m.isFresh = n.isFresh) :
    Agree (Alike full) (Loop.run round .budgetExhausted bound steps m)
      (Loop.run round .budgetExhausted bound steps n) := by
  refine Loop.run_agree (R := fun m n => Alike full m n ∧ m.isFresh = n.isFresh)
    (fun _ _ h => h.1) ?_ ?_ bound steps m n ⟨h, hfresh⟩
  · rintro steps m n ⟨h, hfresh⟩
    exact round_agree steps h hfresh
  · intro steps m n steps' m' n' _ hm hn h'
    exact ⟨h', isFresh_eq_of_rounds hm hn⟩

/-- What a transition runs through from where it has taken its choice does not depend on the scratch
data in front of it. -/
theorem Alike.rounds_begin
    (h : Alike full { m with pending := none, path := { m.path with uncaught := none } }
      { n with pending := none, path := { n.path with uncaught := none } })
    (c : Choice) (bound : Nat) :
    Agree (Alike full) (Loop.run round .budgetExhausted bound 0 (m.begin g c))
      (Loop.run round .budgetExhausted bound 0 (n.begin g c)) :=
  rounds_agree bound 0 (h.begin g c) ((isFresh_begin m g c).trans (isFresh_begin n g c).symm)

/-- **Transitions run alike.** From machines that agree on the kernel, the current thread and the
data choice that waits to be consumed, the same choice leads to the same end or the same fault, and
to machines that agree again, on the generator left pending and on the exception that escaped as
well. -/
theorem transition_outcome {c : Choice}
    (h : Alike full { m with pending := none, path := { m.path with uncaught := none } }
      { n with pending := none, path := { n.path with uncaught := none } })
    (hs : m.path.started = true) (hc : g.current = some c) :
    Agree (Alike full) (transition g m) (transition g n) := by
  have hchosen := h.withChoice g c
  have hn : n.path.started = true := h.started.symm.trans hs
  have hkernel : m.kernel = n.kernel := h.kernel
  have hbound : m.roundBound = n.roundBound := by
    unfold roundBound
    rw [show m.config = n.config from h.config, hkernel]
  have hthread : m.kernel.thread (m.withChoice g c).current =
      n.kernel.thread (n.withChoice g c).current := congrArg₂ Kernel.thread hkernel hchosen.current
  rw [transition_eq, transition_eq, hs, hn, hc]
  simp only [Bool.not_true, Bool.false_eq_true, if_false, hthread, hbound]
  cases n.kernel.thread (n.withChoice g c).current with
  | error e => exact .error hchosen
  | ok th => exact h.rounds_begin c _

/-- A transition that succeeds on one of two such machines succeeds on the other. -/
theorem transition_agree {m' : Machine} {e : TransitionEnd}
    (h : Alike full { m with pending := none, path := { m.path with uncaught := none } }
      { n with pending := none, path := { n.path with uncaught := none } })
    (hm : transition g m = .ok e m') : ∃ n', transition g n = .ok e n' ∧ Alike full m' n' := by
  obtain ⟨hs, c, -, hc, -⟩ := transition_eq_ok.mp hm
  exact (transition_outcome h hs hc).of_ok hm

end Interleave.Machine

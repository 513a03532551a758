import Interleave.Proofs.Machine.Driven

/-!
# What a transition does not read

Two machines may differ in the scratch data of their threads, in the trail and the exception that
escaped last, in what is pending, queued or told to listeners, and in what left a call from outside.
Transitions read none of it but what they have written themselves. If the machines agree on the
rest, the same choice has the same outcome on both: the same end or the same fault, with the same
generator pending and the same exception recorded, in states that agree again. So fingerprints may
leave scratch data out, and a snapshot may be restored in front of any trail.

The outcome is the same under every bound on the rounds, so a transition that does not end on one of
the machines does not end on the other.
-/

namespace Interleave.Machine

open Effect

/-- Two machines agree on everything that a transition reads. -/
structure Coincide (m n : Machine) : Prop where
  program : m.program = n.program
  config : m.config = n.config
  hostCall : m.hostCall = n.hostCall
  started : m.path.started = n.path.started
  heap : m.kernel.heap = n.kernel.heap
  classes : m.kernel.classes = n.kernel.classes
  /-- Numbers, statuses, frames and objects of the threads. -/
  threads : m.kernel.threads = n.kernel.threads
  current : m.path.current = n.path.current
  choice : m.path.choice = n.path.choice

/-- Two machines that agree have the same decision open, and the same exception has escaped. -/
structure ComeToSame (m n : Machine) : Prop extends Coincide m n where
  pending : m.pending = n.pending
  uncaught : m.path.uncaught = n.path.uncaught

variable {m n : Machine} {g : Generator} {c : Choice}

/-- What is pending, and what escaped, may be forgotten. -/
theorem Coincide.alike (h : m.Coincide n) :
    Alike False { m with pending := none, path := { m.path with uncaught := none } }
      { n with pending := none, path := { n.path with uncaught := none } } where
  program := h.program
  config := h.config
  kernel := by
    show (⟨m.kernel.heap, m.kernel.threads, m.kernel.classes⟩ : Kernel) = n.kernel
    rw [h.heap, h.threads, h.classes]
  hostCall := h.hostCall
  current := h.current
  choice := h.choice
  uncaught := rfl
  started := h.started
  pending := rfl
  scratch := False.elim
  trail := False.elim

theorem Alike.comeToSame {full : Prop} (h : Alike full m n) : m.ComeToSame n where
  program := h.program
  config := h.config
  hostCall := h.hostCall
  started := h.started
  heap := congrArg Kernel.heap h.kernel
  classes := congrArg Kernel.classes h.kernel
  threads := congrArg Kernel.threads h.kernel
  current := h.current
  choice := h.choice
  pending := h.pending
  uncaught := h.uncaught

/-- One choice has the same outcome on machines that agree. -/
theorem Coincide.transition_agree (h : m.Coincide n) (hs : m.path.started = true)
    (hc : g.current = some c) : Agree ComeToSame (transition g m) (transition g n) :=
  (transition_outcome h.alike hs hc).mono fun _ _ h' => h'.comeToSame

/-- **Scratch state never influences execution.** If two machines that were started agree on what
transitions read, then a choice has the same outcome on both, and so it has under every bound on the
rounds of the transition. -/
theorem Coincide.transition_same (h : m.Coincide n) (hs : m.path.started = true)
    (hc : g.current = some c) :
    Agree ComeToSame (transition g m) (transition g n) ∧
      ∀ bound, Agree ComeToSame
        (Loop.run round .budgetExhausted bound 0 (m.begin g c))
        (Loop.run round .budgetExhausted bound 0 (n.begin g c)) := by
  constructor
  · exact h.transition_agree hs hc
  · intro bound
    exact (h.alike.rounds_begin c bound).mono fun _ _ h' => h'.comeToSame

/-- Both workers of the racy counter have been started. A machine that is in this state, but has the
opposite flags in the scratch data of its threads, has lost its trail and the pending generator, and
has an event queued, comes to the same choice point when the second of the three threads goes on. -/
theorem Coincide.transition_same_racyCounter : ∃ p m n g c e m' n',
    Demo.racyCounter.run (Program.base .plain) = .ok ((), p) ∧ Driven p {} m ∧
      (m.scratch.size = 3 ∧
        n.scratch = m.scratch.map (fun s => { next := none, firstStep := !s.firstStep }) ∧
        m.path.trail.size = 2 ∧ n.path.trail = #[] ∧
        m.pending = some g ∧ n.pending = none ∧ n.queue = #[.threadStarted ⟨1⟩]) ∧
      m.Coincide n ∧ m.path.started = true ∧ (g.select 1).2.current = some c ∧
      transition (g.select 1).2 m = .ok e m' ∧ m'.pending.isSome = true ∧
      transition (g.select 1).2 n = .ok e n' ∧ m'.ComeToSame n' := by
  obtain ⟨p, m, hbuild, hdriven, htest⟩ := Driven.exists_of_demo Demo.racyCounter [0, 0]
    (fun _ m => m.scratch.size == 3 && m.path.trail.size == 2 && m.pending.any fun g =>
      (g.select 1).2.current.isSome &&
        gives (transition (g.select 1).2) m fun _ m' => m'.pending.isSome) (by decide +kernel)
  simp only [Bool.and_eq_true, beq_iff_eq, Option.any_eq_true, Option.isSome_iff_exists] at htest
  obtain ⟨⟨hscratch, htrail⟩, g, hg, ⟨c, hc⟩, hgives⟩ := htest
  obtain ⟨e, m', hm, hpending⟩ := gives_iff.mp hgives
  have hs : m.path.started = true := hdriven.isReady.started
  let n : Machine := { m with
    scratch := m.scratch.map fun s => { next := none, firstStep := !s.firstStep }
    path := { m.path with trail := #[] }
    pending := none
    queue := #[.threadStarted ⟨1⟩] }
  have hcoincide : m.Coincide n := ⟨rfl, rfl, rfl, rfl, rfl, rfl, rfl, rfl, rfl⟩
  obtain ⟨n', hn, hsame⟩ := (hcoincide.transition_same hs hc).1.of_ok hm
  exact ⟨p, m, n, g, c, e, m', n', hbuild, hdriven, ⟨hscratch, rfl, htrail, rfl, hg, rfl, rfl⟩,
    hcoincide, hs, hc, hm, hpending, hn, hsame⟩

/-- **Runs stay the same.** Machines that have come to the same are led through the same states by
the same choices, or fault alike. -/
theorem ComeToSame.follow_same {is : List Nat} (h : m.ComeToSame n) (hm : m.IsReady) :
    Agree ComeToSame (follow is m) (follow is n) := by
  induction is generalizing m n with
  | nil => exact .ok h
  | cons i is ih =>
    unfold follow
    cases hg : n.pending with
    | none =>
      simp only [get_bind, takePending, set_bind, h.pending, hg]
      have hleft : ({ m with pending := none } : Machine) = m := by rw [← hg, ← h.pending]
      have hright : ({ n with pending := none } : Machine) = n := by rw [← hg]
      rw [hleft, hright]
      exact ih h hm
    | some g =>
      simp only [get_bind, takePending, set_bind, h.pending, hg]
      have hcoincide : Coincide { m with pending := none } { n with pending := none } :=
        ⟨h.program, h.config, h.hostCall, h.started, h.heap, h.classes, h.threads, h.current,
          h.choice⟩
      have hagree : Agree ComeToSame (transition (g.selectCyclic i) { m with pending := none })
          (transition (g.selectCyclic i) { n with pending := none }) := by
        cases hc : (g.selectCyclic i).current with
        | some c => exact hcoincide.transition_agree hm.started hc
        | none =>
          rw [transition_eq, transition_eq, hc, ← h.started, hm.started]
          exact .error ⟨hcoincide, rfl, h.uncaught⟩
      cases hleft : transition (g.selectCyclic i) { m with pending := none } with
      | ok e m' =>
        obtain ⟨n', hright, hsame⟩ := hagree.of_ok hleft
        have hready : IsReady { m with pending := none } :=
          ⟨hm.started, hm.hostCall, fun g hg => by cases hg⟩
        rw [bind_of_ok hleft, bind_of_ok hright]
        exact ih hsame (hready.transition hleft)
      | error e m' =>
        obtain ⟨n', hright, hsame⟩ := hagree.of_error hleft
        rw [bind_of_error hleft, bind_of_error hright]
        exact .error hsame

end Interleave.Machine

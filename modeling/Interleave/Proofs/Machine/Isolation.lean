import Interleave.Proofs.Machine.Abandoned
import Interleave.Proofs.Step.Alone

/-!
# Threads are isolated

An instruction works on the thread that runs it. Of another thread nothing changes but its status,
and that only if the instruction gave back a monitor for the last time for which the thread waits,
or ended the thread whose end it waits for. New threads come behind those that are there.
-/

namespace Interleave

open Effect Relation

/-! ## Scratch data -/

namespace Machine

variable {m m' : Machine} {t u : ThreadId}

/-- A step leaves the scratch data of other threads alone. -/
theorem scratchOf_step {escaped : Bool} (hu : u ≠ t) (h : step t m = .ok escaped m') :
    m'.scratchOf u = m.scratchOf u := by
  obtain ⟨th, f, i, out, w', -, -, -, -, -, rfl⟩ := step_eq_ok_iff.mp h
  have htold : (m.told t th f i).scratchOf u = m.scratchOf u := by
    unfold scratchOf told
    rw [scratch_tellExecuting]
    exact scratchOf_modifyScratch_of_ne m _ hu
  have hworked : (m.worked t th f i w').scratchOf u = m.scratchOf u :=
    (scratchOf_absorb_of_ne _ _ hu).trans htold
  have hnext : (((m.worked t th f i w').settle t out).2.updateNext t).scratchOf u = m.scratchOf u :=
    (scratchOf_modifyScratch_of_ne _ _ hu).trans ((scratchOf_settle_of_ne _ out hu).trans hworked)
  refine Eq.trans ?_ hnext
  unfold scratchOf
  rw [scratch_tellExecuted, scratch_deliver]

end Machine

/-! ## The threads after an instruction -/

namespace Kernel

variable {p : Program} {k k' : Kernel} {t u : ThreadId} {i : Instruction}

/-- What an instruction does to the threads, before it is settled what became of its own: others are
woken if they waited for a monitor that it has freed. -/
structure Touched (t : ThreadId) (k k' : Kernel) : Prop where
  others : ∀ (u : ThreadId) th, u ≠ t → k.threads[u.index]? = some th →
    ∃ th', k'.threads[u.index]? = some th' ∧
      th.WokenIf (∃ r, th.status = .blocked r ∧ k.Frees t r k') th'
  own : ∀ th, k.threads[t.index]? = some th →
    ∃ th', k'.threads[t.index]? = some th' ∧ th'.id = th.id ∧ th'.object = th.object ∧
      (th.isAlive = true → th'.isAlive = true)

end Kernel

namespace Step

variable {p : Program} {t : ThreadId} {i : Instruction} {w w' : Work} {out : Outcome}

/-- A thread that runs an instruction does not end by it before that is settled. -/
theorem own_perform (hat : w.kernel.At t i) (h : perform p t i w = .ok out w') {th : Thread}
    (hth : w.kernel.threads[t.index]? = some th) :
    ∃ th', w'.kernel.threads[t.index]? = some th' ∧ th'.id = th.id ∧ th'.object = th.object ∧
      (th.isAlive = true → th'.isAlive = true) := by
  have hmoved : ∀ {k' : Kernel}, ReflTransGen (Kernel.Move p t) w.kernel k' →
      ∃ th', k'.threads[t.index]? = some th' ∧ th'.id = th.id ∧ th'.object = th.object ∧
        (th.isAlive = true → th'.isAlive = true) := by
    intro k' hmoves
    obtain ⟨th', hth', hadv⟩ := (Kernel.Advance.of_moves hmoves).old t th hth
    refine ⟨th', hth', hadv.id, hadv.object, fun halive => ?_⟩
    unfold Thread.isAlive Thread.isTerminated at halive ⊢
    rcases hadv.status with he | ⟨-, he⟩
    · rwa [he]
    · rw [he]
      rfl
  rcases perform_eq_ok hat h with hran | ⟨-, hpaused⟩
  · exact hmoved hran.moves
  · cases hpaused with
    | asked _ _ _ _ h => exact hmoved h.moves
    | @stalled w₁ s h stall status =>
      obtain ⟨th₁, hth₁, hid, hobject, -⟩ := hmoved h.moves
      have halive : s ≠ .terminated := by cases stall <;> simp
      refine ⟨{ th₁ with status := s }, ?_, hid, hobject, fun _ => ?_⟩
      · rw [status.kernel, Kernel.setStatus, Kernel.getElem?_modifyThread, if_pos rfl, hth₁]
        rfl
      · simpa [Thread.isAlive, Thread.isTerminated] using halive

theorem touched_perform (hat : w.kernel.At t i) (h : perform p t i w = .ok out w') :
    w.kernel.Touched t w'.kernel := by
  refine ⟨fun u th hu hth => ?_, fun th hth => own_perform hat h hth⟩
  rcases perform_others h with ⟨-, htakes⟩ | hgives
  · refine ⟨th, htakes.others u th hu hth, ?_, fun _ => rfl⟩
    -- what the thread held it still holds
    rintro ⟨r, -, hheld, hfree⟩
    have hle := htakes.held r
    omega
  · exact hgives.others u th hu hth

end Step

namespace Machine

variable {m m' : Machine} {t : ThreadId}

/-- It is settled what became of a thread: it goes on; or a call from outside has been left, and its
frames are dropped; or it has ended. -/
theorem kernel_settle (m : Machine) (t : ThreadId) (out : Outcome) :
    (∃ g : Thread → Thread, (∀ th, (g th).id = th.id ∧ (g th).object = th.object ∧
        (g th).status = th.status) ∧ (m.settle t out).2.kernel = m.kernel.modifyThread t g) ∨
      (m.settle t out).2.kernel = m.kernel.ended t := by
  cases out with
  | running =>
    exact .inl ⟨id, fun _ => ⟨rfl, rfl, rfl⟩, (Kernel.modifyThread_id _ t).symm⟩
  | finished => exact .inr rfl
  | escaped r =>
    unfold settle
    dsimp only
    split
    · rename_i host base _
      split
      · exact .inl ⟨(·.dropTo base), fun _ => ⟨rfl, rfl, rfl⟩, rfl⟩
      · exact .inr rfl
    · exact .inr rfl

end Machine

/-! ## Isolation -/

namespace Kernel

variable {p : Program} {k k₁ k' : Kernel} {t : ThreadId}

/-- A step of a thread has brought about what threads of a status wait for. -/
inductive Fulfils (t : ThreadId) (k k' : Kernel) : ThreadStatus → Prop where
  /-- The monitor has been given back for the last time. -/
  | freed {r : ObjRef} (h : k.Frees t r k') : Fulfils t k k' (.blocked r)
  /-- The thread has ended. -/
  | ended (h : ¬ k'.Lives t) : Fulfils t k k' (.joining t)

/-- A step of a thread concerns the other threads only in that it wakes those for which it has
brought about what they wait for. -/
structure Isolated (t : ThreadId) (k k' : Kernel) : Prop where
  others : ∀ (u : ThreadId) th, u ≠ t → k.threads[u.index]? = some th →
    ∃ th', k'.threads[u.index]? = some th' ∧ th.WokenIf (Fulfils t k k' th.status) th'
  /-- The thread itself stays the thread that it is. -/
  own : ∀ th, k.threads[t.index]? = some th →
    ∃ th', k'.threads[t.index]? = some th' ∧ th'.id = th.id ∧ th'.object = th.object

/-- Nothing but a free monitor has been brought about for those that do not wait for the end of the
thread, and as long as the thread lives for them too. -/
theorem fulfils_iff {s : ThreadStatus} (hheap : k'.heap = k₁.heap)
    (hlives : s = .joining t → k'.Lives t) :
    Fulfils t k k' s ↔ ∃ r, s = .blocked r ∧ k.Frees t r k₁ := by
  constructor
  · intro hfulfils
    cases hfulfils with
    | freed hfrees => exact ⟨_, rfl, hfrees.held, hheap ▸ hfrees.free⟩
    | ended hended => exact absurd (hlives rfl) hended
  · rintro ⟨r, rfl, hheld, hfree⟩
    exact .freed ⟨hheld, hheap ▸ hfree⟩

/-- The thread goes on. -/
theorem Touched.isolated (h : Touched t k k₁) (hlives : k.Lives t) {g : Thread → Thread}
    (hg : ∀ th, (g th).id = th.id ∧ (g th).object = th.object ∧ (g th).status = th.status) :
    Isolated t k (k₁.modifyThread t g) := by
  have hown : ∀ th, k.threads[t.index]? = some th → ∃ th',
      (k₁.modifyThread t g).threads[t.index]? = some th' ∧ th'.id = th.id ∧
        th'.object = th.object ∧ (th.isAlive = true → th'.isAlive = true) := by
    intro th hth
    obtain ⟨th₁, hth₁, hid, hobject, halive⟩ := h.own th hth
    obtain ⟨hid', hobject', hstatus⟩ := hg th₁
    refine ⟨g th₁, ?_, hid'.trans hid, hobject'.trans hobject, ?_⟩
    · rw [getElem?_modifyThread, if_pos rfl, hth₁]
      rfl
    · unfold Thread.isAlive Thread.isTerminated at halive ⊢
      rwa [hstatus]
  have hlives' : (k₁.modifyThread t g).Lives t := by
    obtain ⟨th, hth, hbefore⟩ := hlives
    obtain ⟨th', hth', -, -, halive⟩ := hown th hth
    exact ⟨th', hth', halive hbefore⟩
  refine ⟨fun u th hu hth => ?_, fun th hth => ?_⟩
  · obtain ⟨th', hth', hwoken⟩ := h.others u th hu hth
    refine ⟨th', by rw [getElem?_modifyThread, if_neg (Ne.symm hu), hth'], ?_⟩
    exact hwoken.congr (fulfils_iff rfl fun _ => hlives')
  · obtain ⟨th', hth', hid, hobject, -⟩ := hown th hth
    exact ⟨th', hth', hid, hobject⟩

theorem getElem?_ended_self (k : Kernel) (t : ThreadId) :
    (k.ended t).threads[t.index]? = (k.threads[t.index]?).map Thread.terminate := by
  simp only [getElem?_ended, if_true]

theorem getElem?_ended_of_ne {u : ThreadId} (k : Kernel) (hu : u ≠ t) :
    (k.ended t).threads[u.index]? = (k.threads[u.index]?).map fun th =>
      if th.status = .joining t then { th with status := .runnable } else th := by
  simp only [getElem?_ended, if_neg (Ne.symm hu)]

/-- The thread has ended. -/
theorem Touched.isolated_ended (h : Touched t k k₁) : Isolated t k (k₁.ended t) := by
  have hended : ¬ (k₁.ended t).Lives t := by
    rintro ⟨th, hth, halive⟩
    rw [getElem?_ended_self] at hth
    obtain ⟨th₁, -, rfl⟩ := Option.map_eq_some_iff.mp hth
    simp [Thread.isAlive, Thread.isTerminated, Thread.terminate] at halive
  refine ⟨fun u th hu hth => ?_, fun th hth => ?_⟩
  · obtain ⟨th₁, hth₁, hwoken⟩ := h.others u th hu hth
    refine ⟨if th₁.status = .joining t then { th₁ with status := .runnable } else th₁, ?_, ?_⟩
    · rw [getElem?_ended_of_ne k₁ hu, hth₁]
      rfl
    -- a thread waits for one thing, so who waits for the end has not been woken for a monitor
    by_cases hjoining : th.status = .joining t
    · have hsame : th₁ = th := by
        refine hwoken.left ?_
        rintro ⟨r, hr, -⟩
        rw [hjoining] at hr
        cases hr
      rw [hsame, if_pos hjoining]
      refine ⟨fun _ => rfl, fun hnone => absurd ?_ hnone⟩
      rw [hjoining]
      exact .ended hended
    · have hstatus : th₁.status ≠ .joining t := by
        by_cases hwhy : ∃ r, th.status = .blocked r ∧ k.Frees t r k₁
        · simp [hwoken.woken hwhy]
        · rwa [hwoken.left hwhy]
      rw [if_neg hstatus]
      exact hwoken.congr (fulfils_iff rfl fun he => absurd he hjoining)
  · obtain ⟨th₁, hth₁, hid, hobject, -⟩ := h.own th hth
    refine ⟨th₁.terminate, ?_, hid, hobject⟩
    rw [getElem?_ended_self, hth₁]
    rfl

theorem size_ended (k : Kernel) (t : ThreadId) : (k.ended t).threads.size = k.threads.size := by
  simp [ended, wakeJoiners, wake, modifyThread]

/-- A state that turns of threads lead to from the start of a program. Transitions go through such
states. -/
inductive Reachable (p : Program) : Kernel → Prop where
  | start {k : Kernel} (h : Started p k) : Reachable p k
  | turn {k k' : Kernel} (reachable : Reachable p k) (h : Turn p k k') : Reachable p k'

theorem Reachable.tidy (h : Reachable p k) : k.Tidy := by
  induction h with
  | start h => exact .start h
  | turn _ h ih => exact ih.turn h

/-- A thread that stands in front of an instruction has not ended. -/
theorem Tidy.lives_of_at {i : Instruction} (h : k.Tidy) (hat : k.At t i) : k.Lives t := by
  obtain ⟨f, hf, -⟩ := hat
  obtain ⟨th, fs, hth, hframes⟩ := topFrame_eq_ok.mp hf
  refine ⟨th, hth, ?_⟩
  by_contra hended
  rw [h t th hth (by simpa using hended)] at hframes
  cases hframes

end Kernel

namespace Machine

variable {p : Program} {config : Config} {m m' : Machine} {t : ThreadId}

/-- The states between transitions are reachable. -/
theorem Driven.reachable (h : Driven p config m) : m.kernel.Reachable p :=
  h.kernel_induction (fun _ => .start) fun _ _ hk hturn => hk.turn hturn

theorem Succession.reachable {k k' : Kernel} {xs : List Performed} (h : Succession p k xs k')
    (hreach : k.Reachable p) : ∀ x ∈ xs, x.before.Reachable p := by
  induction h with
  | nil => simp
  | @cons x xs n k k' before program runs leads _ ih =>
    subst before
    have hturn : Kernel.Turn p x.before x.after := by
      rw [← leads.kernel, ← program]
      exact leads.turn runs
    exact List.forall_mem_cons.mpr ⟨hreach, ih (hreach.turn hturn)⟩

/-- So are the states in the middle of transitions, in front of each instruction. -/
theorem Recorded.reachable {xs : List Performed} (h : Recorded p config xs m) :
    ∀ x ∈ xs, x.before.Reachable p := by
  obtain ⟨k, hstarted, hsuccession⟩ := h.succession
  exact hsuccession.reachable (.start hstarted)

/-- **Threads are isolated.** In a state that is reachable, a step of a thread concerns other
threads only in that it wakes those that wait for a monitor that it has given back for the last
time, or for the end of the thread if it has ended it. Their scratch data stays the same. Nobody
goes away, and at most one thread comes behind those that are there, started by the instruction for
this. -/
theorem step_isolated {escaped : Bool} (hreach : m.kernel.Reachable m.program)
    (h : step t m = .ok escaped m') :
    m.kernel.Isolated t m'.kernel ∧ (∀ u ≠ t, m'.scratchOf u = m.scratchOf u) ∧
      (m'.kernel.threads.size = m.kernel.threads.size ∨
        m'.kernel.threads.size = m.kernel.threads.size + 1 ∧
          ∃ i, m.kernel.At t i ∧ i.op = .threadStart) := by
  obtain ⟨i, out, w', n, hat, hperform, ⟨-, -, -, hkernel, -, -⟩, -, hsame⟩ := step_eq_ok h
  have hlives : m.kernel.Lives t := hreach.tidy.lives_of_at hat
  have htouched : m.kernel.Touched t w'.kernel := Step.touched_perform hat hperform
  refine ⟨?_, fun u hu => scratchOf_step hu h, ?_⟩
  · rw [hsame.kernel]
    rcases kernel_settle n t out with ⟨g, hg, hsettled⟩ | hsettled
    · rw [hsettled, hkernel]
      exact htouched.isolated hlives hg
    · rw [hsettled, hkernel]
      exact htouched.isolated_ended
  · have hsize : m'.kernel.threads.size = w'.kernel.threads.size := by
      rw [hsame.kernel, ← hkernel]
      rcases kernel_settle n t out with ⟨g, -, hsettled⟩ | hsettled
      · rw [hsettled, Kernel.size_modifyThread]
      · rw [hsettled, Kernel.size_ended]
    rw [hsize]
    rcases Step.size_perform hperform with hsame | ⟨hop, -, hmore⟩
    · exact .inl hsame
    · exact .inr ⟨hmore, i, hat, hop⟩

/-- A worker of the counter runs its last instruction, and the main thread, which waits for the end
of the worker, is woken: it is the main thread that it was, but can run. -/
theorem step_isolated_syncCounter : ∃ p m th escaped m',
    Demo.syncCounter.run (Program.base .plain) = .ok ((), p) ∧ Driven p {} m ∧
      m.kernel.threads[0]? = some th ∧ th.status = .joining ⟨1⟩ ∧
      step ⟨1⟩ m = .ok escaped m' ∧ ¬ m'.kernel.Lives ⟨1⟩ ∧
      m'.kernel.threads[0]? = some { th with status := .runnable } := by
  obtain ⟨p, m, hbuild, hdriven, htest⟩ := Driven.exists_of_demo Demo.syncCounter
    [0, 1, 0, 2, 0, 0, 1]
    (fun _ m => (m.kernel.threads[0]?.any fun th => th.status == .joining ⟨1⟩) &&
      gives (step ⟨1⟩) m fun _ m' => m'.kernel.threads[1]?.all Thread.isTerminated)
    (by decide +kernel)
  simp only [Bool.and_eq_true, Option.any_eq_true, beq_iff_eq, gives_iff] at htest
  obtain ⟨⟨th, hth, hjoining⟩, escaped, m', hstep, hended⟩ := htest
  have hdead : ¬ m'.kernel.Lives ⟨1⟩ := by
    rintro ⟨th', hth', halive⟩
    rw [hth', Option.all_some] at hended
    simp [Thread.isAlive, hended] at halive
  have hreach : m.kernel.Reachable m.program := hdriven.sameRun.1 ▸ hdriven.reachable
  obtain ⟨hisolated, -, -⟩ := step_isolated hreach hstep
  obtain ⟨th', hth', hwoken⟩ := hisolated.others ⟨0⟩ th (by decide) hth
  have hfulfils : Kernel.Fulfils ⟨1⟩ m.kernel m'.kernel th.status := by
    rw [hjoining]
    exact .ended hdead
  refine ⟨p, m, th, escaped, m', hbuild, hdriven, hth, hjoining, hstep, hdead, ?_⟩
  rw [← hwoken.woken hfulfils]
  exact hth'

end Machine

end Interleave

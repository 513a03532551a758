import Interleave.Proofs.Machine.Scratch

/-!
# Machines that run alike

What a round of a transition does depends on the kernel, the current thread and the data choice that
waits to be consumed, besides the program and how it is to be run, and on whether the next
instruction of the current thread is a first one. Two machines that agree on these go through the
round with the same outcome, whatever was queued or told to listeners before.

The trail and the scratch data but for that flag are carried along and never read. They are the part
of a machine that is compared or not, as the flag `full` of `Alike` says: machines that agree in full
stay so, and machines that agree on the state alone stay so too.
-/

namespace Interleave

namespace Machine

/-! ## Machines in the same state -/

/-- Two machines are in the same state and have the same decision open. If `full` holds, their
scratch data and their trails are the same as well. -/
structure Alike (full : Prop) (m n : Machine) : Prop where
  program : m.program = n.program
  config : m.config = n.config
  kernel : m.kernel = n.kernel
  hostCall : m.hostCall = n.hostCall
  current : m.path.current = n.path.current
  choice : m.path.choice = n.path.choice
  uncaught : m.path.uncaught = n.path.uncaught
  started : m.path.started = n.path.started
  pending : m.pending = n.pending
  scratch : full → m.scratch = n.scratch
  trail : full → m.path.trail = n.path.trail

namespace Alike

variable {full : Prop} {m n : Machine}

protected theorem refl (m : Machine) : Alike full m m where
  program := rfl
  config := rfl
  kernel := rfl
  hostCall := rfl
  current := rfl
  choice := rfl
  uncaught := rfl
  started := rfl
  pending := rfl
  scratch _ := rfl
  trail _ := rfl

protected theorem symm (h : Alike full m n) : Alike full n m where
  program := h.program.symm
  config := h.config.symm
  kernel := h.kernel.symm
  hostCall := h.hostCall.symm
  current := h.current.symm
  choice := h.choice.symm
  uncaught := h.uncaught.symm
  started := h.started.symm
  pending := h.pending.symm
  scratch hf := (h.scratch hf).symm
  trail hf := (h.trail hf).symm

protected theorem trans {o : Machine} (h : Alike full m n) (h' : Alike full n o) :
    Alike full m o where
  program := h.program.trans h'.program
  config := h.config.trans h'.config
  kernel := h.kernel.trans h'.kernel
  hostCall := h.hostCall.trans h'.hostCall
  current := h.current.trans h'.current
  choice := h.choice.trans h'.choice
  uncaught := h.uncaught.trans h'.uncaught
  started := h.started.trans h'.started
  pending := h.pending.trans h'.pending
  scratch hf := (h.scratch hf).trans (h'.scratch hf)
  trail hf := (h.trail hf).trans (h'.trail hf)

/-- In full agreement the paths are the same. -/
theorem path (h : Alike True m n) : m.path = n.path := by
  have hc := h.current
  have hd := h.choice
  have hu := h.uncaught
  have hs := h.started
  have ht := h.trail trivial
  cases hm : m.path
  cases hn : n.path
  simp_all

/-- In full agreement the snapshots are the same. -/
theorem snapshot (h : Alike True m n) : m.snapshot = n.snapshot := by
  simp only [Machine.snapshot, h.kernel, h.scratch trivial, h.path]

/-! ## What is told to listeners does not matter -/

theorem tell (h : Alike full m n) (a b : Notice) : Alike full (m.tell a) (n.tell b) := by
  unfold Machine.tell
  split <;> split <;> exact ⟨h.1, h.2, h.3, h.4, h.5, h.6, h.7, h.8, h.9, h.10, h.11⟩

theorem heard_left (m : Machine) (q : Array Event) (ns : Array Notice) :
    Alike full { m with queue := q, notices := ns } m :=
  ⟨rfl, rfl, rfl, rfl, rfl, rfl, rfl, rfl, rfl, fun _ => rfl, fun _ => rfl⟩

theorem deliver_left (m : Machine) : Alike full m.deliver m := by
  obtain ⟨ns, hns⟩ := exists_deliver m
  rw [hns]
  exact heard_left m #[] ns

theorem deliver (h : Alike full m n) : Alike full m.deliver n.deliver :=
  ((deliver_left m).trans h).trans (deliver_left n).symm

theorem tellExecuting_left (m : Machine) (t : ThreadId) (th : Thread) (f : Frame)
    (i : Instruction) : Alike full (m.tellExecuting t th f i) m := by
  obtain ⟨ns, hns⟩ := exists_tellExecuting m t th f i
  rw [hns]
  exact heard_left m m.queue ns

theorem tellExecuted_left (m : Machine) (t : ThreadId) (i : Instruction) :
    Alike full (m.tellExecuted t i) m := by
  obtain ⟨ns, hns⟩ := exists_tellExecuted m t i
  rw [hns]
  exact heard_left m m.queue ns

/-! ## Changes made alike -/

theorem modifyScratch (h : Alike full m n) (t : ThreadId) (f : Scratch → Scratch) :
    Alike full (m.modifyScratch t f) (n.modifyScratch t f) where
  program := h.program
  config := h.config
  kernel := h.kernel
  hostCall := h.hostCall
  current := h.current
  choice := h.choice
  uncaught := h.uncaught
  started := h.started
  pending := h.pending
  scratch hf := by simp only [Machine.modifyScratch, h.scratch hf]
  trail := h.trail

theorem register (h : Alike full m n) (g : Generator) :
    Alike full (m.register g) (n.register g) := by
  unfold Machine.register
  refine tell ?_ _ _
  exact ⟨h.1, h.2, h.3, h.4, h.5, h.6, h.7, h.8, rfl, h.10, h.11⟩

theorem absorb (h : Alike full m n) (t : ThreadId) (w : Work) :
    Alike full (m.absorb t w) (n.absorb t w) := by
  unfold Machine.absorb
  refine modifyScratch ?_ t _
  exact {
    program := h.program
    config := h.config
    kernel := rfl
    hostCall := h.hostCall
    current := h.current
    choice := rfl
    uncaught := h.uncaught
    started := h.started
    pending := rfl
    scratch := fun hf => by simp only [withKernel, h.scratch hf]
    trail := h.trail }

theorem endThread (h : Alike full m n) (t : ThreadId) :
    Alike full (m.endThread t) (n.endThread t) := by
  unfold Machine.endThread
  refine modifyScratch ?_ t _
  exact ⟨h.1, h.2, by rw [h.kernel], h.4, h.5, h.6, h.7, h.8, h.9, h.10, h.11⟩

theorem updateNext (h : Alike full m n) (t : ThreadId) :
    Alike full (m.updateNext t) (n.updateNext t) := by
  unfold Machine.updateNext
  rw [h.kernel]
  exact h.modifyScratch t _

/-- What becomes of a thread is settled alike. -/
theorem settle (h : Alike full m n) (t : ThreadId) (out : Outcome) :
    (m.settle t out).1 = (n.settle t out).1 ∧ Alike full (m.settle t out).2 (n.settle t out).2 := by
  have hescape : ∀ r, (Machine.settle.escape m t r).1 = (Machine.settle.escape n t r).1 ∧
      Alike full (Machine.settle.escape m t r).2 (Machine.settle.escape n t r).2 := by
    intro r
    have he := h.endThread t
    exact ⟨rfl, he.1, he.2, he.3, he.4, he.5, he.6, rfl, he.8, he.9, he.10, he.11⟩
  cases out with
  | running => exact ⟨rfl, h⟩
  | finished => exact ⟨rfl, h.endThread t⟩
  | escaped r =>
    simp only [Machine.settle, h.hostCall]
    cases n.hostCall with
    | none => exact hescape r
    | some call =>
      obtain ⟨host, base⟩ := call
      by_cases ht : host = t
      · simp only [ht, if_true]
        exact ⟨trivial, h.1, h.2, by rw [h.kernel], rfl, h.5, h.6, h.7, h.8, h.9, h.10, h.11⟩
      · simp only [ht, if_false]
        exact hescape r

end Alike

/-! ## The operations of a transition -/

open Effect (Agree)

variable {full : Prop} {m n : Machine}

theorem lift_agree {α : Type} (h : Alike full m n) (e : Except Fault α) :
    Agree (Alike full) (Action.lift e m) (Action.lift e n) := by
  cases e with
  | ok a => exact .ok h
  | error e => exact .error h

theorem thread_agree (h : Alike full m n) (t : ThreadId) :
    Agree (Alike full) (Action.thread t m) (Action.thread t n) := by
  show Agree (Alike full) (Action.lift (m.kernel.thread t) m) (Action.lift (n.kernel.thread t) n)
  rw [h.kernel]
  exact lift_agree h _

/-- A step on behalf of a thread without transient data has the same outcome. -/
theorem actionStep_agree {α : Type} (h : Alike full m n) (t : ThreadId) (a : Step α)
    (hm : (m.scratchOf t).transient = {}) (hn : (n.scratchOf t).transient = {}) :
    Agree (Alike full) (Action.step t a m) (Action.step t a n) := by
  have hk : ∀ k : Kernel, Alike full { m with kernel := k } { n with kernel := k } := fun k =>
    ⟨h.1, h.2, rfl, h.4, h.5, h.6, h.7, h.8, h.9, h.10, h.11⟩
  unfold Action.step
  simp only [hm, hn, h.kernel, h.choice, h.pending]
  split
  · exact .ok ((hk {}).absorb t _)
  · exact .error ((hk {}).absorb t _)

/-- Transient data that is cleared is gone. -/
theorem transient_modifyScratch (m : Machine) (t : ThreadId) (first : Bool) :
    ((m.modifyScratch t fun s => { s with transient := {}, firstStep := first }).scratchOf t).transient
      = {} := by
  rw [scratchOf_modifyScratch]

/-- One instruction of a thread has the same outcome. -/
theorem step_agree (h : Alike full m n) (t : ThreadId) :
    Agree (Alike full) (step t m) (step t n) := by
  unfold step
  refine (thread_agree h t).bind fun th m₁ n₁ h₁ => ?_
  -- the scratch data of the thread is cleared before the instruction is looked up
  set m₂ := m₁.modifyScratch t fun s => { s with transient := {}, firstStep := false }
  set n₂ := n₁.modifyScratch t fun s => { s with transient := {}, firstStep := false }
  have h₂ : Alike full m₂ n₂ := h₁.modifyScratch t _
  have hm₂ : (m₂.scratchOf t).transient = {} := transient_modifyScratch m₁ t false
  have hn₂ : (n₂.scratchOf t).transient = {} := transient_modifyScratch n₁ t false
  show Agree (Alike full) ((Action.lift th.top >>= _) m₂) ((Action.lift th.top >>= _) n₂)
  cases htop : th.top with
  | error e => exact .error h₂
  | ok f =>
    cases hi : f.instruction with
    | error e =>
      show Agree (Alike full) ((Action.lift f.instruction >>= _) m₂)
        ((Action.lift f.instruction >>= _) n₂)
      rw [hi]
      exact .error h₂
    | ok i =>
      show Agree (Alike full) ((Action.lift f.instruction >>= _) m₂)
        ((Action.lift f.instruction >>= _) n₂)
      rw [hi]
      set m₃ := m₂.tellExecuting t th f i
      set n₃ := n₂.tellExecuting t th f i
      have h₃ : Alike full m₃ n₃ :=
        ((Alike.tellExecuting_left m₂ t th f i).trans h₂).trans
          (Alike.tellExecuting_left n₂ t th f i).symm
      have hm₃ : (m₃.scratchOf t).transient = {} := by
        simpa only [scratchOf, m₃, scratch_tellExecuting] using hm₂
      have hn₃ : (n₃.scratchOf t).transient = {} := by
        simpa only [scratchOf, n₃, scratch_tellExecuting] using hn₂
      show Agree (Alike full) ((Action.step t (Step.perform m₃.program t i) >>= _) m₃)
        ((Action.step t (Step.perform n₃.program t i) >>= _) n₃)
      rw [h₃.program]
      refine (actionStep_agree h₃ t _ hm₃ hn₃).bind fun out m₄ n₄ h₄ => ?_
      obtain ⟨he, hs⟩ := h₄.settle t out
      show Agree (Alike full) (.ok (m₄.settle t out).1 _) (.ok (n₄.settle t out).1 _)
      rw [he]
      have h₅ := (hs.updateNext t).deliver
      exact .ok (((Alike.tellExecuted_left _ t i).trans h₅).trans
        (Alike.tellExecuted_left _ t i).symm)

/-- The thread to go on with is picked alike. -/
theorem reschedule_agree (h : Alike full m n) :
    Agree (Alike full) (reschedule m) (reschedule n) := by
  unfold reschedule
  rw [Effect.get_bind, Effect.get_bind, h.kernel]
  cases n.kernel.runnable with
  | nil => exact .ok h
  | cons t ts =>
    cases ts with
    | nil =>
      refine .ok (Alike.modifyScratch ?_ t _)
      exact ⟨h.1, h.2, rfl, h.4, rfl, h.6, h.7, h.8, h.9, h.10, h.11⟩
    | cons u us =>
      show Agree (Alike full) ((Action.thread m.path.current >>= _) m)
        ((Action.thread n.path.current >>= _) n)
      rw [h.current]
      refine (thread_agree h n.path.current).bind fun th m₁ n₁ _ => ?_
      exact .ok (h.register _)

/-- The decision to stop before an instruction is the same. -/
theorem Alike.breakBefore_eq (h : Alike full m n) (steps : Nat) (f : Frame) (i : Instruction) :
    m.breakBefore steps f i = n.breakBefore steps f i := by
  unfold breakBefore Machine.current
  rw [h.config, h.program, h.kernel, h.current]

/-- One instruction of the current thread has the same outcome for the transition. -/
theorem advance_agree (h : Alike full m n) (steps : Nat) :
    Agree (Alike full) (advance steps m) (advance steps n) := by
  unfold advance
  show Agree (Alike full) ((step m.path.current >>= _) m) ((step n.path.current >>= _) n)
  rw [h.current]
  refine (step_agree h n.path.current).bind fun escaped m₁ n₁ h₁ => ?_
  cases escaped with
  | true =>
    show Agree (Alike full) ((if !m₁.kernel.runnable.isEmpty then _ else _ : Action _) m₁)
      ((if !n₁.kernel.runnable.isEmpty then _ else _ : Action _) n₁)
    rw [h₁.kernel]
    split
    · exact .ok (h₁.register _)
    · exact .ok h₁
  | false =>
    show Agree (Alike full) ((if m₁.pending.isSome then _ else _ : Action _) m₁)
      ((if n₁.pending.isSome then _ else _ : Action _) n₁)
    rw [h₁.pending]
    split
    · exact .ok h₁
    · exact .ok h₁

/-- One round of a transition has the same outcome, if the flags of the thread that runs agree. -/
theorem round_agree (steps : Nat) (h : Alike full m n) (hfresh : m.isFresh = n.isFresh) :
    Agree (Alike full) (round steps m) (round steps n) := by
  unfold round
  show Agree (Alike full) ((Action.thread m.path.current >>= _) m)
    ((Action.thread n.path.current >>= _) n)
  rw [h.current, hfresh]
  refine (thread_agree h n.path.current).bind fun th m₁ n₁ h₁ => ?_
  split
  · refine (reschedule_agree h₁).bind fun stop m₂ n₂ h₂ => ?_
    cases stop with
    | none => exact .ok h₂
    | some e => exact .ok h₂
  · split
    · exact advance_agree h₁ steps
    · refine (lift_agree h₁ th.top).bind fun f m₂ n₂ h₂ => ?_
      refine (lift_agree h₂ f.instruction).bind fun i m₃ n₃ h₃ => ?_
      rw [h.breakBefore_eq]
      cases n.breakBefore steps f i with
      | some g => exact .ok (h.register g)
      | none => exact advance_agree h₃ steps

/-- The machine with a choice of a generator taken. -/
def withChoice (m : Machine) (g : Generator) (c : Choice) : Machine :=
  { m with pending := none, path := takeChoice m.path g c }

/-- The machine in which a transition begins to run, with a choice of the generator taken. -/
def begin (m : Machine) (g : Generator) (c : Choice) : Machine :=
  (m.withChoice g c).modifyScratch (m.withChoice g c).current fun s => { s with firstStep := true }

/-- A transition takes a choice and goes on in rounds. -/
theorem transition_eq (g : Generator) (m : Machine) :
    transition g m =
      if !m.path.started then .error .notStarted m
      else match g.current with
        | none => .error (.noChoiceSelected g.id) m
        | some c =>
          match m.kernel.thread (m.withChoice g c).current with
          | .error e => .error e (m.withChoice g c)
          | .ok _ => Loop.run round .budgetExhausted m.roundBound 0 (m.begin g c) := by
  unfold transition
  rw [Effect.get_bind]
  by_cases hs : m.path.started
  · simp only [hs, Bool.not_true, Bool.false_eq_true, if_false]
    cases hc : g.current with
    | none => rfl
    | some c =>
      show (Action.lift (m.kernel.thread (m.withChoice g c).current) >>= _) (m.withChoice g c) =
        match m.kernel.thread (m.withChoice g c).current with
        | .error e => .error e (m.withChoice g c)
        | .ok _ => Loop.run round .budgetExhausted m.roundBound 0 (m.begin g c)
      cases m.kernel.thread (m.withChoice g c).current with
      | error e => rfl
      | ok th => rfl
  · simp only [hs]
    rfl

/-- A transition that succeeds. -/
theorem transition_eq_ok {g : Generator} {m m' : Machine} {e : TransitionEnd} :
    transition g m = .ok e m' ↔
      m.path.started = true ∧ ∃ c th, g.current = some c ∧
        m.kernel.thread (m.withChoice g c).current = .ok th ∧
        Loop.run round .budgetExhausted m.roundBound 0 (m.begin g c) = .ok e m' := by
  rw [transition_eq]
  by_cases hs : m.path.started
  · simp only [hs, Bool.not_true, Bool.false_eq_true, if_false, true_and]
    cases hc : g.current with
    | none => simp
    | some c =>
      cases hth : m.kernel.thread (m.withChoice g c).current with
      | error e => simp [hth]
      | ok th => simp [hth]
  · simp [hs]

/-- Machines that agree on everything that a transition reads have taken the same choice. What was
pending, and which exception escaped before, is forgotten. -/
theorem Alike.withChoice {m n : Machine} (g : Generator) (c : Choice)
    (h : Alike full { m with pending := none, path := { m.path with uncaught := none } }
      { n with pending := none, path := { n.path with uncaught := none } }) :
    Alike full (m.withChoice g c) (n.withChoice g c) := by
  have htrail : ∀ hf : full, (takeChoice m.path g c).trail = (takeChoice n.path g c).trail := by
    intro hf
    have ht : m.path.trail = n.path.trail := h.trail hf
    cases c <;> simp only [takeChoice, ht]
  cases c with
  | thread t => exact ⟨h.1, h.2, h.3, h.4, rfl, h.6, rfl, h.8, rfl, h.10, htrail⟩
  | _ => exact ⟨h.1, h.2, h.3, h.4, h.5, rfl, rfl, h.8, rfl, h.10, htrail⟩

/-- Machines that agree on everything that a transition reads begin it alike. -/
theorem Alike.begin {m n : Machine} (g : Generator) (c : Choice)
    (h : Alike full { m with pending := none, path := { m.path with uncaught := none } }
      { n with pending := none, path := { n.path with uncaught := none } }) :
    Alike full (m.begin g c) (n.begin g c) := by
  have hchosen := h.withChoice g c
  unfold Machine.begin
  rw [show (m.withChoice g c).current = (n.withChoice g c).current from hchosen.current]
  exact hchosen.modifyScratch _ _

end Machine

end Interleave

import Interleave.Proofs.Machine.Alike
import Interleave.Proofs.Step.Perform

/-!
# What a transition does

A transition is a sequence of rounds, and a round runs an instruction of the current thread, or
switches to the only thread that can run, or stops. The lemmas here say this once for all; what is
kept by each of these is kept by transitions.

They are about machines without a call from outside in progress, where an exception that escapes
ends its thread.
-/

namespace Interleave

open Effect

/-- A thread has ended, and those that wait for its end can run. -/
def Kernel.ended (k : Kernel) (t : ThreadId) : Kernel :=
  (k.modifyThread t Thread.terminate).wakeJoiners t

/-- Threads after the end of one: those that wait for the end are woken. -/
theorem Kernel.getElem?_ended (k : Kernel) (t u : ThreadId) :
    (k.ended t).threads[u.index]? = (k.threads[u.index]?).map fun th =>
      if t = u then th.terminate
      else if th.status = .joining t then { th with status := .runnable } else th := by
  unfold ended wakeJoiners
  rw [getElem?_wake, getElem?_modifyThread]
  by_cases hu : t = u
  · simp only [if_pos hu, Option.map_map]
    rfl
  · simp only [if_neg hu]

/-- A thread is there and can run. -/
def Kernel.Runs (k : Kernel) (t : ThreadId) : Prop :=
  ∃ th, k.threads[t.index]? = some th ∧ th.isRunnable = true

/-- The state after it is settled what became of a thread. -/
def Outcome.settled (k : Kernel) (t : ThreadId) : Outcome → Kernel
  | .running => k
  | .finished => k.ended t
  | .escaped _ => k.ended t

namespace Machine

/-- Two machines differ in nothing but scratch data and in what is told to listeners. -/
structure SameState (m m' : Machine) : Prop where
  program : m'.program = m.program
  config : m'.config = m.config
  kernel : m'.kernel = m.kernel
  hostCall : m'.hostCall = m.hostCall
  path : m'.path = m.path
  pending : m'.pending = m.pending

namespace SameState

variable {m n o : Machine}

protected theorem trans (h : SameState m n) (h' : SameState n o) : SameState m o where
  program := h'.program.trans h.program
  config := h'.config.trans h.config
  kernel := h'.kernel.trans h.kernel
  hostCall := h'.hostCall.trans h.hostCall
  path := h'.path.trans h.path
  pending := h'.pending.trans h.pending

theorem heard (m : Machine) (q : Array Event) (ns : Array Notice) :
    SameState m { m with queue := q, notices := ns } := ⟨rfl, rfl, rfl, rfl, rfl, rfl⟩

theorem tell (m : Machine) (a : Notice) : SameState m (m.tell a) := by
  obtain ⟨ns, hns⟩ := exists_tell m a
  rw [hns]
  exact heard m m.queue ns

theorem modifyScratch (m : Machine) (t : ThreadId) (f : Scratch → Scratch) :
    SameState m (m.modifyScratch t f) := ⟨rfl, rfl, rfl, rfl, rfl, rfl⟩

theorem deliver (m : Machine) : SameState m m.deliver := by
  obtain ⟨ns, hns⟩ := exists_deliver m
  rw [hns]
  exact heard m #[] ns

theorem tellExecuting (m : Machine) (t : ThreadId) (th : Thread) (f : Frame) (i : Instruction) :
    SameState m (m.tellExecuting t th f i) := by
  obtain ⟨ns, hns⟩ := exists_tellExecuting m t th f i
  rw [hns]
  exact heard m m.queue ns

theorem tellExecuted (m : Machine) (t : ThreadId) (i : Instruction) :
    SameState m (m.tellExecuted t i) := by
  obtain ⟨ns, hns⟩ := exists_tellExecuted m t i
  rw [hns]
  exact heard m m.queue ns

theorem updateNext (m : Machine) (t : ThreadId) : SameState m (m.updateNext t) :=
  modifyScratch m t _

/-- Behind an instruction only scratch data and listeners are concerned. -/
theorem concluded (m : Machine) (t : ThreadId) (i : Instruction) :
    SameState m (((m.updateNext t).deliver).tellExecuted t i) :=
  ((updateNext m t).trans (deliver _)).trans (tellExecuted _ t i)

theorem register (m : Machine) (g : Generator) :
    SameState { m with pending := some g } (m.register g) :=
  tell _ _

end SameState

/-! ## One instruction -/

/-- The path after an instruction: the choice may have been consumed, and an exception may have
escaped. -/
def pathAfter (path : Path) (choice : Option Choice) : Outcome → Path
  | .escaped r => { path with choice, uncaught := some r }
  | _ => { path with choice }

/-- What a machine hands over to an instruction. -/
def work (m : Machine) : Work :=
  { kernel := m.kernel, choice := m.path.choice, pending := m.pending }

/-- An instruction that was performed. -/
structure Performed where
  /-- The machine in front of it. -/
  machine : Machine
  /-- The thread that performed it. -/
  thread : ThreadId
  instruction : Instruction
  outcome : Outcome
  /-- What it has made of the state, before it was settled what became of the thread. -/
  work : Work

namespace Performed

/-- The state before the instruction. -/
def before (x : Performed) : Kernel := x.machine.kernel

/-- The state after it. -/
def after (x : Performed) : Kernel := x.outcome.settled x.work.kernel x.thread

theorem heap_after (x : Performed) : x.after.heap = x.work.kernel.heap := by
  unfold after
  cases x.outcome <;> rfl

theorem classObjects_after (x : Performed) :
    x.after.classObjects = x.work.kernel.classObjects := by
  unfold after
  cases x.outcome <;> rfl

/-- The thread stood in front of the instruction, and has run it. -/
structure LeadsTo (x : Performed) (m' : Machine) : Prop where
  stands : x.before.At x.thread x.instruction
  performed : Step.perform x.machine.program x.thread x.instruction x.machine.work =
    .ok x.outcome x.work
  kernel : m'.kernel = x.after
  path : m'.path = pathAfter x.machine.path x.work.choice x.outcome
  pending : m'.pending = x.work.pending
  program : m'.program = x.machine.program
  config : m'.config = x.machine.config
  hostCall : m'.hostCall = none

end Performed

/-- A machine has run one instruction of a thread. -/
structure Stepped (m : Machine) (t : ThreadId) (escaped : Bool) (m' : Machine) : Prop where
  /-- The instruction that the thread stood in front of was performed, and it was settled what
  became of the thread. -/
  performed : ∃ i w out w', m.kernel.At t i ∧ w.kernel = m.kernel ∧ w.choice = m.path.choice ∧
    w.pending = m.pending ∧ Step.perform m.program t i w = .ok out w' ∧
    m'.kernel = out.settled w'.kernel t ∧ m'.path = pathAfter m.path w'.choice out ∧
    m'.pending = w'.pending ∧ (escaped = true ↔ ∃ r, out = .escaped r)
  program : m'.program = m.program
  config : m'.config = m.config
  hostCall : m'.hostCall = none

/-- An instruction that is recorded has been run. -/
theorem Performed.LeadsTo.stepped {x : Performed} {m' : Machine} {escaped : Bool}
    (h : x.LeadsTo m') (hescaped : escaped = true ↔ ∃ r, x.outcome = .escaped r) :
    Stepped x.machine x.thread escaped m' where
  performed := ⟨x.instruction, x.machine.work, x.outcome, x.work, h.stands, rfl, rfl, rfl,
    h.performed, h.kernel, h.path, h.pending, hescaped⟩
  program := h.program
  config := h.config
  hostCall := h.hostCall

theorem Performed.LeadsTo.current_eq {x : Performed} {m' : Machine} (h : x.LeadsTo m') :
    m'.current = x.machine.current := by
  unfold current
  rw [h.path]
  cases x.outcome <;> rfl

/-- What became of a thread is settled when no call from outside is in progress. -/
theorem settle_eq (m : Machine) (hhost : m.hostCall = none) (t : ThreadId) (out : Outcome) :
    ((m.settle t out).1 = true ↔ ∃ r, out = .escaped r) ∧
      (m.settle t out).2.program = m.program ∧ (m.settle t out).2.config = m.config ∧
      (m.settle t out).2.hostCall = none ∧ (m.settle t out).2.pending = m.pending ∧
      (m.settle t out).2.kernel = out.settled m.kernel t ∧
      (m.settle t out).2.path = pathAfter m.path m.path.choice out := by
  cases out with
  | running => exact ⟨by simp [settle], rfl, rfl, hhost, rfl, rfl, rfl⟩
  | finished => exact ⟨by simp [settle], rfl, rfl, hhost, rfl, rfl, rfl⟩
  | escaped r =>
    simp only [settle, hhost, settle.escape]
    exact ⟨by simp, rfl, rfl, hhost, rfl, rfl, rfl⟩

namespace Action

variable {α : Type} {m m' : Machine} {t : ThreadId}

@[simp] theorem lift_eq_ok {e : Except Fault α} {a : α} :
    lift e m = .ok a m' ↔ e = .ok a ∧ m' = m := by
  cases e with
  | ok b => simp [lift, eq_comm]
  | error e => simp [lift]

@[simp] theorem thread_eq_ok {th : Thread} :
    thread t m = .ok th m' ↔ m.kernel.threads[t.index]? = some th ∧ m' = m := by
  show lift (m.kernel.thread t) m = .ok th m' ↔ _
  rw [lift_eq_ok, Kernel.thread_eq_ok]

theorem lift_bind_eq_ok {β : Type} {e : Except Fault α} {f : α → Action β} {b : β} :
    (lift e >>= f) m = .ok b m' ↔ ∃ a, e = .ok a ∧ f a m = .ok b m' := by
  cases e with
  | ok a =>
    show f a m = .ok b m' ↔ _
    simp
  | error e =>
    show (EStateM.Result.error e m : EStateM.Result Fault Machine β) = .ok b m' ↔ _
    simp

theorem lift_bind_eq_error {β : Type} {x : Except Fault α} {f : α → Action β} {e : Fault} :
    (lift x >>= f) m = .error e m' ↔
      (x = .error e ∧ m' = m) ∨ ∃ a, x = .ok a ∧ f a m = .error e m' := by
  cases x with
  | ok a =>
    show f a m = .error e m' ↔ _
    simp
  | error e' =>
    show (EStateM.Result.error e' m : EStateM.Result Fault Machine β) = .error e m' ↔ _
    simp [eq_comm]

theorem thread_bind_eq_ok {β : Type} {f : Thread → Action β} {b : β} :
    (thread t >>= f) m = .ok b m' ↔
      ∃ th, m.kernel.threads[t.index]? = some th ∧ f th m = .ok b m' := by
  show (lift (m.kernel.thread t) >>= f) m = .ok b m' ↔ _
  simp only [lift_bind_eq_ok, Kernel.thread_eq_ok]

theorem thread_bind_eq_error {β : Type} {f : Thread → Action β} {e : Fault} :
    (thread t >>= f) m = .error e m' ↔ (m.kernel.thread t = .error e ∧ m' = m) ∨
      ∃ th, m.kernel.threads[t.index]? = some th ∧ f th m = .error e m' := by
  show (lift (m.kernel.thread t) >>= f) m = .error e m' ↔ _
  simp only [lift_bind_eq_error, Kernel.thread_eq_ok]

theorem step_eq_error {a : Step α} {e : Fault} (h : step t a m = .error e m') :
    ∃ w', a { m.work with transient := (m.scratchOf t).transient } = .error e w' ∧
      m' = m.absorb t w' := by
  unfold step at h
  dsimp only at h
  split at h
  · cases h
  · rename_i e' w' ha
    cases h
    exact ⟨w', ha, rfl⟩

theorem step_eq_ok {a : Step α} {v : α} (h : step t a m = .ok v m') :
    ∃ w', a { m.work with transient := (m.scratchOf t).transient } = .ok v w' ∧
      m'.program = m.program ∧ m'.config = m.config ∧ m'.hostCall = m.hostCall ∧
      m'.kernel = w'.kernel ∧ m'.path = { m.path with choice := w'.choice } ∧
      m'.pending = w'.pending := by
  unfold step at h
  dsimp only at h
  split at h
  · rename_i v' w' ha
    cases h
    exact ⟨w', ha, rfl, rfl, rfl, rfl, rfl, rfl⟩
  · cases h

end Action

/-- The machine when listeners have been told that an instruction is about to run. -/
def told (m : Machine) (t : ThreadId) (th : Thread) (f : Frame) (i : Instruction) : Machine :=
  (m.modifyScratch t fun s => { s with transient := {}, firstStep := false }).tellExecuting t th f i

/-- Before an instruction only scratch data and listeners are concerned. -/
theorem SameState.told (m : Machine) (t : ThreadId) (th : Thread) (f : Frame) (i : Instruction) :
    SameState m (m.told t th f i) :=
  (SameState.modifyScratch m t _).trans (SameState.tellExecuting _ t th f i)

/-- What is handed over to an instruction does not depend on scratch data. -/
theorem work_told (m : Machine) (t : ThreadId) (th : Thread) (f : Frame) (i : Instruction) :
    { (m.told t th f i).work with transient := ((m.told t th f i).scratchOf t).transient } =
      m.work := by
  have hcleared : ((m.told t th f i).scratchOf t).transient = {} := by
    have htransient := transient_modifyScratch m t false
    simpa only [scratchOf, Machine.told, scratch_tellExecuting] using htransient
  have hsame := SameState.told m t th f i
  rw [hcleared]
  unfold work
  rw [hsame.kernel, hsame.path, hsame.pending]

/-- The machine when an instruction has worked on it. -/
def worked (m : Machine) (t : ThreadId) (th : Thread) (f : Frame) (i : Instruction) (w : Work) :
    Machine :=
  (m.told t th f i).absorb t w

/-- To run an instruction is to perform it, and then to settle what became of the thread. -/
theorem step_eq_ok_iff {m m' : Machine} {t : ThreadId} {escaped : Bool} :
    step t m = .ok escaped m' ↔ ∃ th f i out w', m.kernel.threads[t.index]? = some th ∧
      th.top = .ok f ∧ f.instruction = .ok i ∧ Step.perform m.program t i m.work = .ok out w' ∧
      escaped = ((m.worked t th f i w').settle t out).1 ∧
      m' = ((((m.worked t th f i w').settle t out).2.updateNext t).deliver).tellExecuted t i := by
  have hperform : ∀ th f i, Action.step t (Step.perform (m.told t th f i).program t i)
        (m.told t th f i) = match Step.perform m.program t i m.work with
      | .ok out w' => .ok out (m.worked t th f i w')
      | .error e w' => .error e (m.worked t th f i w') := by
    intro th f i
    have hwork := work_told m t th f i
    unfold Action.step
    unfold work at hwork ⊢
    dsimp only at hwork ⊢
    rw [hwork, ← (SameState.told m t th f i).program]
    cases Step.perform (m.told t th f i).program t i _ <;> rfl
  unfold step
  rw [Action.thread_bind_eq_ok]
  simp only [modify_bind, get_bind, Action.lift_bind_eq_ok]
  constructor
  · rintro ⟨th, hth, f, hf, i, hi, h⟩
    change (Action.step t (Step.perform (m.told t th f i).program t i) >>= _) (m.told t th f i) = _
      at h
    obtain ⟨out, n, hstep, h⟩ := bind_eq_ok.mp h
    simp only [get_bind, set_bind, pure_eq_ok] at h
    obtain ⟨rfl, rfl⟩ := h
    rw [hperform] at hstep
    split at hstep
    · rename_i w' hw'
      cases hstep
      exact ⟨th, f, i, out, w', hth, hf, hi, hw', rfl, rfl⟩
    · cases hstep
  · rintro ⟨th, f, i, out, w', hth, hf, hi, hw', rfl, rfl⟩
    refine ⟨th, hth, f, hf, i, hi, bind_eq_ok.mpr ⟨out, m.worked t th f i w', ?_, rfl⟩⟩
    refine (hperform th f i).trans ?_
    rw [hw']

/-- An instruction that can be performed is performed. -/
theorem exists_step {m : Machine} {t : ThreadId} {i : Instruction} {out : Outcome} {w' : Work}
    (hat : m.kernel.At t i) (hperform : Step.perform m.program t i m.work = .ok out w') :
    ∃ escaped m', step t m = .ok escaped m' := by
  obtain ⟨f, hf, hi⟩ := hat
  obtain ⟨th, fs, hth, -⟩ := Kernel.topFrame_eq_ok.mp hf
  unfold Kernel.topFrame at hf
  rw [Kernel.thread_eq_ok.mpr hth] at hf
  exact ⟨_, _, step_eq_ok_iff.mpr ⟨th, f, i, out, w', hth, hf, hi, hperform, rfl, rfl⟩⟩

/-- An instruction that succeeds has been performed, and then it was settled what became of the
thread. -/
theorem step_eq_ok {m m' : Machine} {t : ThreadId} {escaped : Bool}
    (h : step t m = .ok escaped m') :
    ∃ (i : Instruction) (out : Outcome) (w' : Work) (n : Machine), m.kernel.At t i ∧
      Step.perform m.program t i m.work = .ok out w' ∧
      (n.program = m.program ∧ n.config = m.config ∧ n.hostCall = m.hostCall ∧
        n.kernel = w'.kernel ∧ n.path = { m.path with choice := w'.choice } ∧
        n.pending = w'.pending) ∧
      escaped = (n.settle t out).1 ∧ SameState (n.settle t out).2 m' := by
  obtain ⟨th, f, i, out, w', hth, hf, hi, hperform, rfl, rfl⟩ := step_eq_ok_iff.mp h
  have hbefore : SameState m (m.told t th f i) := SameState.told m t th f i
  have hat : m.kernel.At t i := by
    refine ⟨f, ?_, hi⟩
    unfold Kernel.topFrame
    rw [Kernel.thread_eq_ok.mpr hth]
    exact hf
  refine ⟨i, out, w', m.worked t th f i w', hat, hperform, ⟨hbefore.program, hbefore.config,
    hbefore.hostCall, rfl, ?_, rfl⟩, rfl, ?_⟩
  · show { (m.told t th f i).path with choice := w'.choice } = _
    rw [hbefore.path]
  · exact SameState.concluded _ t i

/-- The same when no call from outside is in progress: the instruction is recorded with what it has
made of the state. -/
theorem step_performs {m m' : Machine} {t : ThreadId} {escaped : Bool} (hhost : m.hostCall = none)
    (h : step t m = .ok escaped m') : ∃ x : Performed, x.machine = m ∧ x.thread = t ∧ x.LeadsTo m' ∧
      (escaped = true ↔ ∃ r, x.outcome = .escaped r) := by
  obtain ⟨i, out, w', n, hat, hperform, ⟨hprogram, hconfig, hhostCall, hkernel, hpath, hpending⟩,
    rfl, hafter⟩ := step_eq_ok h
  obtain ⟨hescaped, hprogram', hconfig', hhost', hpending', hkernel', hpath'⟩ :=
    settle_eq n (hhostCall.trans hhost) t out
  refine ⟨⟨m, t, i, out, w'⟩, rfl, rfl, ⟨hat, hperform, ?_, ?_, ?_, ?_, ?_, ?_⟩, hescaped⟩
  · rw [hafter.kernel, hkernel', hkernel]
    rfl
  · rw [hafter.path, hpath', hpath]
    cases out <;> rfl
  · rw [hafter.pending, hpending', hpending]
  · rw [hafter.program, hprogram', hprogram]
  · rw [hafter.config, hconfig', hconfig]
  · rw [hafter.hostCall, hhost']

/-- The reasons for which a thread cannot run an instruction. -/
inductive Stuck (m : Machine) (t : ThreadId) (e : Fault) : Prop where
  /-- It has no frame, or it is not there. -/
  | frame (h : m.kernel.topFrame t = .error e)
  /-- It does not stand in front of an instruction. -/
  | instruction {f : Frame} (top : m.kernel.topFrame t = .ok f) (h : f.instruction = .error e)
  /-- The instruction fails. -/
  | performed {i : Instruction} {w' : Work} (stands : m.kernel.At t i)
    (h : Step.perform m.program t i m.work = .error e w')

theorem step_eq_error {m m' : Machine} {t : ThreadId} {e : Fault} (h : step t m = .error e m') :
    Stuck m t e := by
  unfold step at h
  rw [Action.thread_bind_eq_error] at h
  rcases h with ⟨hth, -⟩ | ⟨th, hth, h⟩
  · refine .frame ?_
    unfold Kernel.topFrame
    rw [hth]
  · have htop : m.kernel.topFrame t = th.top := by
      unfold Kernel.topFrame
      rw [Kernel.thread_eq_ok.mpr hth]
    simp only [modify_bind, get_bind, Action.lift_bind_eq_error] at h
    rcases h with ⟨hf, -⟩ | ⟨f, hf, ⟨hi, -⟩ | ⟨i, hi, h⟩⟩
    · exact .frame (htop.trans hf)
    · exact .instruction (htop.trans hf) hi
    · change (Action.step t (Step.perform (m.told t th f i).program t i) >>= _)
        (m.told t th f i) = _ at h
      rcases bind_eq_error.mp h with hstep | ⟨out, m₁, -, hrest⟩
      · obtain ⟨w', hperform, -⟩ := Action.step_eq_error hstep
        rw [work_told, (SameState.told m t th f i).program] at hperform
        exact .performed ⟨f, htop.trans hf, hi⟩ hperform
      · cases hrest

/-! ## The flag of a first step -/

/-- A flag that is set for the current thread is read. -/
theorem isFresh_setFresh (m : Machine) :
    (m.modifyScratch m.current fun s => { s with firstStep := true }).isFresh = true := by
  show ((m.modifyScratch m.current _).scratchOf m.current).firstStep = true
  rw [scratchOf_modifyScratch]

theorem current_settle (m : Machine) (t : ThreadId) (out : Outcome) :
    (m.settle t out).2.current = m.current := by
  cases out with
  | running => rfl
  | finished => rfl
  | escaped r =>
    unfold settle
    dsimp only
    split
    · split <;> rfl
    · rfl

theorem firstStep_settle (m : Machine) (t : ThreadId) (out : Outcome) :
    ((m.settle t out).2.scratchOf t).firstStep = (m.scratchOf t).firstStep := by
  rcases scratchOf_settle m t out with he | he <;> rw [he]

/-- Once an instruction has worked on it, the flag of its thread has been taken back. -/
theorem firstStep_worked (m : Machine) (t : ThreadId) (th : Thread) (f : Frame) (i : Instruction)
    (w : Work) : ((m.worked t th f i w).scratchOf t).firstStep = false := by
  have hcleared : ((m.told t th f i).scratchOf t).firstStep = false := by
    unfold scratchOf told
    rw [scratch_tellExecuting]
    exact congrArg Scratch.firstStep (scratchOf_modifyScratch m t _)
  rw [worked, scratchOf_absorb]
  exact hcleared

/-- Of the scratch data of a thread only the point where it goes on changes behind an instruction. -/
theorem scratchOf_concluded (n : Machine) (t : ThreadId) (i : Instruction) : ∃ next,
    (((n.updateNext t).deliver).tellExecuted t i).scratchOf t = { n.scratchOf t with next } := by
  unfold scratchOf
  rw [scratch_tellExecuted, scratch_deliver]
  exact ⟨_, scratchOf_modifyScratch n t _⟩

/-- A step takes back the flag of its thread, which stays the current one if it was. -/
theorem firstStep_of_step {m m' : Machine} {t : ThreadId} {escaped : Bool}
    (h : step t m = .ok escaped m') :
    (m'.scratchOf t).firstStep = false ∧ m'.current = m.current := by
  obtain ⟨th, f, i, out, w', -, -, -, -, -, rfl⟩ := step_eq_ok_iff.mp h
  constructor
  · obtain ⟨next, hnext⟩ := scratchOf_concluded ((m.worked t th f i w').settle t out).2 t i
    have hworked := firstStep_worked m t th f i w'
    rw [hnext, ← hworked]
    exact firstStep_settle _ t out
  · have hworked : (m.worked t th f i w').current = m.current := by
      show (m.told t th f i).path.current = m.current
      rw [(SameState.told m t th f i).path]
      rfl
    unfold current at hworked ⊢
    rw [(SameState.concluded _ t i).path]
    exact (current_settle _ t out).trans hworked

theorem isFresh_of_step {m m' : Machine} {escaped : Bool} (h : step m.current m = .ok escaped m') :
    m'.isFresh = false := by
  obtain ⟨hcleared, hcurrent⟩ := firstStep_of_step h
  unfold isFresh
  rwa [hcurrent]

/-! ## One round -/

/-- A choice among threads is pending, and nothing else has changed. -/
def Offers (m m' : Machine) : Prop :=
  ∃ id, SameState { m with pending := some (m.kernel.threadChoice id) } m'

/-- Other threads have to be considered before the next instruction of the current thread, or the
transition has run for long enough. -/
def IsDue (m : Machine) (steps : Nat) : Prop :=
  ∃ f i g, m.kernel.topFrame m.current = .ok f ∧ f.instruction = .ok i ∧
    m.breakBefore steps f i = some g

/-- The current thread can run, and nothing has to be considered before this instruction of it. -/
structure Performed.Starts (x : Performed) (m : Machine) (steps : Nat) : Prop where
  machine : x.machine = m
  thread : x.thread = m.current
  runs : m.kernel.Runs m.current
  free : m.isFresh = true ∨ ¬ m.IsDue steps

/-- What a round of a transition does: it performs an instruction or rests, and goes on or stops. -/
inductive Played (m : Machine) (steps : Nat) :
    Option Performed → Nat ⊕ TransitionEnd → Machine → Prop where
  /-- No thread can run. -/
  | finished (there : ∃ th, m.kernel.threads[m.current.index]? = some th)
    (idle : m.kernel.runnable = []) :
    Played m steps none (.inr (if m.kernel.isDeadlocked then .deadlock else .endState)) m
  /-- The machine switches to the only thread that can run. -/
  | switched {t : ThreadId} {m' : Machine} (idle : ¬ m.kernel.Runs m.current)
    (only : m.kernel.runnable = [t])
    (same : SameState { m with path := { m.path with current := t } } m')
    (fresh : m'.isFresh = true) : Played m steps none (.inl steps) m'
  /-- The current thread cannot run, and others can. -/
  | blocked {m' : Machine} (idle : ¬ m.kernel.Runs m.current) (others : m.kernel.runnable ≠ [])
    (offers : m.Offers m') : Played m steps none (.inr .choicePoint) m'
  /-- Other threads have to be considered before the next instruction. -/
  | broken {m' : Machine} (runs : m.kernel.Runs m.current) (stale : m.isFresh = false)
    (due : m.IsDue steps) (offers : m.Offers m') :
    Played m steps none (.inr .choicePoint) m'
  /-- The current thread runs an instruction. -/
  | stepped {x : Performed} {m' : Machine} (starts : x.Starts m steps) (leads : x.LeadsTo m')
    (stays : ∀ r, x.outcome ≠ .escaped r) (settled : m'.pending = none)
    (stale : m'.isFresh = false) : Played m steps (some x) (.inl (steps + 1)) m'
  /-- The instruction leaves a generator behind. -/
  | asked {x : Performed} {m' : Machine} (starts : x.Starts m steps) (leads : x.LeadsTo m')
    (stays : ∀ r, x.outcome ≠ .escaped r) (opened : m'.pending.isSome = true) :
    Played m steps (some x) (.inr .choicePoint) m'
  /-- An exception ends the thread, and others can run if there are any. -/
  | escaped {x : Performed} {r : Uncaught} {m₁ m' : Machine} (starts : x.Starts m steps)
    (leads : x.LeadsTo m₁) (outcome : x.outcome = .escaped r)
    (opened : m₁.kernel.runnable = [] ∧ m' = m₁ ∨ m₁.kernel.runnable ≠ [] ∧ m₁.Offers m') :
    Played m steps (some x) (.inr .uncaughtException) m'

/-- A machine has gone through one round of a transition. -/
inductive Rounded (m : Machine) (steps : Nat) : Nat ⊕ TransitionEnd → Machine → Prop where
  /-- No thread can run. -/
  | finished (idle : m.kernel.runnable = []) :
    Rounded m steps (.inr (if m.kernel.isDeadlocked then .deadlock else .endState)) m
  /-- The machine has switched to the only thread that can run. -/
  | switched {t : ThreadId} {m' : Machine} (idle : ¬ m.kernel.Runs m.current)
    (only : m.kernel.runnable = [t])
    (same : SameState { m with path := { m.path with current := t } } m')
    (fresh : m'.isFresh = true) : Rounded m steps (.inl steps) m'
  /-- The current thread cannot run, and others can. -/
  | blocked {m' : Machine} (idle : ¬ m.kernel.Runs m.current) (offers : m.Offers m') :
    Rounded m steps (.inr .choicePoint) m'
  /-- Other threads have to be considered before the next instruction. -/
  | broken {m' : Machine} (stale : m.isFresh = false) (offers : m.Offers m') :
    Rounded m steps (.inr .choicePoint) m'
  /-- The current thread has run an instruction. -/
  | stepped {m' : Machine} (runs : m.kernel.Runs m.current) (h : m.Stepped m.current false m')
    (settled : m'.pending = none) (stale : m'.isFresh = false) :
    Rounded m steps (.inl (steps + 1)) m'
  /-- The instruction has left a generator behind. -/
  | asked {m' : Machine} (runs : m.kernel.Runs m.current) (h : m.Stepped m.current false m')
    (opened : m'.pending.isSome = true) : Rounded m steps (.inr .choicePoint) m'
  /-- An exception has ended the thread, and others can run if there are any. -/
  | escaped {m₁ m' : Machine} (runs : m.kernel.Runs m.current) (h : m.Stepped m.current true m₁)
    (opened : m' = m₁ ∨ m₁.Offers m') : Rounded m steps (.inr .uncaughtException) m'

/-- No thread can run, or the machine switches to the only one that can, or a choice is opened. -/
theorem reschedule_cases {m m' : Machine} {r : Option TransitionEnd}
    (h : reschedule m = .ok r m') :
    (m.kernel.runnable = [] ∧ r = some (if m.kernel.isDeadlocked then .deadlock else .endState) ∧
        m' = m) ∨
      (∃ t, m.kernel.runnable = [t] ∧ r = none ∧
        m' = { m with path := { m.path with current := t } }.modifyScratch t
          fun s => { s with firstStep := true }) ∨
      (m.kernel.runnable ≠ [] ∧ r = some .choicePoint ∧
        ∃ id, m' = m.register (m.kernel.threadChoice id)) := by
  unfold reschedule at h
  rw [get_bind] at h
  cases hr : m.kernel.runnable with
  | nil =>
    simp only [hr, pure_eq_ok] at h
    exact .inl ⟨rfl, h.1, h.2⟩
  | cons t ts =>
    cases ts with
    | nil =>
      simp only [hr, set_bind, pure_eq_ok] at h
      exact .inr (.inl ⟨t, rfl, h.1, h.2⟩)
    | cons u us =>
      simp only [hr, Action.thread_bind_eq_ok, set_bind, pure_eq_ok] at h
      obtain ⟨th, -, rfl, rfl⟩ := h
      exact .inr (.inr ⟨by simp, rfl, _, rfl⟩)

/-- The current thread has run an instruction. If an exception has ended it, a choice among the
others is opened. -/
theorem advance_cases {m m' : Machine} {steps : Nat} {r : Nat ⊕ TransitionEnd}
    (h : advance steps m = .ok r m') : ∃ escaped m₁, step m.current m = .ok escaped m₁ ∧
      (escaped = true ∧ r = .inr .uncaughtException ∧ (m₁.kernel.runnable = [] ∧ m' = m₁ ∨
          m₁.kernel.runnable ≠ [] ∧ m' = m₁.register (m₁.kernel.threadChoice "uncaught")) ∨
        escaped = false ∧ m' = m₁ ∧ (m₁.pending.isSome = true ∧ r = .inr .choicePoint ∨
          m₁.pending = none ∧ r = .inl (steps + 1))) := by
  unfold advance at h
  rw [get_bind, bind_eq_ok] at h
  obtain ⟨escaped, m₁, hstep, h⟩ := h
  refine ⟨escaped, m₁, hstep, ?_⟩
  rw [get_bind] at h
  cases escaped with
  | true =>
    simp only [if_true] at h
    split at h
    · rename_i hothers
      simp only [set_bind, pure_eq_ok] at h
      exact .inl ⟨rfl, h.1, .inr ⟨by simpa using hothers, h.2⟩⟩
    · rename_i hnone
      obtain ⟨hr, hm'⟩ := pure_eq_ok.mp h
      exact .inl ⟨rfl, hr, .inl ⟨by simpa using hnone, hm'⟩⟩
  | false =>
    simp only [Bool.false_eq_true, if_false] at h
    split at h
    · rename_i hopened
      obtain ⟨hr, hm'⟩ := pure_eq_ok.mp h
      exact .inr ⟨rfl, hm', .inl ⟨hopened, hr⟩⟩
    · rename_i hsettled
      obtain ⟨hr, hm'⟩ := pure_eq_ok.mp h
      exact .inr ⟨rfl, hm', .inr ⟨by simpa using hsettled, hr⟩⟩

/-- A round looks for another thread if the current one cannot run. Otherwise it opens a choice if
that is due, or goes on with an instruction. -/
theorem round_cases {m m' : Machine} {steps : Nat} {r : Nat ⊕ TransitionEnd}
    (h : round steps m = .ok r m') :
    (∃ th stop, m.kernel.threads[m.current.index]? = some th ∧ ¬ m.kernel.Runs m.current ∧
        reschedule m = .ok stop m' ∧ r = stop.elim (.inl steps) .inr) ∨
      (m.kernel.Runs m.current ∧ m.isFresh = false ∧ ∃ f i g, m.kernel.topFrame m.current = .ok f ∧
        f.instruction = .ok i ∧ m.breakBefore steps f i = some g ∧ r = .inr .choicePoint ∧
        m' = m.register g) ∨
      (m.kernel.Runs m.current ∧ (m.isFresh = true ∨ ¬ m.IsDue steps) ∧
        advance steps m = .ok r m') := by
  unfold round at h
  rw [get_bind, Action.thread_bind_eq_ok] at h
  obtain ⟨th, hth, h⟩ := h
  cases hrun : th.isRunnable with
  | false =>
    have hidle : ¬ m.kernel.Runs m.current := by
      rintro ⟨th', hth', hrun'⟩
      rw [hth] at hth'
      cases hth'
      rw [hrun] at hrun'
      cases hrun'
    simp only [hrun, Bool.not_false, if_true, bind_eq_ok] at h
    obtain ⟨stop, m₁, hreschedule, h⟩ := h
    refine .inl ⟨th, stop, hth, hidle, ?_⟩
    cases stop with
    | none =>
      obtain ⟨rfl, rfl⟩ := pure_eq_ok.mp h
      exact ⟨hreschedule, rfl⟩
    | some e =>
      obtain ⟨rfl, rfl⟩ := pure_eq_ok.mp h
      exact ⟨hreschedule, rfl⟩
  | true =>
    have hruns : m.kernel.Runs m.current := ⟨th, hth, hrun⟩
    simp only [hrun, Bool.not_true, Bool.false_eq_true, if_false] at h
    cases hfresh : m.isFresh with
    | true =>
      simp only [hfresh, if_true] at h
      exact .inr (.inr ⟨hruns, .inl rfl, h⟩)
    | false =>
      simp only [hfresh, Bool.false_eq_true, if_false, Action.lift_bind_eq_ok] at h
      obtain ⟨f, hf, i, hi, h⟩ := h
      have htop : m.kernel.topFrame m.current = .ok f := by
        unfold Kernel.topFrame
        rw [Kernel.thread_eq_ok.mpr hth]
        exact hf
      cases hbreak : m.breakBefore steps f i with
      | none =>
        have hfree : ¬ m.IsDue steps := by
          rintro ⟨f', i', g, hf', hi', hg⟩
          rw [htop] at hf'
          cases hf'
          rw [hi] at hi'
          cases hi'
          rw [hbreak] at hg
          cases hg
        simp only [hbreak] at h
        exact .inr (.inr ⟨hruns, .inr hfree, h⟩)
      | some g =>
        simp only [hbreak, set_bind, pure_eq_ok] at h
        exact .inr (.inl ⟨hruns, rfl, f, i, g, htop, hi, hbreak, h.1, h.2⟩)

/-- The choices before an instruction are choices among threads. -/
theorem breakBefore_eq_some {m : Machine} {steps : Nat} {f : Frame} {i : Instruction}
    {g : Generator} (h : m.breakBefore steps f i = some g) :
    ∃ id, g = m.kernel.threadChoice id := by
  unfold breakBefore at h
  split at h
  · cases h
    exact ⟨_, rfl⟩
  · split at h
    · cases h
      exact ⟨_, rfl⟩
    · cases h

/-- A round that goes on leaves the flag of the thread that runs then as it has written it: set when
the machine has switched, and taken back when an instruction has run. -/
theorem isFresh_of_round {m m' : Machine} {steps steps' : Nat}
    (h : round steps m = .ok (.inl steps') m') :
    m'.isFresh = true ∧ steps' = steps ∨ m'.isFresh = false ∧ steps' = steps + 1 := by
  rcases round_cases h with ⟨th, stop, -, -, hreschedule, hstop⟩ | ⟨-, -, f, i, g, -, -, -, hr, -⟩ |
    ⟨-, -, hadvance⟩
  · rcases reschedule_cases hreschedule with ⟨-, rfl, -⟩ | ⟨t, -, rfl, rfl⟩ | ⟨-, rfl, -⟩
    · cases hstop
    · cases hstop
      exact .inl ⟨isFresh_setFresh _, rfl⟩
    · cases hstop
  · cases hr
  · obtain ⟨escaped, m₁, hstep, ⟨-, hr, -⟩ | ⟨-, rfl, ⟨-, hr⟩ | ⟨-, hr⟩⟩⟩ := advance_cases hadvance
    · cases hr
    · cases hr
    · cases hr
      exact .inr ⟨isFresh_of_step hstep, rfl⟩

theorem advance_played {m m' : Machine} {steps : Nat} {r : Nat ⊕ TransitionEnd}
    (hhost : m.hostCall = none) (hruns : m.kernel.Runs m.current)
    (hfree : m.isFresh = true ∨ ¬ m.IsDue steps) (h : advance steps m = .ok r m') :
    ∃ x, Played m steps x r m' := by
  obtain ⟨escaped, m₁, hstep, h⟩ := advance_cases h
  obtain ⟨x, hmachine, hthread, hleads, hescaped⟩ := step_performs hhost hstep
  have hstarts : x.Starts m steps := ⟨hmachine, hthread, hruns, hfree⟩
  refine ⟨some x, ?_⟩
  rcases h with ⟨rfl, rfl, hopened⟩ | ⟨rfl, rfl, hgoes⟩
  · obtain ⟨u, hu⟩ := hescaped.mp rfl
    refine .escaped hstarts hleads hu (hopened.imp_right fun ⟨hothers, hm'⟩ => ⟨hothers, ?_⟩)
    exact hm' ▸ ⟨_, SameState.register m₁ _⟩
  · have hstays : ∀ u, x.outcome ≠ .escaped u := fun u hu => by
      simpa using hescaped.mpr ⟨u, hu⟩
    rcases hgoes with ⟨hopened, rfl⟩ | ⟨hsettled, rfl⟩
    · exact .asked hstarts hleads hstays hopened
    · exact .stepped hstarts hleads hstays hsettled (isFresh_of_step hstep)

/-- A round that succeeds does one of the things that a round can do. -/
theorem round_played {m m' : Machine} {steps : Nat} {r : Nat ⊕ TransitionEnd}
    (hhost : m.hostCall = none) (h : round steps m = .ok r m') : ∃ x, Played m steps x r m' := by
  rcases round_cases h with ⟨th, stop, hth, hidle, hreschedule, rfl⟩ |
    ⟨hruns, hstale, f, i, g, htop, hi, hbreak, rfl, rfl⟩ | ⟨hruns, hfree, hadvance⟩
  · refine ⟨none, ?_⟩
    rcases reschedule_cases hreschedule with
      ⟨hnone, rfl, rfl⟩ | ⟨t, honly, rfl, rfl⟩ | ⟨hothers, rfl, id, rfl⟩
    · exact .finished ⟨th, hth⟩ hnone
    · exact .switched hidle honly (SameState.modifyScratch _ _ _) (isFresh_setFresh _)
    · exact .blocked hidle hothers ⟨id, SameState.register m _⟩
  · have hdue : m.IsDue steps := ⟨f, i, g, htop, hi, hbreak⟩
    obtain ⟨id, rfl⟩ := breakBefore_eq_some hbreak
    exact ⟨none, .broken hruns hstale hdue ⟨id, SameState.register m _⟩⟩
  · exact advance_played hhost hruns hfree hadvance

theorem reschedule_eq_error {m m' : Machine} {e : Fault} (h : reschedule m = .error e m') :
    m.kernel.thread m.current = .error e := by
  unfold reschedule at h
  rw [get_bind] at h
  cases hr : m.kernel.runnable with
  | nil => simp only [hr] at h; cases h
  | cons t ts =>
    cases ts with
    | nil => simp only [hr] at h; cases h
    | cons u us =>
      simp only [hr, Action.thread_bind_eq_error] at h
      rcases h with ⟨hth, -⟩ | ⟨th, -, hrest⟩
      · exact hth
      · cases hrest

theorem advance_eq_error {m m' : Machine} {steps : Nat} {e : Fault}
    (h : advance steps m = .error e m') : m.Stuck m.current e := by
  unfold advance at h
  rw [get_bind] at h
  rcases bind_eq_error.mp h with hstep | ⟨escaped, m₁, -, hrest⟩
  · exact step_eq_error hstep
  · rw [get_bind] at hrest
    cases escaped with
    | true =>
      simp only [if_true] at hrest
      split at hrest <;> cases hrest
    | false =>
      simp only [Bool.false_eq_true, if_false] at hrest
      split at hrest <;> cases hrest

/-- A round that fails cannot run an instruction, or the current thread is not there. -/
theorem round_eq_error {m m' : Machine} {steps : Nat} {e : Fault}
    (h : round steps m = .error e m') :
    m.kernel.thread m.current = .error e ∨ m.kernel.Runs m.current ∧ m.Stuck m.current e := by
  unfold round at h
  rw [get_bind, Action.thread_bind_eq_error] at h
  rcases h with ⟨hth, -⟩ | ⟨th, hth, h⟩
  · exact .inl hth
  cases hrun : th.isRunnable with
  | false =>
    simp only [hrun, Bool.not_false, if_true] at h
    rcases bind_eq_error.mp h with hreschedule | ⟨stop, m₁, -, hrest⟩
    · exact .inl (reschedule_eq_error hreschedule)
    · cases stop <;> cases hrest
  | true =>
    simp only [hrun, Bool.not_true, Bool.false_eq_true, if_false] at h
    refine .inr ⟨⟨th, hth, hrun⟩, ?_⟩
    have htop : m.kernel.topFrame m.current = th.top := by
      unfold Kernel.topFrame
      rw [Kernel.thread_eq_ok.mpr hth]
    cases hfresh : m.isFresh with
    | true =>
      simp only [hfresh, if_true] at h
      exact advance_eq_error h
    | false =>
      simp only [hfresh, Bool.false_eq_true, if_false, Action.lift_bind_eq_error] at h
      rcases h with ⟨hf, -⟩ | ⟨f, hf, ⟨hi, -⟩ | ⟨i, hi, h⟩⟩
      · exact .frame (htop.trans hf)
      · exact .instruction (htop.trans hf) hi
      · cases hbreak : m.breakBefore steps f i with
        | none =>
          simp only [hbreak] at h
          exact advance_eq_error h
        | some g =>
          simp only [hbreak] at h
          cases h

/-- What a round has done, when it does not matter which instruction was performed. -/
theorem Played.rounded {m m' : Machine} {steps : Nat} {x : Option Performed}
    {r : Nat ⊕ TransitionEnd} (h : Played m steps x r m') :
    Rounded m steps r m' := by
  have hstepped : ∀ {x : Performed} {m₁ : Machine}, x.Starts m steps → x.LeadsTo m₁ →
      (∀ u, x.outcome ≠ .escaped u) → Stepped m m.current false m₁ := by
    rintro x m₁ ⟨rfl, hthread, -, -⟩ hleads hstays
    rw [← hthread]
    refine hleads.stepped ⟨nofun, ?_⟩
    rintro ⟨u, hu⟩
    exact absurd hu (hstays u)
  cases h with
  | finished _ idle => exact .finished idle
  | switched idle only same fresh => exact .switched idle only same fresh
  | blocked idle _ offers => exact .blocked idle offers
  | broken _ stale _ offers => exact .broken stale offers
  | stepped starts leads stays settled stale =>
    exact .stepped starts.runs (hstepped starts leads stays) settled stale
  | asked starts leads stays opened => exact .asked starts.runs (hstepped starts leads stays) opened
  | @escaped x u m₁ m' starts leads outcome opened =>
    obtain ⟨rfl, hthread, hruns, -⟩ := starts
    have hstepped : Stepped x.machine x.machine.current true m₁ :=
      hthread ▸ leads.stepped ⟨fun _ => ⟨u, outcome⟩, fun _ => rfl⟩
    exact .escaped hruns hstepped (opened.imp (fun h => h.2) fun h => h.2)

theorem round_eq_ok {m m' : Machine} {steps : Nat} {r : Nat ⊕ TransitionEnd}
    (hhost : m.hostCall = none) (h : round steps m = .ok r m') : Rounded m steps r m' := by
  obtain ⟨x, hplayed⟩ := round_played hhost h
  exact hplayed.rounded

theorem Rounded.sameRun {m m' : Machine} {steps : Nat} {r : Nat ⊕ TransitionEnd}
    (hhost : m.hostCall = none) (h : Rounded m steps r m') :
    m'.program = m.program ∧ m'.config = m.config ∧ m'.hostCall = none := by
  have hoffers : ∀ {n n' : Machine}, n.hostCall = none → n.Offers n' →
      n'.program = n.program ∧ n'.config = n.config ∧ n'.hostCall = none := by
    rintro n n' hn ⟨id, hsame⟩
    exact ⟨hsame.program, hsame.config, hsame.hostCall.trans hn⟩
  cases h with
  | finished => exact ⟨rfl, rfl, hhost⟩
  | switched _ _ same _ => exact ⟨same.program, same.config, same.hostCall.trans hhost⟩
  | blocked _ offers => exact hoffers hhost offers
  | broken _ offers => exact hoffers hhost offers
  | stepped _ h _ _ => exact ⟨h.program, h.config, h.hostCall⟩
  | asked _ h _ => exact ⟨h.program, h.config, h.hostCall⟩
  | escaped _ h opened =>
    rcases opened with rfl | offers
    · exact ⟨h.program, h.config, h.hostCall⟩
    · obtain ⟨hp, hc, hn⟩ := hoffers h.hostCall offers
      exact ⟨hp.trans h.program, hc.trans h.config, hn⟩

theorem Rounded.trail {m m' : Machine} {steps : Nat} {r : Nat ⊕ TransitionEnd}
    (h : Rounded m steps r m') :
    m'.path.started = m.path.started ∧ m'.path.trail = m.path.trail := by
  have hoffers : ∀ {n n' : Machine}, n.Offers n' → n'.path = n.path := fun ⟨_, hsame⟩ => hsame.path
  have hstepped : ∀ {t b n}, m.Stepped t b n →
      n.path.started = m.path.started ∧ n.path.trail = m.path.trail := by
    intro t b n h
    obtain ⟨i, w, out, w', -, -, -, -, -, -, hpath, -⟩ := h.performed
    rw [hpath]
    cases out <;> exact ⟨rfl, rfl⟩
  cases h with
  | finished => exact ⟨rfl, rfl⟩
  | switched _ _ same _ => exact same.path ▸ ⟨rfl, rfl⟩
  | blocked _ offers => exact hoffers offers ▸ ⟨rfl, rfl⟩
  | broken _ offers => exact hoffers offers ▸ ⟨rfl, rfl⟩
  | stepped _ h _ _ => exact hstepped h
  | asked _ h _ => exact hstepped h
  | escaped _ h opened =>
    rcases opened with rfl | offers
    · exact hstepped h
    · rw [hoffers offers]
      exact hstepped h

/-! ## Transitions -/

/-- A transition begins with an instruction whose scheduling point has been taken. -/
theorem isFresh_begin (m : Machine) (g : Generator) (c : Choice) : (m.begin g c).isFresh = true :=
  isFresh_setFresh (m.withChoice g c)

/-- What the rounds of a transition keep leads to what holds at its end. -/
theorem transition_induction {I : Machine → Prop} {Q : TransitionEnd → Machine → Prop}
    {g : Generator} {m m' : Machine} {e : TransitionEnd} (hhost : m.hostCall = none)
    (hbegin : ∀ c n, g.current = some c → SameState (m.withChoice g c) n → n.isFresh = true → I n)
    (hnext : ∀ n n' steps steps', I n → n.hostCall = none →
      n.Rounded steps (.inl steps') n' → I n')
    (hlast : ∀ n n' steps e, I n → n.hostCall = none → n.Rounded steps (.inr e) n' → Q e n')
    (h : transition g m = .ok e m') : Q e m' := by
  obtain ⟨-, c, th, hc, -, hrun⟩ := transition_eq_ok.mp h
  have hsame : SameState (m.withChoice g c) (m.begin g c) := SameState.modifyScratch _ _ _
  refine Loop.run_induction (I := fun _ n => I n ∧ n.hostCall = none) ?_ ?_
    ⟨hbegin c _ hc hsame (isFresh_begin m g c), hsame.hostCall.trans hhost⟩ hrun
  · rintro steps n steps' n' ⟨hI, hn⟩ hb
    have hrounded := round_eq_ok hn hb
    exact ⟨hnext n n' steps steps' hI hn hrounded, (hrounded.sameRun hn).2.2⟩
  · rintro steps n e n' ⟨hI, hn⟩ hb
    exact hlast n n' steps e hI hn (round_eq_ok hn hb)

/-- A transition adds the choice that it takes to the trail. -/
theorem transition_trail {g : Generator} {m m' : Machine} {e : TransitionEnd}
    (hhost : m.hostCall = none) (h : transition g m = .ok e m') :
    m'.path.started = m.path.started ∧
      ∃ c, g.current = some c ∧ m'.path.trail = m.path.trail.push (.of g c) := by
  have htake : ∀ c, (takeChoice m.path g c).started = m.path.started ∧
      (takeChoice m.path g c).trail = m.path.trail.push (.of g c) := by
    intro c
    cases c <;> exact ⟨rfl, rfl⟩
  refine transition_induction
    (I := fun n => n.path.started = m.path.started ∧
      ∃ c, g.current = some c ∧ n.path.trail = m.path.trail.push (.of g c))
    (Q := fun _ n => n.path.started = m.path.started ∧
      ∃ c, g.current = some c ∧ n.path.trail = m.path.trail.push (.of g c)) hhost ?_ ?_ ?_ h
  · intro c n hc hsame _
    rw [hsame.path]
    exact ⟨(htake c).1, c, hc, (htake c).2⟩
  · intro n n' steps steps' hI _ hrounded
    rw [hrounded.trail.1, hrounded.trail.2]
    exact hI
  · intro n n' steps e hI _ hrounded
    rw [hrounded.trail.1, hrounded.trail.2]
    exact hI

end Machine

end Interleave

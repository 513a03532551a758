import Interleave.Proofs.Effect
import Interleave.Proofs.Kernel

/-!
# The operations of steps

What each of the operations that steps are made of gives, and what it does to the work of the step,
when it succeeds.
-/

namespace Interleave

open Effect

namespace Step

variable {α : Type} {w w' : Work} {t : ThreadId} {r : ObjRef}

@[simp] theorem lift_eq_ok {e : Except Fault α} {a : α} :
    lift e w = .ok a w' ↔ e = .ok a ∧ w' = w := by
  cases e with
  | ok b => simp [lift, eq_comm]
  | error e => simp [lift]

@[simp] theorem kernel_eq_ok {k : Kernel} : kernel w = .ok k w' ↔ k = w.kernel ∧ w' = w := by
  simp only [kernel, bind_eq_ok, get_eq_ok, pure_eq_ok]
  constructor
  · rintro ⟨_, _, ⟨rfl, rfl⟩, rfl, rfl⟩
    exact ⟨rfl, rfl⟩
  · rintro ⟨rfl, rfl⟩
    exact ⟨_, _, ⟨rfl, rfl⟩, rfl, rfl⟩

@[simp] theorem modifyKernel_eq_ok {f : Kernel → Kernel} {u : Unit} :
    modifyKernel f w = .ok u w' ↔ w' = { w with kernel := f w.kernel } := by
  simp [modifyKernel]

@[simp] theorem setKernel_eq_ok {k : Kernel} {u : Unit} :
    setKernel k w = .ok u w' ↔ w' = { w with kernel := k } := by
  simp [setKernel]

@[simp] theorem emit_eq_ok {e : Event} {u : Unit} :
    emit e w = .ok u w' ↔ w' = { w with events := w.events.push e } := by
  simp [emit]

@[simp] theorem note_eq_ok {f : Transient → Transient} {u : Unit} :
    note f w = .ok u w' ↔ w' = { w with transient := f w.transient } := by
  simp [note]

@[simp] theorem modifyThread_eq_ok {f : Thread → Thread} {u : Unit} :
    modifyThread t f w = .ok u w' ↔
      (∃ th, w.kernel.threads[t.index]? = some th) ∧
        w' = { w with kernel := w.kernel.modifyThread t f } := by
  simp only [modifyThread, bind_eq_ok, kernel_eq_ok, lift_eq_ok, setKernel_eq_ok,
    Kernel.thread_eq_ok]
  constructor
  · rintro ⟨_, _, ⟨rfl, rfl⟩, th, _, ⟨hth, rfl⟩, rfl⟩
    exact ⟨⟨th, hth⟩, rfl⟩
  · rintro ⟨⟨th, hth⟩, rfl⟩
    exact ⟨_, _, ⟨rfl, rfl⟩, th, _, ⟨hth, rfl⟩, rfl⟩

@[simp] theorem pushFrame_eq_ok {f : Frame} {u : Unit} :
    pushFrame t f w = .ok u w' ↔
      (∃ th, w.kernel.threads[t.index]? = some th) ∧
        w' = { w with kernel := w.kernel.modifyThread t (·.pushFrame f) } :=
  modifyThread_eq_ok

@[simp] theorem frame_eq_ok {f : Frame} :
    frame t w = .ok f w' ↔ w.kernel.topFrame t = .ok f ∧ w' = w := by
  simp only [frame, bind_eq_ok, kernel_eq_ok, lift_eq_ok]
  constructor
  · rintro ⟨_, _, ⟨rfl, rfl⟩, hf, rfl⟩
    exact ⟨hf, rfl⟩
  · rintro ⟨hf, rfl⟩
    exact ⟨_, _, ⟨rfl, rfl⟩, hf, rfl⟩

@[simp] theorem onFrame_eq_ok {a : Frame.Action α} {v : α} :
    onFrame t a w = .ok v w' ↔
      ∃ f f', w.kernel.topFrame t = .ok f ∧ a f = .ok v f' ∧
        w' = { w with kernel := w.kernel.modifyThread t (·.setTop f') } := by
  simp only [onFrame, bind_eq_ok, frame_eq_ok]
  constructor
  · rintro ⟨f, _, ⟨hf, rfl⟩, h⟩
    cases ha : a f with
    | error e f' => simp [ha, bind_eq_ok] at h
    | ok b f' =>
      simp only [ha, bind_eq_ok, modifyKernel_eq_ok, pure_eq_ok] at h
      obtain ⟨_, _, rfl, rfl, rfl⟩ := h
      exact ⟨f, f', hf, ha, rfl⟩
  · rintro ⟨f, f', hf, ha, rfl⟩
    refine ⟨f, w, ⟨hf, rfl⟩, ?_⟩
    simp only [ha, bind_eq_ok, modifyKernel_eq_ok, pure_eq_ok]
    exact ⟨(), _, rfl, trivial, rfl⟩

@[simp] theorem object_eq_ok {o : Object} :
    object r w = .ok o w' ↔ w.kernel.heap.get? r = some o ∧ w' = w := by
  simp only [object, bind_eq_ok, kernel_eq_ok, lift_eq_ok, Kernel.object_eq_ok]
  constructor
  · rintro ⟨_, _, ⟨rfl, rfl⟩, ho, rfl⟩
    exact ⟨ho, rfl⟩
  · rintro ⟨ho, rfl⟩
    exact ⟨_, _, ⟨rfl, rfl⟩, ho, rfl⟩

@[simp] theorem setClassStatus_eq_ok {c : ClassId} {s : ClassStatus} {u : Unit} :
    setClassStatus c s w = .ok u w' ↔
      ∃ k, w.kernel.setClassStatus c s = .ok k ∧ w' = { w with kernel := k } := by
  simp only [setClassStatus, bind_eq_ok, kernel_eq_ok, lift_eq_ok, setKernel_eq_ok]
  constructor
  · rintro ⟨_, _, ⟨rfl, rfl⟩, k, _, ⟨hk, rfl⟩, rfl⟩
    exact ⟨k, hk, rfl⟩
  · rintro ⟨k, hk, rfl⟩
    exact ⟨_, _, ⟨rfl, rfl⟩, k, _, ⟨hk, rfl⟩, rfl⟩

/-! ### Sequences that begin by looking at the state -/

section Sequences

variable {β : Type} {b : β}

theorem lift_bind_eq_ok {e : Except Fault α} {f : α → Step β} :
    (lift e >>= f) w = .ok b w' ↔ ∃ a, e = .ok a ∧ f a w = .ok b w' := by
  cases e with
  | ok a =>
    show f a w = .ok b w' ↔ _
    simp
  | error e =>
    show (EStateM.Result.error e w : EStateM.Result Fault Work β) = .ok b w' ↔ _
    simp

theorem kernel_bind_eq_ok {f : Kernel → Step β} :
    (kernel >>= f) w = .ok b w' ↔ f w.kernel w = .ok b w' :=
  Iff.rfl

theorem frame_bind_eq_ok {f : Frame → Step β} :
    (frame t >>= f) w = .ok b w' ↔ ∃ a, w.kernel.topFrame t = .ok a ∧ f a w = .ok b w' :=
  lift_bind_eq_ok

end Sequences

/-- A monitor is acquired, or another thread owns it and nothing changes. -/
theorem lock_eq_ok {b : Bool} :
    lock r t w = .ok b w' ↔ ∃ o, w.kernel.heap.get? r = some o ∧
      ((b = false ∧ o.monitor.lock t = none ∧ w' = w) ∨
        ∃ m, b = true ∧ o.monitor.lock t = some m ∧
          w' = { w with kernel := w.kernel.setMonitor r m }) := by
  simp only [lock, bind_eq_ok, object_eq_ok]
  constructor
  · rintro ⟨o, _, ⟨ho, rfl⟩, h⟩
    refine ⟨o, ho, ?_⟩
    cases hm : o.monitor.lock t with
    | none =>
      simp only [hm, pure_eq_ok] at h
      exact .inl ⟨h.1, rfl, h.2⟩
    | some m =>
      simp only [hm, bind_eq_ok, modifyKernel_eq_ok, pure_eq_ok] at h
      obtain ⟨_, _, rfl, rfl, rfl⟩ := h
      exact .inr ⟨m, rfl, rfl, rfl⟩
  · rintro ⟨o, ho, ⟨rfl, hm, rfl⟩ | ⟨m, rfl, hm, rfl⟩⟩
    · refine ⟨o, w', ⟨ho, rfl⟩, ?_⟩
      simp [hm]
    · refine ⟨o, w, ⟨ho, rfl⟩, ?_⟩
      simp only [hm, bind_eq_ok, modifyKernel_eq_ok, pure_eq_ok]
      exact ⟨(), _, rfl, trivial, rfl⟩

end Step

/-- The state after a monitor was released once. If that made it free, the threads that wait for it
can run. -/
def Kernel.released (k : Kernel) (r : ObjRef) (m : Monitor) : Kernel :=
  if m.isLocked then k.setMonitor r m else (k.setMonitor r m).wakeBlockedOn r

/-- Those that are woken stay in their frames. -/
theorem Kernel.frames_released (k : Kernel) (r : ObjRef) (m : Monitor) (u : ThreadId) :
    (k.released r m).frames u = k.frames u := by
  unfold released
  split
  · rfl
  · exact frames_wake _ u

namespace Step

variable {w w' : Work} {t : ThreadId} {r : ObjRef}

/-- A monitor is released, or this thread does not own it and nothing changes. -/
theorem unlock_eq_ok {b : Bool} :
    unlock r t w = .ok b w' ↔ ∃ o, w.kernel.heap.get? r = some o ∧
      ((b = false ∧ o.monitor.unlock t = none ∧ w' = w) ∨
        ∃ m, b = true ∧ o.monitor.unlock t = some m ∧
          w' = { w with kernel := w.kernel.released r m }) := by
  simp only [unlock, bind_eq_ok, object_eq_ok]
  constructor
  · rintro ⟨o, _, ⟨ho, rfl⟩, h⟩
    refine ⟨o, ho, ?_⟩
    cases hm : o.monitor.unlock t with
    | none =>
      simp only [hm, pure_eq_ok] at h
      exact .inl ⟨h.1, rfl, h.2⟩
    | some m =>
      simp only [hm, bind_eq_ok, modifyKernel_eq_ok] at h
      obtain ⟨_, _, rfl, h⟩ := h
      refine .inr ⟨m, ?_⟩
      unfold Kernel.released
      by_cases hl : m.isLocked
      · simp only [hl, Bool.not_true, Bool.false_eq_true, if_false, pure_eq_ok] at h
        exact ⟨h.1, rfl, by simp only [hl, if_true, h.2]⟩
      · simp only [hl, Bool.not_false, if_true, bind_eq_ok, modifyKernel_eq_ok, pure_eq_ok] at h
        obtain ⟨_, _, rfl, rfl, rfl⟩ := h
        exact ⟨rfl, rfl, by simp only [hl, Bool.false_eq_true, if_false]⟩
  · rintro ⟨o, ho, ⟨rfl, hm, rfl⟩ | ⟨m, rfl, hm, rfl⟩⟩
    · refine ⟨o, w', ⟨ho, rfl⟩, ?_⟩
      simp [hm]
    · refine ⟨o, w, ⟨ho, rfl⟩, ?_⟩
      simp only [hm, bind_eq_ok, modifyKernel_eq_ok]
      refine ⟨(), _, rfl, ?_⟩
      unfold Kernel.released
      by_cases hl : m.isLocked
      · simp only [hl, Bool.not_true, Bool.false_eq_true, if_false, if_true, pure_eq_ok, and_self]
      · simp only [hl, Bool.not_false, if_true, Bool.false_eq_true, if_false, bind_eq_ok,
          modifyKernel_eq_ok, pure_eq_ok]
        exact ⟨(), _, rfl, trivial, rfl⟩

end Step

end Interleave

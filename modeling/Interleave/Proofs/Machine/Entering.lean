import Interleave.Machine.Host
import Interleave.Proofs.Machine.Driven
import Interleave.Proofs.Step.Advance
import Interleave.Proofs.Step.Calls

/-!
# Asking before entering

A thread can be asked whether it could enter a method right now, and it can try. The question is put
to the state and the attempt is a step, and each of them finds the monitor in its own way. Both come
to the same: what matters is one object, `Kernel.EntryTarget`, and whether another thread owns its
monitor, `Kernel.Bars`. An attempt that is in vain leaves the state as it was, up to the status of
the thread and the receiver that is reported.
-/

namespace Interleave

open Effect

/-- Asking for a monitor foretells whether it can be had. -/
theorem Monitor.canLock_eq_false_iff {m : Monitor} {t : ThreadId} :
    m.canLock t = false ↔ m.lock t = none := by
  rw [← isSome_lock]
  cases m.lock t <;> simp

namespace Kernel

/-- The object whose monitor a thread needs to enter a method whose arguments are on top of its
frame, if the method is synchronized: the class object for a static method, else the receiver, which
lies under the arguments. -/
inductive EntryTarget (k : Kernel) (t : ThreadId) (m : Method) (r : ObjRef) : Prop where
  | classObject {c : ClassId} (static : m.isStatic = true) (declared : m.classId? = some c)
    (object : k.classObject c = .ok r)
  | receiver {f : Frame} (dynamic : m.isStatic = false) (top : k.topFrame t = .ok f)
    (under : f.peekRef m.parts.argSlots = .ok r)

/-- Another thread keeps this one from entering a method: it owns the monitor that is needed. -/
structure Bars (k : Kernel) (t : ThreadId) (m : Method) (r : ObjRef) : Prop where
  synchronized : m.isSynchronized = true
  target : k.EntryTarget t m r
  owned : ∃ o u, k.heap.get? r = some o ∧ o.monitor.owner? = some u ∧ u ≠ t

variable {k : Kernel} {t : ThreadId} {m : Method} {r : ObjRef}

theorem entryTarget_of_static (hm : m.isStatic = true) :
    k.EntryTarget t m r ↔ k.lockTarget m .null = .ok r := by
  rw [lockTarget_eq_ok]
  simp only [hm, if_true, ← classObject_eq_ok]
  constructor
  · rintro (⟨-, hc, hr⟩ | ⟨hdynamic, -, -⟩)
    · exact ⟨_, hc, hr⟩
    · simp [hm] at hdynamic
  · rintro ⟨c, hc, hr⟩
    exact .classObject hm hc hr

theorem entryTarget_of_dynamic (hm : m.isStatic = false) :
    k.EntryTarget t m r ↔ ∃ f, k.topFrame t = .ok f ∧ f.peekRef (m.argSlots - 1) = .ok r := by
  have hdepth : m.argSlots - 1 = m.parts.argSlots := by
    simp [Method.argSlots, Method.receiverSlots, hm]
  rw [hdepth]
  constructor
  · rintro (⟨hstatic, -, -⟩ | ⟨-, hf, hr⟩)
    · simp [hm] at hstatic
    · exact ⟨_, hf, hr⟩
  · rintro ⟨f, hf, hr⟩
    exact .receiver hm hf hr

end Kernel

namespace Call

variable {t : ThreadId} {m : Method} {w w' : Work} {r : ObjRef}

/-- The receiver that an attempt finds belongs to the object that the thread needs. -/
theorem entryTarget_iff {r : ObjRef} : w.kernel.EntryTarget t m r ↔
    ∃ receiver, Call.receiver t m w = .ok receiver w ∧ w.kernel.lockTarget m receiver = .ok r := by
  unfold Call.receiver
  cases hm : m.isStatic with
  | true =>
    rw [Kernel.entryTarget_of_static hm]
    simp
  | false =>
    rw [Kernel.entryTarget_of_dynamic hm]
    simp only [Bool.false_eq_true, if_false, Step.frame_bind_eq_ok, Step.lift_eq_ok, and_true,
      Kernel.lockTarget_eq_ok, hm]
    constructor
    · rintro ⟨f, hf, hr⟩
      exact ⟨r, ⟨f, hf, hr⟩, rfl⟩
    · rintro ⟨receiver, h, rfl⟩
      exact h

/-- A monitor that another thread owns is not acquired, and nothing changes. -/
theorem acquire_eq_some_iff {receiver : ObjRef} :
    acquire t m receiver w = .ok (some r) w' ↔ m.isSynchronized = true ∧
      w.kernel.lockTarget m receiver = .ok r ∧
      (∃ o, w.kernel.heap.get? r = some o ∧ o.monitor.lock t = none) ∧ w' = w := by
  constructor
  · intro h
    rcases acquire_eq_ok h with ⟨r', o, hres, hw', hs, hr, ho, hl⟩ | ⟨_, _, hres, -⟩
    · cases hres
      exact ⟨hs, hr, ⟨o, ho, hl⟩, hw'⟩
    · cases hres
  · rintro ⟨hs, hr, ⟨o, ho, hl⟩, rfl⟩
    have hlock : Step.lock r t w' = .ok false w' := Step.lock_eq_ok.mpr ⟨o, ho, .inl ⟨rfl, hl, rfl⟩⟩
    unfold acquire
    simp only [hs, Bool.not_true, Bool.false_eq_true, if_false, Step.kernel_bind_eq_ok,
      Step.lift_bind_eq_ok]
    refine ⟨r, hr, ?_⟩
    rw [bind_of_ok hlock]
    rfl

/-- An attempt is in vain exactly if another thread owns the monitor. Then the thread is blocked,
the object is reported, and nothing else has changed. -/
theorem enter_eq_blocked_iff : enter t m w = .ok (.blocked r) w' ↔
    w.kernel.Bars t m r ∧ (∃ th, w.kernel.threads[t.index]? = some th) ∧
      w' = { w with
        kernel := w.kernel.setStatus t (.blocked r)
        transient := { w.transient with receiver := r } } := by
  have hbars : w.kernel.Bars t m r ↔ ∃ receiver, Call.receiver t m w = .ok receiver w ∧
      acquire t m receiver w = .ok (some r) w := by
    simp only [acquire_eq_some_iff, and_true]
    constructor
    · rintro ⟨hs, htarget, o, u, ho, hu, hut⟩
      obtain ⟨receiver, hreceiver, hr⟩ := entryTarget_iff.mp htarget
      exact ⟨receiver, hreceiver, hs, hr, o, ho, Monitor.lock_eq_none_iff.mpr ⟨u, hu, hut⟩⟩
    · rintro ⟨receiver, hreceiver, hs, hr, o, ho, hl⟩
      obtain ⟨u, hu, hut⟩ := Monitor.lock_eq_none_iff.mp hl
      exact ⟨hs, entryTarget_iff.mpr ⟨receiver, hreceiver, hr⟩, o, u, ho, hu, hut⟩
  rw [hbars]
  unfold enter
  constructor
  · intro h
    obtain ⟨receiver, w₁, hreceiver, h₁⟩ := bind_eq_ok.mp h
    obtain ⟨hw₁, -⟩ := receiver_eq_ok hreceiver
    subst w₁
    obtain ⟨res, w₂, hacquire, h₂⟩ := bind_eq_ok.mp h₁
    cases res with
    | none =>
      -- the monitor has been acquired, and the method is entered
      obtain ⟨_, w₃, -, h₃⟩ := bind_eq_ok.mp h₂
      simp at h₃
    | some target =>
      obtain ⟨hs, hr, howned, rfl⟩ := acquire_eq_some_iff.mp hacquire
      simp only [bind_eq_ok, Step.modifyThread_eq_ok, Step.note_eq_ok, pure_eq_ok,
        Entry.blocked.injEq] at h₂
      obtain ⟨_, _, ⟨hth, rfl⟩, _, _, rfl, rfl, rfl⟩ := h₂
      exact ⟨⟨receiver, hreceiver, hacquire⟩, hth, rfl⟩
  · rintro ⟨⟨receiver, hreceiver, hacquire⟩, hth, rfl⟩
    rw [bind_of_ok hreceiver, bind_of_ok hacquire]
    simp only [bind_eq_ok, Step.modifyThread_eq_ok, Step.note_eq_ok, pure_eq_ok]
    exact ⟨(), _, ⟨hth, rfl⟩, (), _, rfl, trivial, rfl⟩

/-- A method that has been entered is not synchronized, or its monitor could be had. -/
theorem lock_of_enter_eq_entered (h : enter t m w = .ok .entered w') :
    m.isSynchronized = false ∨ m.isSynchronized = true ∧ ∃ r o, w.kernel.EntryTarget t m r ∧
      w.kernel.heap.get? r = some o ∧ o.monitor.lock t ≠ none := by
  unfold enter at h
  obtain ⟨receiver, w₁, hreceiver, h₁⟩ := bind_eq_ok.mp h
  obtain ⟨hw₁, -⟩ := receiver_eq_ok hreceiver
  subst w₁
  obtain ⟨res, w₂, hacquire, h₂⟩ := bind_eq_ok.mp h₁
  rcases acquire_eq_ok hacquire with ⟨r, -, rfl, -⟩ | ⟨heap, cs, -, hacquired, -⟩
  · simp only [bind_eq_ok, pure_eq_ok, reduceCtorEq, false_and, and_false, exists_false] at h₂
  · cases hacquired with
    | unneeded hs => exact .inl hs
    | locked hs hr ho hl =>
      refine .inr ⟨hs, _, _, entryTarget_iff.mpr ⟨receiver, hreceiver, hr⟩, ho, ?_⟩
      simp [hl]

end Call

namespace Machine

variable {k : Kernel} {t : ThreadId} {m : Method}

/-- What the question is answered with. -/
theorem canEnter_eq_ok_iff {b : Bool} : canEnter k t m = .ok b ↔
    m.isSynchronized = false ∧ b = true ∨ m.isSynchronized = true ∧ ∃ r o, k.EntryTarget t m r ∧
      k.heap.get? r = some o ∧ o.monitor.canLock t = b := by
  have hcan : ∀ r, k.canLock r t = .ok b ↔
      ∃ o, k.heap.get? r = some o ∧ o.monitor.canLock t = b := by
    intro r
    simp only [← Kernel.object_eq_ok, Kernel.canLock]
    cases k.object r <;> simp [Except.map]
  unfold canEnter
  cases hs : m.isSynchronized with
  | false => simp [eq_comm]
  | true =>
    cases hm : m.isStatic with
    | true =>
      simp [Kernel.entryTarget_of_static hm, except_bind_eq_ok, hcan]
    | false =>
      simp only [Kernel.entryTarget_of_dynamic hm, except_bind_eq_ok, hcan, Kernel.lockTarget, hm,
        Bool.not_true, Bool.false_eq_true, if_false, Except.ok.injEq, exists_eq_left', false_and,
        true_and, false_or, reduceCtorEq]
      constructor
      · rintro ⟨f, hf, r, hr, o, ho, hb⟩
        exact ⟨r, o, ⟨f, hf, hr⟩, ho, hb⟩
      · rintro ⟨r, o, ⟨f, hf, hr⟩, ho, hb⟩
        exact ⟨f, hf, r, hr, o, ho, hb⟩

theorem canEnter_eq_false_iff :
    canEnter k t m = .ok false ↔ ∃ r, k.Bars t m r := by
  simp only [canEnter_eq_ok_iff, Monitor.canLock_eq_false_iff, Monitor.lock_eq_none_iff]
  constructor
  · rintro (⟨-, hb⟩ | ⟨hs, r, o, htarget, ho, u, hu, hut⟩)
    · cases hb
    · exact ⟨r, hs, htarget, o, u, ho, hu, hut⟩
  · rintro ⟨r, hs, htarget, o, u, ho, hu, hut⟩
    exact .inr ⟨hs, r, o, htarget, ho, u, hu, hut⟩

/-- **The question foretells the attempt.** If the answer is yes, the thread is not blocked when it
tries to enter the method; if it is no, the thread, which must be there, is blocked on the object
whose monitor the method takes; and a method that has been entered could be entered. Whenever a
thread is blocked, another thread owns the monitor, and nothing has changed but the status of the
thread and the receiver that is reported. -/
theorem enter_of_canEnter {w : Work} :
    (canEnter w.kernel t m = .ok true → ∀ r w', Call.enter t m w ≠ .ok (.blocked r) w') ∧
      (canEnter w.kernel t m = .ok false → (∃ th, w.kernel.threads[t.index]? = some th) →
        ∃ r w', w.kernel.EntryTarget t m r ∧ Call.enter t m w = .ok (.blocked r) w') ∧
      (∀ w', Call.enter t m w = .ok .entered w' → canEnter w.kernel t m = .ok true) ∧
      ∀ r w', Call.enter t m w = .ok (.blocked r) w' →
        (∃ o u, w.kernel.heap.get? r = some o ∧ o.monitor.owner? = some u ∧ u ≠ t) ∧
          w' = { w with
            kernel := w.kernel.setStatus t (.blocked r)
            transient := { w.transient with receiver := r } } := by
  refine ⟨fun htrue r w' hblocked => ?_, fun hfalse hthere => ?_, fun w' hentered => ?_,
    fun r w' hblocked => ?_⟩
  · obtain ⟨hbars, -, -⟩ := Call.enter_eq_blocked_iff.mp hblocked
    have hfalse : canEnter w.kernel t m = .ok false := canEnter_eq_false_iff.mpr ⟨r, hbars⟩
    rw [htrue] at hfalse
    cases hfalse
  · obtain ⟨r, hbars⟩ := canEnter_eq_false_iff.mp hfalse
    exact ⟨r, _, hbars.target, Call.enter_eq_blocked_iff.mpr ⟨hbars, hthere, rfl⟩⟩
  · refine canEnter_eq_ok_iff.mpr ?_
    refine (Call.lock_of_enter_eq_entered hentered).imp (fun hs => ⟨hs, rfl⟩) ?_
    rintro ⟨hs, r, o, htarget, ho, hl⟩
    refine ⟨hs, r, o, htarget, ho, ?_⟩
    rw [← Monitor.isSome_lock, Option.isSome_iff_ne_none]
    exact hl
  · obtain ⟨hbars, -, rfl⟩ := Call.enter_eq_blocked_iff.mp hblocked
    exact ⟨hbars.owned, rfl⟩

/-- While one worker of the counter increments in a synchronized method, the other one is told that
it cannot enter that method. If it tries all the same, it is blocked, and that is all. -/
theorem enter_of_canEnter_syncCounter : ∃ p m th, ∃ inc ∈ p.methods, ∃ r w',
    Demo.syncCounter.run (Program.base .plain) = .ok ((), p) ∧ Driven p {} m ∧ inc.name = "inc" ∧
      m.kernel.threads[2]? = some th ∧ canEnter m.kernel ⟨2⟩ inc = .ok false ∧
      Call.enter ⟨2⟩ inc { kernel := m.kernel } = .ok (.blocked r) w' ∧
      w'.kernel = m.kernel.setStatus ⟨2⟩ (.blocked r) := by
  obtain ⟨p, m, hbuild, hdriven, htest⟩ := Driven.exists_of_demo Demo.syncCounter
    [0, 0, 1, 1]
    (fun p m => m.kernel.threads[2]?.isSome && p.methods.any fun f => f.name == "inc" &&
      (canEnter m.kernel ⟨2⟩ f).toOption == some false) (by decide +kernel)
  simp only [Bool.and_eq_true, Option.isSome_iff_exists, Array.any_eq_true', beq_iff_eq,
    except_toOption_eq_some] at htest
  obtain ⟨⟨th, hth⟩, inc, hinc, hname, hfalse⟩ := htest
  obtain ⟨-, hno, -, hblocked⟩ :=
    enter_of_canEnter (t := ⟨2⟩) (m := inc) (w := { kernel := m.kernel })
  obtain ⟨r, w', -, henter⟩ := hno hfalse ⟨th, hth⟩
  obtain ⟨-, hw'⟩ := hblocked r w' henter
  exact ⟨p, m, th, inc, hinc, r, w', hbuild, hdriven, hname, hth, hfalse, henter, by rw [hw']⟩

end Machine

end Interleave

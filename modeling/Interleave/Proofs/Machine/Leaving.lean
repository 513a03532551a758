import Interleave.Proofs.Machine.Entering
import Interleave.Proofs.Machine.Isolation
import Interleave.Proofs.Step.Convention
import Interleave.Proofs.Step.Dispatch

/-!
# Leaving undoes entering

A method that is entered and left at once leaves next to no trace. Its frame goes away, its monitor
is given back as often as it was taken, and a class that counted as being initialized by the thread
counts as initialized. The arguments are gone from the operand stack of the caller.

Giving back a monitor wakes those that wait for it as soon as it is free. When a thread enters a
method, it finds the monitor free or its own. In the first case nobody waits for it, as threads are
blocked on monitors only while somebody owns them: `Kernel.Contested`. In the second case the
monitor does not become free.
-/

namespace Interleave

open Effect Relation

namespace Heap

/-- A change of an object that is undone at once. -/
theorem modify_modify_of_eq {h : Heap} {r : ObjRef} {o : Object} {f g : Object → Object}
    (ho : h.get? r = some o) (hgf : g (f o) = o) : (h.modify r f).modify r g = h := by
  have hnull : r.isNull = false := by
    cases hn : r.isNull with
    | false => rfl
    | true => simp [get?, hn] at ho
  simp only [get?, hnull, Bool.false_eq_true, if_false] at ho
  simp only [modify, hnull, Bool.false_eq_true, if_false]
  refine congrArg mk (Array.ext_getElem? fun n => ?_)
  simp only [Array.getElem?_modify]
  split
  · subst n
    simp [ho, hgf]
  · rfl

end Heap

namespace Kernel

variable {p : Program} {k k' : Kernel} {t : ThreadId} {s : ThreadStatus} {r : ObjRef} {m : Method}

/-! ## What threads are blocked on -/

/-- Somebody owns each monitor that a thread is blocked on. -/
def Contested (k : Kernel) : Prop :=
  ∀ (u : ThreadId) th r, k.threads[u.index]? = some th → th.status = .blocked r →
    ∃ o v, k.heap.get? r = some o ∧ o.monitor.owner? = some v

namespace Contested

theorem start (h : Started p k) : k.Contested := by
  obtain ⟨⟨th, f, hthreads, -, hrunnable, -⟩, -⟩ := h.inv
  rintro ⟨i⟩ th' r hth' hblocked
  rw [hthreads] at hth'
  cases i with
  | zero =>
    obtain rfl : th = th' := by simpa using hth'
    rw [hrunnable] at hblocked
    cases hblocked
  | succ i => simp at hth'

/-- When a monitor becomes free, nobody is left waiting for it. -/
theorem advance (hk : k.Contested) (h : Advance p t k k') : k'.Contested := by
  intro u th' r hth' hblocked
  obtain ⟨th, hth, he, -⟩ := h.waited hth' (by simp [hblocked])
  obtain ⟨o, v, ho, howner⟩ := hk u th r hth (he.symm.trans hblocked)
  obtain ⟨o', v', ho', howner', -⟩ := h.owned ho howner hth' hblocked
  exact ⟨o', v', ho', howner'⟩

/-- A thread comes to be blocked on a monitor that another one owns. -/
theorem owned_of_stall (h : k.Stall p t (.blocked r)) :
    ∃ o v, k.heap.get? r = some o ∧ o.monitor.owner? = some v := by
  have howned : (∃ o, k.heap.get? r = some o ∧ o.monitor.lock t = none) →
      ∃ o v, k.heap.get? r = some o ∧ o.monitor.owner? = some v := by
    rintro ⟨o, ho, hlock⟩
    obtain ⟨v, hv, -⟩ := Monitor.lock_eq_none_iff.mp hlock
    exact ⟨o, v, ho, hv⟩
  cases h with
  | monitor _ _ _ _ owned => exact howned owned
  | call _ _ _ _ refused => exact howned refused.owned
  | initializer _ _ _ _ _ _ refused => exact howned refused.owned

theorem setStatus (hk : k.Contested) (h : k.Stall p t s) : (k.setStatus t s).Contested := by
  intro u th' r hth' hblocked
  unfold Kernel.setStatus at hth'
  rw [getElem?_modifyThread] at hth'
  split at hth'
  · obtain ⟨th, -, rfl⟩ := Option.map_eq_some_iff.mp hth'
    obtain rfl : s = .blocked r := hblocked
    exact owned_of_stall (k := k) h
  · exact hk u th' r hth' hblocked

theorem ended (hk : k.Contested) : (k.ended t).Contested := by
  intro u th' r hth' hblocked
  rw [getElem?_ended] at hth'
  obtain ⟨th, hth, rfl⟩ := Option.map_eq_some_iff.mp hth'
  refine hk u th r hth ?_
  split at hblocked
  · cases hblocked
  · split at hblocked
    · cases hblocked
    · exact hblocked

theorem turn (hk : k.Contested) (h : Turn p k k') : k'.Contested := by
  cases h with
  | ran _ moves => exact hk.advance (.of_moves moves)
  | stalled _ moves stall => exact (hk.advance (.of_moves moves)).setStatus stall
  | ended _ moves => exact (hk.advance (.of_moves moves)).ended

end Contested

/-- Nobody is ever blocked on a monitor that nobody owns. -/
theorem Reachable.contested (h : k.Reachable p) : k.Contested := by
  induction h with
  | start h => exact .start h
  | turn _ h ih => exact ih.turn h

/-! ## Changes that cancel each other -/

/-- If nobody has a status, nobody is woken. -/
theorem wake_eq_self (h : ∀ (u : ThreadId) th, k.threads[u.index]? = some th → th.status ≠ s) :
    k.wake s = k := by
  refine congrArg (fun ths => ({ k with threads := ths } : Kernel)) (Array.ext_getElem? fun n => ?_)
  rw [Array.getElem?_map]
  cases hth : k.threads[n]? with
  | none => rfl
  | some th => simp [h ⟨n⟩ th hth]

/-- A frame that is pushed and taken away again. -/
theorem modifyThread_pushFrame (k : Kernel) {th : Thread} (h : k.threads[t.index]? = some th)
    (g : Frame) : (k.modifyThread t (·.pushFrame g)).modifyThread t
      (fun th' => { th' with frames := th.frames }) = k := by
  refine congrArg (fun ths => ({ k with threads := ths } : Kernel)) (Array.ext_getElem? fun n => ?_)
  simp only [modifyThread, Array.getElem?_modify]
  split
  · subst n
    simp [h, Thread.pushFrame]
  · rfl

/-- A monitor that is given back to where it was taken is as before. Nobody is woken if threads are
blocked on nothing that is free. -/
theorem released_setMonitor {o : Object} (hk : k.Contested) (ho : k.heap.get? r = some o)
    (l : Monitor) : (k.setMonitor r l).released r o.monitor = k := by
  have hback : (k.setMonitor r l).setMonitor r o.monitor = k := by
    refine congrArg (fun h => ({ k with heap := h } : Kernel)) ?_
    exact Heap.modify_modify_of_eq ho rfl
  unfold released
  rw [hback]
  split
  · rfl
  · rename_i hfree
    refine wake_eq_self fun u th hth hblocked => hfree ?_
    obtain ⟨o', v, ho', howner⟩ := hk u th r hth hblocked
    rw [ho] at ho'
    cases ho'
    simp [Monitor.isLocked, howner]

theorem Acquired.congr {receiver : ObjRef} {heap : Heap} (h : k.Acquired t m receiver heap)
    (hheap : k'.heap = k.heap) (hobjects : k'.classObjects = k.classObjects) :
    k'.Acquired t m receiver heap := by
  cases h with
  | unneeded hs => exact hheap ▸ .unneeded hs
  | @locked r o l hs hr ho hl =>
    have hset : (k.setMonitor r l).heap = (k'.setMonitor r l).heap := by
      simp only [setMonitor, modifyObject, hheap]
    exact hset ▸ .locked hs ((lockTarget_congr hobjects).mpr hr) (hheap ▸ ho) hl

theorem Marks.congr {s : ClassStatus} {cs : Array ClassState} (h : k.Marks m s cs)
    (hclasses : k'.classes = k.classes) : k'.Marks m s cs := by
  cases h with
  | unneeded hnone => exact hclasses ▸ .unneeded hnone
  | @initializer c hc =>
    have hmarked : k.marked c s = k'.marked c s := by simp only [marked, hclasses]
    exact hmarked ▸ .initializer hc

/-- Of two marks of a method the second one counts. -/
theorem Marks.again {s s' : ClassStatus} {cs cs' : Array ClassState}
    (h : k.Marks m s cs) (h' : ({ k with classes := cs } : Kernel).Marks m s' cs') :
    k.Marks m s' cs' := by
  cases h with
  | unneeded hnone =>
    cases h' with
    | unneeded => exact .unneeded hnone
    | @initializer c hc => simp [hnone c] at hc
  | @initializer c hc =>
    cases h' with
    | unneeded hnone => simp [hnone c] at hc
    | @initializer d hd =>
      have hcd : c = d := by
        simp only [Method.isClassInitOf, Bool.and_eq_true, beq_iff_eq] at hc hd
        exact Option.some.inj (hc.2.symm.trans hd.2)
      subst d
      have htwice : ({ k with classes := k.marked c s } : Kernel).marked c s' = k.marked c s' := by
        refine Array.ext_getElem? fun n => ?_
        simp only [marked, Array.getElem?_modify]
        split
        · cases k.classes[n]? <;> rfl
        · rfl
      rw [htwice]
      exact .initializer hc

/-- What marking does to the state of each class. -/
theorem Marks.getElem? {s : ClassStatus} {cs : Array ClassState} (h : k.Marks m s cs) (c : ClassId) :
    cs[c.index]? = (k.classes[c.index]?).map fun state =>
      if m.isClassInitOf c then { state with status := s } else state := by
  cases h with
  | unneeded hnone => simp [hnone c]
  | @initializer d hd =>
    have hiff : m.isClassInitOf c = true ↔ d.index = c.index := by
      obtain ⟨i⟩ := c
      obtain ⟨j⟩ := d
      simp only [Method.isClassInitOf, Bool.and_eq_true, beq_iff_eq] at hd ⊢
      simp [hd.1, hd.2]
    simp only [marked, Array.getElem?_modify, hiff]
    split <;> simp

/-- A thread has entered a method and left it again. -/
structure Restored (k : Kernel) (t : ThreadId) (m : Method) (k' : Kernel) : Prop where
  /-- Objects are as before, and so are their monitors. -/
  heap : k'.heap = k.heap
  /-- Other threads are as before. There are as many as before. -/
  others : ∀ u : ThreadId, u ≠ t → k'.threads[u.index]? = k.threads[u.index]?
  /-- The arguments are gone from the frame on top. -/
  own : ∃ th f rest, k.threads[t.index]? = some th ∧ th.frames = f :: rest ∧
    m.argSlots ≤ f.operands.length ∧ k'.threads[t.index]? = some { th with
      frames := { f with operands := f.operands.drop m.argSlots } :: rest }
  /-- Classes are as before, but for the one that the method initializes. -/
  classes : ∀ c : ClassId, k'.classes[c.index]? = (k.classes[c.index]?).map fun state =>
    if m.isClassInitOf c then { state with status := .initialized } else state
  initialized : ∀ c, m.isClassInitOf c = true → k'.classStatus c = .ok .initialized

theorem Restored.of_marks {th : Thread} {f : Frame} {rest : List Frame} {cs : Array ClassState}
    (hth : k.threads[t.index]? = some th) (hframes : th.frames = f :: rest)
    (hle : m.argSlots ≤ f.operands.length) (hmarks : k.Marks m .initialized cs)
    (hclass : m.attributes.isClassInit = true → ∀ c, m.classId? = some c →
      c.index < k.classes.size) :
    k.Restored t m ({ k with classes := cs }.modifyThread t
      (·.setTop { f with operands := f.operands.drop m.argSlots })) where
  heap := rfl
  others u hu := by
    rw [getElem?_modifyThread, if_neg (Ne.symm hu)]
  own := by
    refine ⟨th, f, rest, hth, hframes, hle, ?_⟩
    rw [getElem?_modifyThread, if_pos rfl, hth]
    simp [Thread.setTop, hframes]
  classes := hmarks.getElem?
  initialized c hc := by
    have hc' := hc
    simp only [Method.isClassInitOf, Bool.and_eq_true, beq_iff_eq] at hc'
    have hbound := hclass hc'.1 c hc'.2
    refine classStatus_eq_ok.mpr ⟨{ k.classes[c.index] with status := .initialized },
      (hmarks.getElem? c).trans ?_, rfl⟩
    rw [Array.getElem?_eq_getElem hbound, Option.map_some, if_pos hc]

/-- Threads stay blocked, and monitors owned, when a frame changes and classes are marked. -/
theorem Contested.setTop (hk : k.Contested) (cs : Array ClassState) (f : Frame) :
    ({ k with classes := cs }.modifyThread t (·.setTop f)).Contested := by
  intro u th' r hth' hblocked
  rw [getElem?_modifyThread] at hth'
  split at hth'
  · obtain ⟨th, hth, rfl⟩ := Option.map_eq_some_iff.mp hth'
    exact hk u th r hth hblocked
  · exact hk u th' r hth' hblocked

end Kernel

namespace Call

variable {t : ThreadId} {m : Method} {w w' : Work}

/-- The class that a method initializes is there if it could be marked. -/
theorem lt_of_acquire {receiver : ObjRef} (hs : m.isSynchronized = true)
    (h : acquire t m receiver w = .ok none w') (hinit : m.attributes.isClassInit = true)
    {c : ClassId} (hc : m.classId? = some c) : c.index < w.kernel.classes.size := by
  unfold acquire at h
  simp only [hs, Bool.not_true, Bool.false_eq_true, if_false, Step.kernel_bind_eq_ok,
    Step.lift_bind_eq_ok] at h
  obtain ⟨r, -, h⟩ := h
  obtain ⟨locked, w₁, hlock, h⟩ := bind_eq_ok.mp h
  cases locked with
  | false => simp at h
  | true =>
    simp only [Bool.not_true, Bool.false_eq_true, if_false, bind_eq_ok, Step.emit_eq_ok, hinit,
      if_true, hc, Step.setClassStatus_eq_ok, Kernel.setClassStatus_eq_ok] at h
    obtain ⟨_, _, rfl, _, _, ⟨_, ⟨hlt, -⟩, -⟩, -⟩ := h
    obtain ⟨o, -, ⟨-, -, rfl⟩ | ⟨l, -, -, rfl⟩⟩ := Step.lock_eq_ok.mp hlock
    · exact hlt
    · exact hlt

/-- What has become of the state when a method has been entered. -/
theorem enter_eq_entered (h : enter t m w = .ok .entered w') : ∃ f receiver heap cs,
    w.kernel.topFrame t = .ok f ∧ m.argSlots ≤ f.operands.length ∧
      w.kernel.Acquired t m receiver heap ∧
      (if m.isSynchronized then w.kernel.Marks m (.initializing t) cs else cs = w.kernel.classes) ∧
      (m.isSynchronized = true → m.attributes.isClassInit = true →
        ∀ c, m.classId? = some c → c.index < w.kernel.classes.size) ∧
      w.Becomes (({ w.kernel with heap := heap, classes := cs }.modifyThread t
        (·.setTop { f with operands := f.operands.drop m.argSlots })).modifyThread t
          (·.pushFrame (activation m receiver (f.operands.take m.argSlots).reverse))) w' := by
  unfold enter at h
  obtain ⟨receiver, w₁, hreceiver, h₁⟩ := bind_eq_ok.mp h
  obtain ⟨hw₁, -⟩ := receiver_eq_ok hreceiver
  subst w₁
  obtain ⟨res, w₂, hacquire, h₂⟩ := bind_eq_ok.mp h₁
  rcases acquire_eq_ok hacquire with ⟨r, o, rfl, -⟩ | ⟨heap, cs, rfl, hacquired, hmarks, hw₂⟩
  · simp only [bind_eq_ok, pure_eq_ok, reduceCtorEq, false_and, and_false, exists_false] at h₂
  · obtain ⟨_, w₃, hmove, h₃⟩ := bind_eq_ok.mp h₂
    obtain ⟨-, rfl⟩ := pure_eq_ok.mp h₃
    unfold moveIn at hmove
    simp only [bind_eq_ok, Step.onFrame_eq_ok, Frame.popSlots_eq_ok, Step.note_eq_ok,
      Step.pushFrame_eq_ok, Step.emit_eq_ok] at hmove
    obtain ⟨_, _, ⟨f, _, hf, ⟨hle, rfl, rfl⟩, rfl⟩, _, _, rfl, _, _, ⟨-, rfl⟩, rfl⟩ := hmove
    rw [hw₂.kernel] at hf
    refine ⟨f, receiver, heap, cs, hf, hle, hacquired, hmarks,
      fun hs hinit c hc => lt_of_acquire hs hacquire hinit hc, ?_, hw₂.choice, hw₂.pending⟩
    simp only [hw₂.kernel]
    rfl

/-- A frame that has just been entered can be left. -/
theorem leavable_activation {heap : Heap} {receiver : ObjRef}
    {args : List Slot} {k : Kernel} (hacquired : w.kernel.Acquired t m receiver heap)
    (hm : m.attributes.isClassInit = true → m.isSynchronized = true)
    (hclass : m.isSynchronized = true → m.attributes.isClassInit = true →
      ∀ c, m.classId? = some c → c.index < w.kernel.classes.size)
    (hheap : k.heap = heap) (hobjects : k.classObjects = w.kernel.classObjects) :
    (activation m receiver args).Leavable k where
  target hs := by
    have hs : m.isSynchronized = true := hs
    cases hacquired with
    | unneeded hnot => simp [hs] at hnot
    | @locked r o l _ hr ho _ =>
      refine ⟨r, { o with monitor := l }, (Kernel.lockTarget_congr hobjects).mpr hr, ?_⟩
      rw [hheap, Kernel.get?_setMonitor, if_pos rfl, ho]
      rfl
  owner hinit c hc := by
    rw [Kernel.size_classes, hobjects, ← Kernel.size_classes]
    exact hclass (hm hinit) hinit c hc

/-- The monitor that has been taken for a method is given back, and nobody is woken. -/
theorem eq_of_released {base k : Kernel} {heap : Heap} {receiver : ObjRef}
    (hbase : base.Contested) (hacquired : base.Acquired t m receiver heap)
    (h : ({ base with heap := heap } : Kernel).Released t m receiver k) : k = base := by
  cases hacquired with
  | unneeded hnot =>
    cases h with
    | unneeded => rfl
    | unlocked hs => simp [hs] at hnot
    | gone hs => simp [hs] at hnot
  | @locked r o l hs hr ho hlock =>
    have htaken : ∀ {r' o'}, ({ base with heap := (base.setMonitor r l).heap } : Kernel).lockTarget
        m receiver = .ok r' → (base.setMonitor r l).heap.get? r' = some o' →
          r' = r ∧ o'.monitor = l := by
      intro r' o' hr' ho'
      replace hr' := (Kernel.lockTarget_congr (k := base) rfl).mp hr'
      rw [hr] at hr'
      cases hr'
      rw [Kernel.get?_setMonitor, if_pos rfl, ho] at ho'
      cases ho'
      exact ⟨rfl, rfl⟩
    cases h with
    | unneeded hnot => simp [hs] at hnot
    | unlocked _ hr' ho' hunlock =>
      obtain ⟨rfl, hmonitor⟩ := htaken hr' ho'
      rw [hmonitor, Monitor.unlock_of_lock hlock] at hunlock
      cases hunlock
      exact Kernel.released_setMonitor hbase ho l
    | gone _ hr' ho' howner =>
      obtain ⟨-, hmonitor⟩ := htaken hr' ho'
      rw [hmonitor] at howner
      exact absurd (Monitor.owner?_of_lock hlock) howner

end Call

namespace Machine

variable {p : Program} {t : ThreadId} {m : Method} {w w' : Work}

theorem objects_of_marks {k : Kernel} {s : ClassStatus} {cs : Array ClassState}
    (h : if m.isSynchronized then k.Marks m s cs else cs = k.classes) :
    cs.map ClassState.object = k.classObjects := by
  split at h
  · exact h.objects
  · rw [h]
    rfl

/-- **Leaving undoes entering.** In a state that is reachable, a thread enters a method, of which
all we know is that it is synchronized if it initializes a class, as such methods are. Then the
thread can leave the method at once. After that the heap is as before, with all monitors, and so are
all other threads. The thread is as before as well, but for the arguments, which are gone from its
frame on top; and the classes are, but for the one that the method initializes, which is
initialized. -/
theorem leave_of_enter (hreach : w.kernel.Reachable p)
    (hm : m.attributes.isClassInit = true → m.isSynchronized = true)
    (h : Call.enter t m w = .ok .entered w') : ∃ g w'', Call.leave t w' = .ok g w'' ∧
      g.method = m ∧ w.kernel.Restored t m w''.kernel ∧ w''.choice = w.choice ∧
      w''.pending = w.pending := by
  obtain ⟨f, receiver, heap, cs, hf, hle, hacquired, hmarks, hclass, hw'⟩ :=
    Call.enter_eq_entered h
  obtain ⟨th, rest, hth, hframes⟩ := Kernel.topFrame_eq_ok.mp hf
  -- the state in which only the arguments are gone and the class is marked
  obtain ⟨base, hbase⟩ : ∃ base : Kernel, base = { w.kernel with classes := cs }.modifyThread t
      (·.setTop { f with operands := f.operands.drop m.argSlots }) := ⟨_, rfl⟩
  obtain ⟨g, hg⟩ : ∃ g, g = Call.activation m receiver (f.operands.take m.argSlots).reverse :=
    ⟨_, rfl⟩
  have hentered : w'.kernel = { base with heap := heap }.modifyThread t (·.pushFrame g) := by
    rw [hw'.kernel, hbase, hg]
    rfl
  have hobjects : base.classObjects = w.kernel.classObjects := by
    rw [hbase]
    exact objects_of_marks hmarks
  obtain ⟨th', hth', hrest⟩ : ∃ th', base.threads[t.index]? = some th' ∧
      w'.kernel.frames t = g :: th'.frames := by
    have hth' : base.threads[t.index]? =
        some (th.setTop { f with operands := f.operands.drop m.argSlots }) := by
      rw [hbase, Kernel.getElem?_modifyThread, if_pos rfl, hth]
      rfl
    refine ⟨_, hth', ?_⟩
    rw [hentered]
    exact Kernel.frames_modifyThread hth' _
  have hleavable : g.Leavable w'.kernel := by
    rw [hg]
    exact Call.leavable_activation hacquired hm hclass (by rw [hentered]; rfl)
      (by rw [hentered]; exact hobjects)
  obtain ⟨w'', hleave⟩ := Call.exists_leave hrest hleavable
  obtain ⟨_, rest', k, cs', hth₁, hframes₁, hreleased, hmarks', hw''⟩ := Call.leave_eq_ok hleave
  refine ⟨g, w'', hleave, by rw [hg]; rfl, ?_, hw''.choice.trans hw'.choice,
    hw''.pending.trans hw'.pending⟩
  have hk : k = base := by
    obtain rfl : rest' = th'.frames := by
      rw [Kernel.frames_of_getElem? hth₁, hframes₁] at hrest
      exact (List.cons.inj hrest).2
    rw [hentered, Kernel.modifyThread_pushFrame { base with heap := heap } hth', hg] at hreleased
    refine Call.eq_of_released ?_ (hacquired.congr ?_ hobjects) hreleased
    · rw [hbase]
      exact hreach.contested.setTop cs _
    · rw [hbase]
      rfl
  have hmarked : w.kernel.Marks m .initialized cs' := by
    rw [hg] at hmarks'
    replace hmarks' : ({ w.kernel with classes := cs } : Kernel).Marks m .initialized cs' :=
      hmarks'.congr (by rw [hentered, hbase]; rfl)
    split at hmarks
    · exact hmarks.again hmarks'
    · rwa [hmarks] at hmarks'
  rw [hw''.kernel, hk, hbase]
  exact .of_marks hth hframes hle hmarked fun hinit => hclass (hm hinit) hinit

/-- One worker of the counter increments in a synchronized method, and the other one is blocked on
the monitor of that method. If the first one enters the method once more and leaves it, the monitor
is still held, and the second one is still blocked. -/
theorem leave_of_enter_syncCounter : ∃ p m th, ∃ inc ∈ p.methods, ∃ w' g w'',
    Demo.syncCounter.run (Program.base .plain) = .ok ((), p) ∧ Driven p {} m ∧ inc.name = "inc" ∧
      m.kernel.threads[2]? = some th ∧ th.status = .blocked ⟨17⟩ ∧
      Call.enter ⟨1⟩ inc { kernel := m.kernel } = .ok .entered w' ∧
      Call.leave ⟨1⟩ w' = .ok g w'' ∧ w''.kernel.heap = m.kernel.heap ∧
      w''.kernel.threads[2]? = some th := by
  obtain ⟨p, m, hbuild, hdriven, htest⟩ := Driven.exists_of_demo Demo.syncCounter
    [0, 0, 1, 1, 2, 2]
    (fun p m => m.kernel.threads[2]?.any (·.status == .blocked ⟨17⟩) && p.methods.any fun f =>
      f.name == "inc" && (!f.attributes.isClassInit && Effect.gives (Call.enter ⟨1⟩ f)
        { kernel := m.kernel } fun e _ => e == .entered)) (by decide +kernel)
  simp only [Bool.and_eq_true, Option.any_eq_true, Array.any_eq_true', beq_iff_eq,
    Bool.not_eq_true', gives_iff] at htest
  obtain ⟨⟨th, hth, hblocked⟩, inc, hinc, hname, hordinary, _, w', henter, rfl⟩ := htest
  obtain ⟨g, w'', hleave, -, hrestored, -⟩ :=
    leave_of_enter hdriven.reachable (by simp [hordinary]) henter
  exact ⟨p, m, th, inc, hinc, w', g, w'', hbuild, hdriven, hname, hth, hblocked, henter, hleave,
    hrestored.heap, (hrestored.others ⟨2⟩ (by decide)).trans hth⟩

end Machine

end Interleave

import Interleave.Proofs.Step.Kept
import Interleave.Step.Unwind

/-!
# Entering and leaving methods

A method is entered by one move, or the thread is blocked and stays in front of its call. A method
is left by one move, after which its class may count as initialized. An exception leaves methods
until one has a handler.
-/

namespace Interleave

open Effect

namespace Call

variable {p : Program} {t : ThreadId} {m : Method} {w w' : Work}

/-! ## Entering -/

/-- The receiver of a call whose arguments are on top of a frame. -/
def Receiver (f : Frame) (m : Method) (r : ObjRef) : Prop :=
  if m.isStatic then r = .null else f.peekRef (m.argSlots - 1) = .ok r

theorem receiver_eq_ok {r : ObjRef} (h : receiver t m w = .ok r w') :
    w' = w ∧ ∀ f, w.kernel.topFrame t = .ok f → Receiver f m r := by
  unfold receiver at h
  unfold Receiver
  split at h
  · rename_i hs
    obtain ⟨rfl, rfl⟩ := pure_eq_ok.mp h
    simp only [hs, if_true, implies_true, and_self]
  · rename_i hs
    simp only [bind_eq_ok, Step.frame_eq_ok, Step.lift_eq_ok] at h
    obtain ⟨f, _, ⟨hf, rfl⟩, hr, rfl⟩ := h
    refine ⟨rfl, fun g hg => ?_⟩
    rw [hf] at hg
    cases hg
    simpa only [hs, Bool.false_eq_true, if_false] using hr

/-- A method that initializes no class marks none. -/
theorem marks_unneeded {k : Kernel} (s : ClassStatus)
    (h : m.attributes.isClassInit = false ∨ m.classId? = none) : k.Marks m s k.classes := by
  refine .unneeded fun c => ?_
  rcases h with h | h <;> simp [Method.isClassInitOf, h]

/-- A method that initializes a class marks it. -/
theorem marks_initializer {k : Kernel} {c : ClassId} (s : ClassStatus)
    (hinit : m.attributes.isClassInit = true) (hc : m.classId? = some c) :
    k.Marks m s (k.marked c s) :=
  .initializer (by simp [Method.isClassInitOf, hinit, hc])

/-- The monitor of a method is taken, or another thread owns it and nothing changes. -/
theorem acquire_eq_ok {receiver : ObjRef} {res : Option ObjRef}
    (h : acquire t m receiver w = .ok res w') :
    (∃ r o, res = some r ∧ w' = w ∧ m.isSynchronized = true ∧
        w.kernel.lockTarget m receiver = .ok r ∧ w.kernel.heap.get? r = some o ∧
        o.monitor.lock t = none) ∨
      ∃ heap cs, res = none ∧ w.kernel.Acquired t m receiver heap ∧
        (if m.isSynchronized then w.kernel.Marks m (.initializing t) cs
          else cs = w.kernel.classes) ∧
        w.Becomes { w.kernel with heap := heap, classes := cs } w' := by
  unfold acquire at h
  cases hs : m.isSynchronized with
  | false =>
    simp only [hs, Bool.not_false, if_true, pure_eq_ok] at h
    obtain ⟨rfl, rfl⟩ := h
    exact .inr ⟨_, w'.kernel.classes, rfl, .unneeded hs, rfl, rfl, rfl, rfl⟩
  | true =>
    simp only [hs, Bool.not_true, Bool.false_eq_true, if_false, bind_eq_ok, Step.kernel_eq_ok,
      Step.lift_eq_ok, Step.lock_eq_ok] at h
    obtain ⟨_, _, ⟨rfl, rfl⟩, r, w₁, ⟨hr, rfl⟩, b, w₂, ⟨o, ho, hlock⟩, h⟩ := h
    rcases hlock with ⟨rfl, hnone, rfl⟩ | ⟨l, rfl, hl, rfl⟩
    · simp only [Bool.not_false, if_true, pure_eq_ok] at h
      exact .inl ⟨r, o, h.1, h.2, rfl, hr, ho, hnone⟩
    · have hacq : w₁.kernel.Acquired t m receiver _ := .locked hs hr ho hl
      simp only [Bool.not_true, Bool.false_eq_true, if_false, bind_eq_ok, Step.emit_eq_ok] at h
      obtain ⟨_, _, rfl, h⟩ := h
      simp only [if_true]
      split at h
      · rename_i hinit
        cases hc : m.classId? with
        | none =>
          simp only [hc, pure_eq_ok] at h
          exact .inr ⟨_, _, h.1, hacq, marks_unneeded _ (.inr hc), h.2 ▸ ⟨rfl, rfl, rfl⟩⟩
        | some c =>
          simp only [hc, bind_eq_ok, Step.setClassStatus_eq_ok, pure_eq_ok] at h
          obtain ⟨_, _, ⟨k', hk', rfl⟩, rfl, rfl⟩ := h
          obtain ⟨-, rfl⟩ := Kernel.setClassStatus_eq_ok.mp hk'
          exact .inr ⟨_, _, rfl, hacq, marks_initializer _ hinit hc, rfl, rfl, rfl⟩
      · rename_i hinit
        obtain ⟨rfl, rfl⟩ := pure_eq_ok.mp h
        exact .inr ⟨_, _, rfl, hacq, marks_unneeded _ (.inl (by simpa using hinit)), rfl, rfl, rfl⟩

/-- The arguments of a method become a frame of it. -/
theorem moveIn_eq_ok {receiver : ObjRef} {u : Unit} (h : moveIn t m receiver w = .ok u w') :
    ∃ f f' g, w.kernel.topFrame t = .ok f ∧ f.SameCall f' ∧ g.method = m ∧
      g.receiver = receiver ∧
      w.Becomes ((w.kernel.modifyThread t (·.setTop f')).modifyThread t (·.pushFrame g)) w' := by
  unfold moveIn at h
  simp only [bind_eq_ok, Step.onFrame_eq_ok, Step.note_eq_ok, Step.pushFrame_eq_ok,
    Step.emit_eq_ok] at h
  obtain ⟨args, _, ⟨f, f', hf, hpop, rfl⟩, _, _, rfl, _, _, ⟨-, rfl⟩, rfl⟩ := h
  exact ⟨f, f', _, hf, Frame.keeps_popSlots _ hpop, rfl, rfl, rfl, rfl, rfl⟩

/-- A thread cannot enter a method, because another one owns the monitor that it needs. -/
structure Refused (k : Kernel) (t : ThreadId) (m : Method) (r : ObjRef) : Prop where
  synchronized : m.isSynchronized = true
  /-- It is the one of this object. -/
  target : ∀ f, k.topFrame t = .ok f →
    ∃ receiver, Receiver f m receiver ∧ k.lockTarget m receiver = .ok r
  /-- The thread cannot have it. -/
  owned : ∃ o, k.heap.get? r = some o ∧ o.monitor.lock t = none

/-- A method is entered with its monitor, or the thread is blocked where it is. -/
theorem enter_changes {e : Entry} (h : enter t m w = .ok e w') :
    (e = .entered ∧ ∃ f f' g heap cs, w.kernel.topFrame t = .ok f ∧ f.SameCall f' ∧ g.method = m ∧
      w.kernel.Acquired t g.method g.receiver heap ∧
      (if g.method.isSynchronized then w.kernel.Marks g.method (.initializing t) cs
        else cs = w.kernel.classes) ∧
      w.Becomes (({ w.kernel with heap := heap, classes := cs }.modifyThread t
        (·.setTop f')).modifyThread t (·.pushFrame g)) w') ∨
      ∃ r, e = .blocked r ∧ Refused w.kernel t m r ∧
        w.Becomes (w.kernel.setStatus t (.blocked r)) w' := by
  unfold enter at h
  obtain ⟨receiver, w₁, hreceiver, h₁⟩ := bind_eq_ok.mp h
  obtain ⟨hw₁, hrecv⟩ := receiver_eq_ok hreceiver
  obtain ⟨res, w₂, hacquire, h₂⟩ := bind_eq_ok.mp h₁
  rw [hw₁] at hacquire
  rcases acquire_eq_ok hacquire with
    ⟨r, o, rfl, rfl, hs, hr, ho, hl⟩ | ⟨heap, cs, rfl, hacq, hmarks, hw₂⟩
  · simp only [bind_eq_ok, Step.modifyThread_eq_ok, Step.note_eq_ok, pure_eq_ok] at h₂
    obtain ⟨_, _, ⟨-, rfl⟩, _, _, rfl, rfl, rfl⟩ := h₂
    refine .inr ⟨r, rfl, ⟨hs, fun f hf => ⟨receiver, hrecv f hf, hr⟩, o, ho, hl⟩, ?_⟩
    exact ⟨rfl, rfl, rfl⟩
  · obtain ⟨_, w₃, hmove, h₃⟩ := bind_eq_ok.mp h₂
    obtain ⟨rfl, rfl⟩ := pure_eq_ok.mp h₃
    obtain ⟨f, f', g, hf, hsame, rfl, rfl, hw₃⟩ := moveIn_eq_ok hmove
    rw [hw₂.kernel] at hf hw₃
    refine .inl ⟨rfl, f, f', g, heap, cs, hf, hsame, rfl, hacq, hmarks, ?_⟩
    exact ⟨hw₃.kernel, hw₃.choice.trans hw₂.choice, hw₃.pending.trans hw₂.pending⟩

/-- A method is entered by a move, if the thread calls it. -/
theorem enter_eq_ok {e : Entry} (hm : w.kernel.Calls p t m) (h : enter t m w = .ok e w') :
    (e = .entered ∧ Work.Moved p t w w') ∨
      ∃ r, e = .blocked r ∧ Refused w.kernel t m r ∧
        w.Becomes (w.kernel.setStatus t (.blocked r)) w' := by
  refine (enter_changes h).imp_left fun ⟨he, f, f', g, heap, cs, hf, hsame, hg, hacq, hmarks, hw'⟩ => ?_
  exact ⟨he, .of_becomes (.enter hf hsame (hg ▸ hm) hacq hmarks) hw'⟩

/-! ## Leaving -/

/-- The monitor of a method that is left is given back, and that is reported; or the thread does not
own it. -/
theorem releaseMonitor_eq_ok {f : Frame} {u : Unit} (h : releaseMonitor t f w = .ok u w') :
    ∃ r o, w.kernel.lockTarget f.method f.receiver = .ok r ∧ w.kernel.heap.get? r = some o ∧
      (o.monitor.owner? ≠ some t ∧ w' = w ∨ ∃ l, o.monitor.unlock t = some l ∧ w' = { w with
        kernel := w.kernel.released r l, events := w.events.push (.objectUnlocked t r) }) := by
  unfold releaseMonitor at h
  simp only [bind_eq_ok, Step.kernel_eq_ok, Step.lift_eq_ok, Step.object_eq_ok] at h
  obtain ⟨_, _, ⟨rfl, rfl⟩, r, _, ⟨hr, rfl⟩, o, _, ⟨ho, rfl⟩, h⟩ := h
  refine ⟨r, o, hr, ho, ?_⟩
  split at h
  · rename_i howned
    simp only [bind_eq_ok, Step.unlock_eq_ok, Step.emit_eq_ok] at h
    obtain ⟨b, _, ⟨o', ho', hunlock⟩, rfl⟩ := h
    rw [ho] at ho'
    cases ho'
    rcases hunlock with ⟨-, hnone, -⟩ | ⟨l, -, hl, rfl⟩
    · -- the owner of a monitor can always release it
      cases hmon : o.monitor with
      | free => simp [hmon, Monitor.isLockedBy, Monitor.owner?] at howned
      | held u n =>
        simp only [hmon, Monitor.isLockedBy, Monitor.owner?, beq_iff_eq, Option.some.injEq]
          at howned
        simp only [hmon, howned, Monitor.unlock, if_true] at hnone
        cases n <;> cases hnone
    · exact .inr ⟨l, hl, rfl⟩
  · rename_i howned
    refine .inl ⟨?_, (pure_eq_ok.mp h).2⟩
    simpa only [Monitor.isLockedBy, beq_iff_eq] using howned

/-- It is recorded that a method has been left, and reported unless the method is a stub. -/
theorem recordExit_eq_ok {u : Unit} (h : recordExit t m w = .ok u w') :
    ∃ cs, w.kernel.Marks m .initialized cs ∧ w' = { w with
      kernel := { w.kernel with classes := cs }
      events := if m.isMachineOwned then w.events else w.events.push (.methodExited t m) } := by
  have hexit : ∀ {w w' : Work},
      (if !m.isMachineOwned then Step.emit (.methodExited t m) else pure ()) w = .ok u w' →
        w' = { w with
          events := if m.isMachineOwned then w.events else w.events.push (.methodExited t m) } := by
    intro w w' h
    cases hm : m.isMachineOwned with
    | false =>
      simp only [hm, Bool.not_false, if_true, Step.emit_eq_ok] at h
      exact h
    | true =>
      simp only [hm, Bool.not_true, Bool.false_eq_true, if_false, pure_eq_ok] at h
      exact h.2
  unfold recordExit at h
  dsimp only at h
  split at h
  · rename_i hinit
    cases hc : m.classId? with
    | none =>
      simp only [hc] at h
      exact ⟨_, marks_unneeded _ (.inr hc), hexit h⟩
    | some c =>
      simp only [hc] at h
      rw [bind_eq_ok] at h
      obtain ⟨_, w₁, hset, h⟩ := h
      obtain ⟨k, hk, rfl⟩ := Step.setClassStatus_eq_ok.mp hset
      obtain ⟨-, rfl⟩ := Kernel.setClassStatus_eq_ok.mp hk
      exact ⟨_, marks_initializer _ hinit hc, hexit h⟩
  · rename_i hinit
    exact ⟨_, marks_unneeded _ (.inl (by simpa using hinit)), hexit h⟩

/-- The frame on top is taken away, then its monitor is given back if there is one, and then it is
recorded that the method has been left. -/
theorem leave_cases {f : Frame} (h : leave t w = .ok f w') : ∃ th rest w₁,
    w.kernel.threads[t.index]? = some th ∧ th.frames = f :: rest ∧
      (f.method.isSynchronized = false ∧ w₁ = { w with
          kernel := w.kernel.modifyThread t fun th => { th with frames := rest } } ∨
        f.method.isSynchronized = true ∧ releaseMonitor t f { w with
          kernel := w.kernel.modifyThread t fun th => { th with frames := rest } } = .ok () w₁) ∧
      recordExit t f.method w₁ = .ok () w' := by
  unfold leave at h
  simp only [bind_eq_ok, Step.kernel_eq_ok, Step.lift_eq_ok, Kernel.thread_eq_ok] at h
  obtain ⟨_, _, ⟨rfl, rfl⟩, th, w₀, ⟨hth, rfl⟩, h⟩ := h
  cases hframes : th.frames with
  | nil => simp [hframes] at h
  | cons top rest =>
    simp only [hframes, bind_eq_ok, Step.modifyKernel_eq_ok] at h
    obtain ⟨_, w₁, rfl, h⟩ := h
    cases hs : top.method.isSynchronized with
    | false =>
      simp only [hs, Bool.false_eq_true, if_false, bind_eq_ok, pure_eq_ok] at h
      obtain ⟨_, w₂, hrecord, rfl, rfl⟩ := h
      exact ⟨th, rest, _, hth, hframes, .inl ⟨hs, rfl⟩, hrecord⟩
    | true =>
      simp only [hs, if_true, bind_eq_ok, pure_eq_ok] at h
      obtain ⟨_, w₂, hrelease, _, w₃, hrecord, rfl, rfl⟩ := h
      exact ⟨th, rest, w₂, hth, hframes, .inr ⟨hs, hrelease⟩, hrecord⟩

/-- What has become of the state when a method has been left. With the monitor, the initialization
of a class may be over. -/
theorem leave_eq_ok {f : Frame} (h : leave t w = .ok f w') : ∃ th rest k cs,
    w.kernel.threads[t.index]? = some th ∧ th.frames = f :: rest ∧
      (w.kernel.modifyThread t fun th => { th with frames := rest }).Released t f.method
        f.receiver k ∧
      w.kernel.Marks f.method .initialized cs ∧ w.Becomes { k with classes := cs } w' := by
  obtain ⟨th, rest, w₁, hth, hframes, hreleased, hexit⟩ := leave_cases h
  obtain ⟨cs, hmarks, rfl⟩ := recordExit_eq_ok hexit
  have hw₁ : ∃ k, (w.kernel.modifyThread t fun th => { th with frames := rest }).Released t f.method
      f.receiver k ∧ w.Becomes k w₁ := by
    rcases hreleased with ⟨hs, rfl⟩ | ⟨hs, hrelease⟩
    · exact ⟨_, .unneeded hs, rfl, rfl, rfl⟩
    · obtain ⟨r, o, hr, ho, ⟨hgone, rfl⟩ | ⟨l, hl, rfl⟩⟩ := releaseMonitor_eq_ok hrelease
      · exact ⟨_, .gone hs hr ho hgone, rfl, rfl, rfl⟩
      · exact ⟨_, .unlocked hs hr ho hl, rfl, rfl, rfl⟩
  obtain ⟨k, hk, hbecomes⟩ := hw₁
  refine ⟨th, rest, k, cs, hth, hframes, hk, ?_, ?_, hbecomes.choice, hbecomes.pending⟩
  · -- the classes have not changed before
    have hclasses : w₁.kernel.classes = w.kernel.classes := hbecomes.kernel ▸ hk.classes
    cases hmarks with
    | unneeded hnone => exact hclasses ▸ .unneeded hnone
    | initializer hinit =>
      unfold Kernel.marked
      rw [hclasses]
      exact .initializer hinit
  · rw [← hbecomes.kernel]

/-- A method is left by a move. -/
theorem keeps_leave : Keeps (Work.Moved p t) (leave t) := by
  intro w f w' h
  obtain ⟨th, rest, k, cs, hth, hframes, hreleased, hmarks, hbecomes⟩ := leave_eq_ok h
  exact .of_becomes (.leave hth hframes hreleased hmarks) hbecomes

/-- Some classes without an initializer have been recorded as initialized. -/
structure Settles (p : Program) (k k' : Kernel) : Prop where
  threads : k'.threads = k.threads
  heap : k'.heap = k.heap
  classObjects : k'.classObjects = k.classObjects
  /-- Classes with an initializer are left alone. -/
  kept : ∀ c m, (p.class? c).bind Class.classInit? = some m → k'.classStatus c = k.classStatus c
  usable : ∀ t c, k.Usable t c → k'.Usable t c

theorem Settles.refl (k : Kernel) : Settles p k k :=
  ⟨rfl, rfl, rfl, fun _ _ _ => rfl, fun _ _ h => h⟩

/-- If no initializer has to run, all classes may be used. -/
theorem initialize?_eq_ok_false {cs : List ClassId} (h : initialize? p t cs w = .ok false w') :
    Settles p w.kernel w'.kernel ∧ ∀ c ∈ cs, w'.kernel.Usable t c := by
  induction cs generalizing w with
  | nil =>
    obtain ⟨-, rfl⟩ := pure_eq_ok.mp h
    exact ⟨.refl _, by simp⟩
  | cons c cs ih =>
    simp only [initialize?, bind_eq_ok, Step.kernel_eq_ok, Step.lift_eq_ok] at h
    obtain ⟨_, _, ⟨rfl, rfl⟩, status, w₀, ⟨hstatus, rfl⟩, h⟩ := h
    split at h
    · rename_i husable
      obtain ⟨hsettles, hall⟩ := ih h
      have hc : w₀.kernel.Usable t c := by
        unfold Kernel.Usable
        rw [hstatus]
        exact husable.imp (congrArg Except.ok) (congrArg Except.ok)
      exact ⟨hsettles, List.forall_mem_cons.mpr ⟨hsettles.usable t c hc, hall⟩⟩
    · cases hm : (p.class? c).bind Class.classInit? with
      | none =>
        simp only [hm, bind_eq_ok, Step.setClassStatus_eq_ok] at h
        obtain ⟨_, _, ⟨k, hk, rfl⟩, h⟩ := h
        obtain ⟨-, rfl⟩ := Kernel.setClassStatus_eq_ok.mp hk
        obtain ⟨hsettles, hall⟩ := ih h
        have hmarked : ∀ t d, w₀.kernel.Usable t d → ({ w₀.kernel with
            classes := w₀.kernel.marked c .initialized } : Kernel).Usable t d := by
          intro t d hd
          unfold Kernel.Usable at hd ⊢
          rw [Kernel.classStatus_marked]
          by_cases hcd : c = d
          · rw [if_pos hcd]
            exact .inl ⟨rfl, hd.elim (fun h => ⟨_, h⟩) fun h => ⟨_, h⟩⟩
          · rw [if_neg hcd, Kernel.classStatus_marked, if_neg hcd]
            exact hd
        have hc : ({ w₀.kernel with classes := w₀.kernel.marked c .initialized } : Kernel).Usable
            t c := by
          refine .inl ?_
          rw [Kernel.classStatus_marked, if_pos rfl]
          exact ⟨rfl, _, hstatus⟩
        refine ⟨⟨hsettles.threads, hsettles.heap,
          hsettles.classObjects.trans (Kernel.map_object_marked _ c _), fun d m hd => ?_,
          fun t d hd => hsettles.usable t d (hmarked t d hd)⟩, List.forall_mem_cons.mpr
          ⟨hsettles.usable t c hc, hall⟩⟩
        have hcd : c ≠ d := by
          rintro rfl
          rw [hm] at hd
          cases hd
        rw [hsettles.kept d m hd]
        exact Kernel.classStatus_marked_of_ne hcd
      | some m =>
        simp only [hm, bind_eq_ok, pure_eq_ok] at h
        obtain ⟨_, _, -, _, _, -, hb, -⟩ := h
        cases hb

/-- If no initializer has to run for a class, the class and its superclasses may be used. -/
theorem initializeClass?_eq_ok_false {c : ClassId} (h : initializeClass? p t c w = .ok false w') :
    Settles p w.kernel w'.kernel ∧ ∀ d ∈ p.chain c, w'.kernel.Usable t d := by
  obtain ⟨hsettles, hall⟩ := initialize?_eq_ok_false h
  exact ⟨hsettles, fun d hd => hall d (List.mem_reverse.mpr hd)⟩

/-! ## Returning -/

/-- Returning to the caller. -/
theorem keeps_doReturn (i : Instruction) : Keeps (Work.Moved p t) (doReturn t i) := by
  refine (Step.keeps_onFrame (Frame.keeps_popSlots _)).bind fun result =>
    keeps_leave.bind fun _ => Step.keeps_kernel.bind fun _ => (Step.keeps_lift _).bind fun th => ?_
  split
  · exact .pure _
  · refine (Step.keeps_onFrame (Frame.keeps_modify ?_)).bind fun _ => .pure _
    exact fun f => ⟨rfl, rfl⟩

/-- Leaving a stub. -/
theorem keeps_stubReturn : Keeps (Work.Moved p t) (stubReturn t) :=
  keeps_leave.bind fun _ => (Step.keeps_note _).bind fun _ => Step.keeps_kernel.bind fun _ =>
    (Step.keeps_lift _).bind fun _ => .pure _

end Call

namespace Unwound

variable {p : Program} {t : ThreadId}

/-- Looking for a handler. -/
theorem keeps_search (r : ObjRef) (c : ClassId) (fs : List Frame) :
    Keeps (Work.Moved p t) (search p t r c fs) := by
  induction fs with
  | nil => exact .throw _
  | cons f rest ih =>
    refine (Step.keeps_lift _).bind fun handler => ?_
    split
    · refine (Step.keeps_lift _).bind fun target =>
        (Step.keeps_onFrame (Frame.keeps_modify ?_)).bind fun _ => .pure _
      exact fun f => ⟨rfl, rfl⟩
    · refine Call.keeps_leave.bind fun _ => ?_
      split
      · exact (Step.keeps_object r).bind fun _ => .pure _
      · exact ih

/-- Dispatching an exception. -/
theorem keeps_unwind (r : ObjRef) : Keeps (Work.Moved p t) (unwind p t r) :=
  (Step.keeps_emit _).bind fun _ => (Step.keeps_object r).bind fun o => Step.keeps_kernel.bind
    fun _ => (Step.keeps_lift _).bind fun th => keeps_search r o.classId th.frames

end Unwound

end Interleave

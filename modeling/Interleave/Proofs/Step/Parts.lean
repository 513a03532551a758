import Interleave.Proofs.Faults
import Interleave.Proofs.Slots
import Interleave.Proofs.Step.Covered
import Interleave.Proofs.Step.Moves
import Interleave.Proofs.Stubs

/-!
# Parts of instructions

Instructions are put together from a few kinds of parts. Some parts look around, or keep books;
some work on the frame on top of their thread, or push stubs on it; some allocate objects whose
slots are blank, and mark objects as shared. Few instructions write a slot, take a monitor, enter a
method or wait, and only the returns and the search for a handler leave frames.

A relation between the states before and after a part of a step admits such a part if the part
keeps it. What all parts of an instruction keep, the instruction keeps. Where a part changes the
state and reports the change, the two make one part: a relation may compare the states with what is
reported.

The parts that leave no frame also need not look for one in vain: a thread that has a frame in front
of such a part has one behind it, and if the part fails, it is for another reason. And what lies
under the frame on top stays there, even if the part fails.
-/

namespace Interleave

open Effect

/-- A heap that grows changes in nothing but the data of objects. -/
theorem Heap.Grows.extends {h h' : Heap} (hgrows : h.Grows h') : h.Extends h' where
  kept r o ho := by
    rcases hgrows.old r o ho with ho' | ho'
    · exact ⟨o, ho', rfl, rfl⟩
    · exact ⟨_, ho', rfl, rfl⟩
  fresh r o' hnone ho' := (hgrows.new r o' hnone ho').2

/-! ## Threads that have a frame -/

namespace Kernel

variable {k k' : Kernel} {t u : ThreadId}

/-- A thread has a frame, and threads bear the numbers of their places. -/
structure Ready (k : Kernel) (t : ThreadId) : Prop where
  frames : k.frames t ≠ []
  ids : ∀ (u : ThreadId) th, k.threads[u.index]? = some th → th.id = u

namespace Ready

theorem exists_topFrame (h : k.Ready t) : ∃ f, k.topFrame t = .ok f := by
  obtain ⟨f, rest, hframes⟩ := List.exists_cons_of_ne_nil h.frames
  exact ⟨f, topFrame_eq_ok_iff.mpr ⟨rest, hframes⟩⟩

theorem exists_thread (h : k.Ready t) : ∃ th, k.threads[t.index]? = some th := by
  obtain ⟨f, rest, hframes⟩ := List.exists_cons_of_ne_nil h.frames
  obtain ⟨th, hth, -⟩ := exists_of_frames hframes
  exact ⟨th, hth⟩

/-- The thread of an object is there. -/
theorem exists_threadOf (h : k.Ready t) {r : ObjRef} (hu : k.threadOf? r = some u) :
    ∃ th, k.threads[u.index]? = some th := by
  obtain ⟨th, hfind, rfl⟩ := Option.map_eq_some_iff.mp hu
  obtain ⟨j, hj⟩ := List.mem_iff_getElem?.mp (Array.mem_of_find?_eq_some hfind).val
  rw [h.ids ⟨j⟩ th (by simpa using hj)]
  exact ⟨th, by simpa using hj⟩

theorem of_threads (h : k.Ready t) (hthreads : k'.threads = k.threads) : k'.Ready t where
  frames := by
    rw [frames_congr hthreads]
    exact h.frames
  ids := by
    rw [hthreads]
    exact h.ids

theorem modifyThread (h : k.Ready t) (u : ThreadId) {g : Thread → Thread}
    (hid : ∀ th, (g th).id = th.id) (hframes : ∀ th, th.frames ≠ [] → (g th).frames ≠ []) :
    (k.modifyThread u g).Ready t where
  frames := by
    by_cases hu : u = t
    · subst hu
      obtain ⟨th, hth⟩ := h.exists_thread
      rw [frames_modifyThread hth]
      exact hframes th (frames_of_getElem? hth ▸ h.frames)
    · rw [frames_modifyThread_of_ne hu]
      exact h.frames
  ids v th' hth' := by
    rw [getElem?_modifyThread] at hth'
    split at hth'
    · obtain ⟨th, hth, rfl⟩ := Option.map_eq_some_iff.mp hth'
      exact (hid th).trans (h.ids v th hth)
    · exact h.ids v th' hth'

theorem wake (h : k.Ready t) (s : ThreadStatus) : (k.wake s).Ready t where
  frames := by
    rw [frames_wake]
    exact h.frames
  ids v th' hth' := by
    rw [getElem?_wake] at hth'
    obtain ⟨th, hth, rfl⟩ := Option.map_eq_some_iff.mp hth'
    rw [← h.ids v th hth]
    split <;> rfl

theorem released (h : k.Ready t) (r : ObjRef) (m : Monitor) : (k.released r m).Ready t := by
  unfold Kernel.released
  have hset : (k.setMonitor r m).Ready t := h.of_threads rfl
  split
  · exact hset
  · exact hset.wake _

theorem addThread (h : k.Ready t) (r : ObjRef) : (k.addThread r).2.Ready t where
  frames := by
    rw [frames_addThread]
    exact h.frames
  ids v th' hth' := by
    rw [getElem?_addThread] at hth'
    split at hth'
    · rename_i hv
      cases hth'
      exact hv.symm
    · exact h.ids v th' hth'

end Ready

end Kernel

namespace Work

/-- The relation admits parts that keep books, and parts that add objects or mark objects as
shared. -/
class Admits (R : Work → Work → Prop) : Prop extends IsPreorder Work R where
  /-- Neither the threads nor the objects change, and nothing is reported. -/
  same : ∀ {w w' : Work}, w'.kernel.threads = w.kernel.threads →
    w'.kernel.heap = w.kernel.heap → w'.events = w.events → R w w'
  heap : ∀ {w : Work} {h : Heap}, w.kernel.heap.Grows h →
    R w { w with kernel := { w.kernel with heap := h } }
  /-- It is reported that an exception is thrown. -/
  thrown : ∀ {w : Work} (t : ThreadId) (r : ObjRef),
    R w { w with events := w.events.push (.exceptionThrown t r) }

/-- The relation admits parts that work on the frame on top of a thread, and parts that push
stubs. -/
class AdmitsFrames (t : ThreadId) (R : Work → Work → Prop) : Prop where
  setTop : ∀ {w : Work} {f f' : Frame}, w.kernel.topFrame t = .ok f → f.SameCall f' →
    R w { w with kernel := w.kernel.modifyThread t (·.setTop f') }
  pushStub : ∀ {w : Work} (f : Frame), f.method.IsStub →
    R w { w with kernel := w.kernel.modifyThread t (·.pushFrame f) }

/-- The relation admits parts that write slots. -/
class AdmitsWrites (R : Work → Work → Prop) : Prop where
  write : ∀ {w : Work} (r : ObjRef) (n : Nat) (v : Slot),
    R w { w with kernel := w.kernel.modifyObject r (·.setSlot n v) }

/-- The relation admits parts by which a thread takes monitors or enters methods of the program,
and parts after which it waits. -/
class AdmitsLocks (p : Program) (t : ThreadId) (R : Work → Work → Prop) : Prop where
  lock : ∀ {w : Work} {r : ObjRef} {o : Object} {m : Monitor}, w.kernel.heap.get? r = some o →
    o.monitor.lock t = some m → R w { w with
      kernel := w.kernel.setMonitor r m, events := w.events.push (.objectLocked t r) }
  enter : ∀ {w : Work} (f : Frame), p.Declares f.method → R w { w with
    kernel := w.kernel.modifyThread t (·.pushFrame f)
    events := w.events.push (.methodEntered t f.method) }
  wait : ∀ {w : Work} {s : ThreadStatus}, s ≠ .terminated →
    R w { w with kernel := w.kernel.setStatus t s }

/-- The relation admits parts by which a thread gives back monitors. -/
class AdmitsUnlocks (t : ThreadId) (R : Work → Work → Prop) : Prop where
  unlock : ∀ {w : Work} {r : ObjRef} {o : Object} {m : Monitor}, w.kernel.heap.get? r = some o →
    o.monitor.unlock t = some m → R w { w with
      kernel := w.kernel.released r m, events := w.events.push (.objectUnlocked t r) }

/-- The relation admits parts by which a thread leaves frames. -/
class AdmitsLeaving (t : ThreadId) (R : Work → Work → Prop) : Prop where
  leave : Keeps R (Call.leave t)

/-- A thread with a stub as its only frame has been added for an object. -/
def started (w : Work) (r : ObjRef) (f : Frame) : Work :=
  { w with
    kernel := ((w.kernel.addThread r).2.markShared r).modifyThread (w.kernel.addThread r).1
      (·.pushFrame f)
    events := w.events.push (.threadStarted (w.kernel.addThread r).1) }

/-- The relation admits starting a thread. -/
class AdmitsStarts (R : Work → Work → Prop) : Prop where
  start : ∀ {w : Work} {r : ObjRef} {f : Frame}, f.method.IsStub → R w (w.started r f)

/-- Any two works are related. -/
def Any (_ _ : Work) : Prop := True

instance : Admits Any where
  refl _ := trivial
  trans _ _ _ _ _ := trivial
  same _ _ _ := trivial
  heap _ := trivial
  thrown _ _ := trivial

instance (t : ThreadId) : AdmitsFrames t Any := ⟨fun _ _ => trivial, fun _ _ => trivial⟩

instance : AdmitsWrites Any := ⟨fun _ _ _ => trivial⟩

instance (p : Program) (t : ThreadId) : AdmitsLocks p t Any :=
  ⟨fun _ _ => trivial, fun _ _ => trivial, fun _ => trivial⟩

instance (t : ThreadId) : AdmitsUnlocks t Any := ⟨fun _ _ => trivial⟩

instance (t : ThreadId) : AdmitsLeaving t Any := ⟨fun _ _ _ _ => trivial⟩

instance : AdmitsStarts Any := ⟨fun _ => trivial⟩

end Work

/-! ## The operations of steps -/

namespace Step

variable {α : Type} {p : Program} {t : ThreadId} {P : α → Prop} {R : Work → Work → Prop}

/-- A part of a step that leaves frames may keep a relation and give only values with `P`, and it
faults only as instructions do. -/
abbrev Leaving (R : Work → Work → Prop) (P : α → Prop) (a : Step α) : Prop :=
  Meets R P (fun e => e.isInner = true) a

/-- If a thread has a frame, it still has one after this part of a step, or the part fails although
it has one. -/
abbrev Grounded (t : ThreadId) (a : Step α) : Prop :=
  Guards (fun w => w.kernel.Ready t) (fun e => e.isMishap = true) a

/-- A part of a step that leaves no frame, keeps a relation, and gives only values with `P`. -/
structure Within (t : ThreadId) (R : Work → Work → Prop) (P : α → Prop) (a : Step α) : Prop extends
    Leaving R P a where
  grounded : Grounded t a
  covering : Covering t a

namespace Within

theorem throw {e : Fault} (he : e.isMishap = true) : Within t R P (throw e : Step α) :=
  ⟨.throw (Fault.isInner_of_isMishap he), .throw he, .throw e⟩

theorem mono {P' : α → Prop} {a : Step α} (h : Within t R P a) (hP : ∀ v, P v → P' v) :
    Within t R P' a :=
  ⟨h.toMeets.mono hP, h.grounded, h.covering⟩

variable [IsPreorder Work R]

theorem pure {v : α} (hv : P v) : Within t R P (pure v : Step α) :=
  ⟨.pure hv, .pure v, .pure v⟩

theorem bind {β : Type} {P' : β → Prop} {a : Step α} {f : α → Step β} (ha : Within t R P a)
    (hf : ∀ v, P v → Within t R P' (f v)) : Within t R P' (a >>= f) where
  toMeets := ha.toMeets.bind fun v hv => (hf v hv).toMeets
  grounded := ha.grounded.bind fun _ v _ _ h => (hf v (ha.gives h)).grounded
  covering := ha.covering.bind fun _ v _ h => (hf v (ha.gives h)).covering

end Within

/-! ### Faults -/

/-- A part that looks for something else than a thread or a frame. -/
theorem seeks_lift {x : Except Fault α} (hx : Fault.Sought x) : Seeks (lift x) := by
  cases x with
  | ok a => exact .pure a
  | error e => exact .throw (hx e rfl)

theorem inwardly_lift {x : Except Fault α} (hx : Fault.Inner x) : Inwardly (lift x) := by
  cases x with
  | ok a => exact .pure a
  | error e => exact .throw (hx e rfl)

theorem seeks_kernel : Seeks kernel := Faults.get.bind fun _ => .pure _

theorem seeks_modifyKernel (f : Kernel → Kernel) : Seeks (modifyKernel f) := .modify _

theorem seeks_object (r : ObjRef) : Seeks (object r) :=
  seeks_kernel.bind fun k => seeks_lift (k.sought_object r)

theorem inwardly_frame (t : ThreadId) : Inwardly (frame t) :=
  seeks_kernel.inwardly.bind fun k => inwardly_lift (k.inner_topFrame t)

theorem inwardly_modifyThread (t : ThreadId) (f : Thread → Thread) :
    Inwardly (modifyThread t f) :=
  seeks_kernel.inwardly.bind fun k => (inwardly_lift (k.inner_thread t)).bind fun _ =>
    (seeks_modifyKernel _).inwardly

theorem seeks_setClassStatus (c : ClassId) (s : ClassStatus) : Seeks (setClassStatus c s) :=
  seeks_kernel.bind fun k => (seeks_lift (k.sought_setClassStatus c s)).bind fun _ =>
    seeks_modifyKernel _

theorem inwardly_onFrame {a : Frame.Action α} (ha : Seeks a) : Inwardly (onFrame t a) := by
  refine (inwardly_frame t).bind fun f => ?_
  cases h : a f with
  | ok v f' => exact (seeks_modifyKernel _).inwardly.bind fun _ => .pure _
  | error e f' => exact (seeks_modifyKernel _).inwardly.bind fun _ => .throw (ha.inwardly h)

theorem seeks_lock (r : ObjRef) (t : ThreadId) : Seeks (lock r t) := by
  refine (seeks_object r).bind fun o => ?_
  cases o.monitor.lock t with
  | none => exact .pure _
  | some m => exact (seeks_modifyKernel _).bind fun _ => .pure _

theorem seeks_unlock (r : ObjRef) (t : ThreadId) : Seeks (unlock r t) := by
  refine (seeks_object r).bind fun o => ?_
  cases o.monitor.unlock t with
  | none => exact .pure _
  | some m =>
    refine (seeks_modifyKernel _).bind fun _ => ?_
    dsimp only
    split
    · exact (seeks_modifyKernel _).bind fun _ => .pure _
    · exact .pure _

/-! ### Threads that are there -/

/-- Looking for a thread that is there. -/
theorem lift_thread {k : Kernel} {u : ThreadId} {th : Thread} (hth : k.threads[u.index]? = some th) :
    lift (k.thread u) = pure th := by
  rw [Kernel.thread_eq_ok.mpr hth]
  rfl

theorem grounded_modifyThread {g : Thread → Thread} (hid : ∀ th, (g th).id = th.id)
    (hframes : ∀ th, th.frames ≠ [] → (g th).frames ≠ []) : Grounded t (modifyThread t g) := by
  refine ⟨fun w u w' hw h => ?_, fun w e w' hw h => ?_⟩
  · obtain ⟨-, rfl⟩ := modifyThread_eq_ok.mp h
    exact hw.modifyThread t hid hframes
  · obtain ⟨th, hth⟩ := hw.exists_thread
    have hok : modifyThread t g w = .ok () { w with kernel := w.kernel.modifyThread t g } :=
      modifyThread_eq_ok.mpr ⟨⟨th, hth⟩, rfl⟩
    rw [hok] at h
    cases h

theorem grounded_frame : Grounded t (frame t) := by
  refine ⟨fun w f w' hw h => ?_, fun w e w' hw h => ?_⟩
  · obtain ⟨-, rfl⟩ := frame_eq_ok.mp h
    exact hw
  · obtain ⟨f, hf⟩ := hw.exists_topFrame
    rw [frame_eq_ok.mpr ⟨hf, rfl⟩] at h
    cases h

theorem grounded_onFrame {a : Frame.Action α} (ha : Seeks a) : Grounded t (onFrame t a) := by
  refine ⟨fun w v w' hw h => ?_, fun w e w' hw h => ?_⟩
  · obtain ⟨f, f', -, -, rfl⟩ := onFrame_eq_ok.mp h
    exact hw.modifyThread t (fun _ => rfl) fun _ _ => List.cons_ne_nil _ _
  · obtain ⟨f, hf⟩ := hw.exists_topFrame
    unfold onFrame at h
    rw [bind_of_ok (frame_eq_ok.mpr ⟨hf, rfl⟩)] at h
    cases hx : a f with
    | ok v f' =>
      simp only [hx] at h
      cases h
    | error e' f' =>
      simp only [hx] at h
      cases h
      exact ha hx

theorem grounded_emit (e : Event) : Grounded t (emit e) := by
  refine .of_faults (fun w u w' hw h => ?_) (.modify _)
  rw [emit_eq_ok.mp h]
  exact hw

/-! ### Frames -/

theorem within_onFrame [Work.AdmitsFrames t R] {a : Frame.Action α}
    (hkeeps : Keeps Frame.SameCall a) (ha : Seeks a) :
    Within t R (fun _ => True) (onFrame t a) where
  keeps w v w' h := by
    obtain ⟨f, f', htop, hf, rfl⟩ := onFrame_eq_ok.mp h
    exact Work.AdmitsFrames.setTop htop (hkeeps hf)
  gives _ _ _ _ := trivial
  faults := inwardly_onFrame ha
  grounded := grounded_onFrame ha
  covering := covering_onFrame a

theorem within_pushStub [Work.AdmitsFrames t R] {f : Frame} (hf : f.method.IsStub) :
    Within t R (fun _ => True) (pushFrame t f) where
  keeps w v w' h := by
    obtain ⟨-, rfl⟩ := pushFrame_eq_ok.mp h
    exact Work.AdmitsFrames.pushStub f hf
  gives _ _ _ _ := trivial
  faults := inwardly_modifyThread t _
  grounded := grounded_modifyThread (g := (·.pushFrame f)) (fun _ => rfl) fun _ _ =>
    List.cons_ne_nil _ _
  covering := covering_pushFrame t f

/-- A method is entered, and that is reported. -/
theorem within_enterFrame [Work.AdmitsLocks p t R] {f : Frame} (hf : p.Declares f.method) :
    Within t R (fun _ => True) (do
      pushFrame t f
      emit (.methodEntered t f.method)) where
  keeps w v w' h := by
    simp only [bind_eq_ok, pushFrame_eq_ok, emit_eq_ok] at h
    obtain ⟨_, _, ⟨-, rfl⟩, rfl⟩ := h
    exact Work.AdmitsLocks.enter (p := p) f hf
  gives _ _ _ _ := trivial
  faults := (inwardly_modifyThread t _).bind fun _ => .modify _
  grounded := (grounded_modifyThread (g := (·.pushFrame f)) (fun _ => rfl) fun _ _ =>
    List.cons_ne_nil _ _).bind fun _ _ _ _ _ => grounded_emit _
  covering := (covering_pushFrame t f).bind fun _ _ _ _ => .of_spares (spares_emit _)

/-- A thread comes to wait. -/
theorem within_setStatus [Work.AdmitsLocks p t R] {s : ThreadStatus} (hs : s ≠ .terminated) :
    Within t R (fun _ => True) (modifyThread t fun th => { th with status := s }) where
  keeps w v w' h := by
    obtain ⟨-, rfl⟩ := modifyThread_eq_ok.mp h
    exact Work.AdmitsLocks.wait (p := p) hs
  gives _ _ _ _ := trivial
  faults := inwardly_modifyThread t _
  grounded := grounded_modifyThread (fun _ => rfl) fun _ h => h
  covering := covering_modifyThread (fun _ _ => by simpa [Thread.isAlive, Thread.isTerminated])
    fun _ _ h => h

section Parts

variable [Work.Admits R]

/-- A part of a step that leaves the threads and the objects as they are, and reports nothing. -/
theorem within_of_same {a : Step α} (hseeks : Seeks a) (hspares : SparesThreads a)
    (h : ∀ w v w', a w = .ok v w' →
      w'.kernel.heap = w.kernel.heap ∧ w'.events = w.events ∧ P v) :
    Within t R P a where
  keeps w v w' hw := by
    obtain ⟨hheap, hevents, -⟩ := h w v w' hw
    exact Work.Admits.same (hspares.eq_of_ok hw) hheap hevents
  gives w v w' hw := (h w v w' hw).2.2
  faults := hseeks.inwardly
  grounded := .of_faults (fun _ _ _ hw ha => hw.of_threads (hspares.eq_of_ok ha)) hseeks
  covering := .of_spares hspares

theorem within_lift {x : Except Fault α} (hx : Fault.Sought x) :
    Within t R (fun a => x = .ok a) (lift x) :=
  within_of_same (seeks_lift hx) (spares_lift x) fun w v w' h => by
    obtain ⟨hv, rfl⟩ := lift_eq_ok.mp h
    exact ⟨rfl, rfl, hv⟩

theorem within_kernel : Within t R (fun _ => True) kernel :=
  within_of_same seeks_kernel spares_kernel fun w v w' h => by
    obtain ⟨-, rfl⟩ := kernel_eq_ok.mp h
    exact ⟨rfl, rfl, trivial⟩

theorem within_frame : Within t R (fun _ => True) (frame t) where
  keeps w v w' h := by
    obtain ⟨-, rfl⟩ := frame_eq_ok.mp h
    exact refl _
  gives _ _ _ _ := trivial
  faults := inwardly_frame t
  grounded := grounded_frame
  covering := .of_spares (spares_frame t)

/-- Looking for a thread. -/
theorem leaving_thread {f : Thread → Step α} (u : ThreadId) (hf : ∀ th, Leaving R P (f th)) :
    Leaving R P (do f (← lift ((← kernel).thread u))) := by
  have hkernel : Within u R (fun _ => True) kernel := within_kernel
  refine hkernel.toMeets.bind fun k _ => Meets.bind (P := fun _ => True) ⟨?_, ?_, ?_⟩
    fun th _ => hf th
  · rintro w th w' h
    obtain ⟨-, rfl⟩ := lift_eq_ok.mp h
    exact refl _
  · exact fun _ _ _ _ => trivial
  · exact inwardly_lift (k.inner_thread u)

theorem within_object (r : ObjRef) : Within t R (fun _ => True) (object r) :=
  within_of_same (seeks_object r) (spares_object r) fun w v w' h => by
    obtain ⟨-, rfl⟩ := object_eq_ok.mp h
    exact ⟨rfl, rfl, trivial⟩

/-- It is reported that an exception is thrown. -/
theorem within_thrown (r : ObjRef) :
    Within t R (fun _ => True) (emit (.exceptionThrown t r)) where
  keeps _ _ _ h := emit_eq_ok.mp h ▸ Work.Admits.thrown t r
  gives _ _ _ _ := trivial
  faults := .modify _
  grounded := grounded_emit _
  covering := .of_spares (spares_emit _)

theorem within_note (f : Transient → Transient) : Within t R (fun _ => True) (note f) :=
  within_of_same (.modify _) (spares_note f) fun w v w' h => by
    rw [note_eq_ok.mp h]
    exact ⟨rfl, rfl, trivial⟩

theorem within_setClassStatus (c : ClassId) (s : ClassStatus) :
    Within t R (fun _ => True) (setClassStatus c s) :=
  within_of_same (seeks_setClassStatus c s) (spares_setClassStatus c s) fun w v w' h => by
    obtain ⟨k, hk, rfl⟩ := setClassStatus_eq_ok.mp h
    obtain ⟨-, rfl⟩ := Kernel.setClassStatus_eq_ok.mp hk
    exact ⟨rfl, rfl, trivial⟩

/-! ### Objects -/

/-- A part of a step that does nothing but add objects or mark objects as shared. -/
theorem within_heap {a : Step α} (hseeks : Seeks a) (hspares : SparesThreads a)
    (h : ∀ w v w', a w = .ok v w' → ∃ h, w.kernel.heap.Grows h ∧
      w' = { w with kernel := { w.kernel with heap := h } } ∧ P v) :
    Within t R P a where
  keeps w v w' ha := by
    obtain ⟨h, hgrows, rfl, -⟩ := h w v w' ha
    exact Work.Admits.heap hgrows
  gives w v w' ha := by
    obtain ⟨-, -, -, hv⟩ := h w v w' ha
    exact hv
  faults := hseeks.inwardly
  grounded := .of_faults (fun _ _ _ hw ha => hw.of_threads (hspares.eq_of_ok ha)) hseeks
  covering := .of_spares hspares

/-- An object may be marked as shared. -/
theorem within_markShared (r : ObjRef) :
    Within t R (fun _ => True) (modifyKernel fun k => k.markShared r) :=
  within_heap (seeks_modifyKernel _) (spares_modifyKernel fun _ => rfl) fun w _ _ h =>
    ⟨_, .marked w.kernel.heap r, modifyKernel_eq_ok.mp h, trivial⟩

theorem seeks_newInstance (c : ClassId) : Seeks (newInstance p t c) := by
  unfold newInstance
  split
  · exact .throw rfl
  · exact fun _ _ _ h => nomatch h

theorem newInstance_eq_ok {c : ClassId} {w w' : Work} {r : ObjRef}
    (h : newInstance p t c w = .ok r w') : ∃ n, r = (w.kernel.heap.allocInstance c n t).1 ∧
      w' = { w with
        kernel := { w.kernel with heap := (w.kernel.heap.allocInstance c n t).2 } } := by
  unfold newInstance at h
  cases hc : p.class? c with
  | none => simp [hc] at h
  | some k =>
    simp only [hc, modifyGet_eq_ok] at h
    obtain ⟨rfl, rfl⟩ := h
    exact ⟨k.instanceFields.length, rfl, rfl⟩

theorem within_newInstance (c : ClassId) : Within t R (fun _ => True) (newInstance p t c) :=
  within_heap (seeks_newInstance c) (spares_newInstance c) fun _ _ _ h => by
    obtain ⟨n, -, hw'⟩ := newInstance_eq_ok h
    exact ⟨_, .allocInstance _ _ _ _, hw', trivial⟩

theorem within_newArray (c : ClassId) (code : TypeCode) (length : Nat) :
    Within t R (fun _ => True) (newArray t c code length) :=
  within_heap (fun _ _ _ h => nomatch h) (spares_newArray c code length) fun _ _ _ h => by
    obtain ⟨-, rfl⟩ := modifyGet_eq_ok.mp h
    exact ⟨_, .allocArray _ _ _ _ _, rfl, trivial⟩

/-! ### Monitors -/

omit [Work.Admits R] in
theorem grounded_lock (r : ObjRef) : Grounded t (lock r t) := by
  refine .of_faults (fun w b w' hw h => ?_) (seeks_lock r t)
  obtain ⟨o, -, ⟨-, -, rfl⟩ | ⟨m, -, -, rfl⟩⟩ := lock_eq_ok.mp h
  · exact hw
  · exact hw.of_threads rfl

omit [Work.Admits R] in
theorem grounded_unlock (r : ObjRef) : Grounded t (unlock r t) := by
  refine .of_faults (fun w b w' hw h => ?_) (seeks_unlock r t)
  obtain ⟨o, -, ⟨-, -, rfl⟩ | ⟨m, -, -, rfl⟩⟩ := unlock_eq_ok.mp h
  · exact hw
  · exact hw.released r m

/-- A part of a step that reports an event. Whatever else it does keeps the relation. -/
structure Reports (t : ThreadId) (R : Work → Work → Prop) (e : Event) (a : Step α) : Prop where
  keeps : ∀ ⦃w v w'⦄, a w = .ok v w' → R { w with events := w.events.push e } w'
  faults : Inwardly a
  grounded : Grounded t a
  covering : Covering t a

theorem reports_emit (e : Event) : Reports t R e (emit e) where
  keeps _ _ _ h := emit_eq_ok.mp h ▸ refl _
  faults := .modify _
  grounded := grounded_emit _
  covering := .of_spares (spares_emit e)

omit [Work.Admits R] in
/-- Work on the frame on top may come first. -/
theorem reports_onFrame [Work.AdmitsFrames t R] {β : Type} {a : Frame.Action β} (e : Event)
    (hkeeps : Keeps Frame.SameCall a) (ha : Seeks a) : Reports t R e (do
      let _ ← onFrame t a
      emit e) where
  keeps w v w' h := by
    simp only [bind_eq_ok, onFrame_eq_ok, emit_eq_ok] at h
    obtain ⟨_, _, ⟨f, f', htop, hf, rfl⟩, rfl⟩ := h
    exact Work.AdmitsFrames.setTop (w := { w with events := w.events.push e }) htop (hkeeps hf)
  faults := (inwardly_onFrame ha).bind fun _ => .modify _
  grounded := (grounded_onFrame ha).bind fun _ _ _ _ _ => grounded_emit e
  covering := (covering_onFrame a).bind fun _ _ _ _ => .of_spares (spares_emit e)

/-- A change of a monitor that is reported, if it can be made. The change and the report together
keep the relation, though either of them alone need not. -/
theorem within_reported {β : Type} {e : Event} {x : Step Bool} {f : Bool → Step α} {a : Step β}
    {g : β → Step α} (hseeks : Seeks x) (hgrounded : Grounded t x) (hcovering : Covering t x)
    (hchange : ∀ w b w', x w = .ok b w' →
      b = false ∧ w' = w ∨ b = true ∧ R w { w' with events := w'.events.push e })
    (hyes : f true = a >>= g) (ha : Reports t R e a) (hg : ∀ v, Within t R P (g v))
    (hno : Within t R P (f false)) : Within t R P (x >>= f) where
  keeps w v w' h := by
    obtain ⟨b, w₁, hx, hrest⟩ := bind_eq_ok.mp h
    rcases hchange w b w₁ hx with ⟨rfl, rfl⟩ | ⟨rfl, hkept⟩
    · exact hno.keeps hrest
    · rw [hyes] at hrest
      obtain ⟨v', w₂, hreport, hrest⟩ := bind_eq_ok.mp hrest
      exact IsTrans.trans _ _ _ hkept
        (IsTrans.trans _ _ _ (ha.keeps hreport) ((hg v').keeps hrest))
  gives w v w' h := by
    obtain ⟨b, w₁, -, h⟩ := bind_eq_ok.mp h
    cases b with
    | false => exact hno.gives h
    | true =>
      rw [hyes] at h
      obtain ⟨v', w₂, -, h⟩ := bind_eq_ok.mp h
      exact (hg v').gives h
  faults := by
    refine hseeks.inwardly.bind fun b => ?_
    cases b with
    | false => exact hno.faults
    | true => exact hyes ▸ ha.faults.bind fun v => (hg v).faults
  grounded := by
    refine hgrounded.bind fun _ b _ _ _ => ?_
    cases b with
    | false => exact hno.grounded
    | true => exact hyes ▸ ha.grounded.bind fun _ v _ _ _ => (hg v).grounded
  covering := by
    refine hcovering.bind fun _ b _ _ => ?_
    cases b with
    | false => exact hno.covering
    | true => exact hyes ▸ ha.covering.bind fun _ v _ _ => (hg v).covering

/-- A thread takes a monitor and reports that, or it cannot have the monitor. -/
theorem within_lock [Work.AdmitsLocks p t R] {β : Type} {r : ObjRef} {f : Bool → Step α}
    {a : Step β} {g : β → Step α} (hyes : f true = a >>= g) (ha : Reports t R (.objectLocked t r) a)
    (hg : ∀ v, Within t R P (g v)) (hno : Within t R P (f false)) :
    Within t R P (lock r t >>= f) := by
  refine within_reported (seeks_lock r t) (grounded_lock r) (.of_spares (spares_lock r t))
    (fun w b w' h => ?_) hyes ha hg hno
  obtain ⟨o, ho, ⟨rfl, -, rfl⟩ | ⟨m, rfl, hm, rfl⟩⟩ := lock_eq_ok.mp h
  · exact .inl ⟨rfl, rfl⟩
  · exact .inr ⟨rfl, Work.AdmitsLocks.lock (p := p) ho hm⟩

/-- A thread gives back a monitor and reports that, or it does not own the monitor. -/
theorem within_unlock [Work.AdmitsUnlocks t R] {β : Type} {r : ObjRef} {f : Bool → Step α}
    {a : Step β} {g : β → Step α} (hyes : f true = a >>= g)
    (ha : Reports t R (.objectUnlocked t r) a) (hg : ∀ v, Within t R P (g v))
    (hno : Within t R P (f false)) : Within t R P (unlock r t >>= f) := by
  refine within_reported (seeks_unlock r t) (grounded_unlock r) (covering_unlock r)
    (fun w b w' h => ?_) hyes ha hg hno
  obtain ⟨o, ho, ⟨rfl, -, rfl⟩ | ⟨m, rfl, hm, rfl⟩⟩ := unlock_eq_ok.mp h
  · exact .inl ⟨rfl, rfl⟩
  · exact .inr ⟨rfl, Work.AdmitsUnlocks.unlock ho hm⟩

/-! ### Flows -/

/-- A flow that does not end the thread. -/
abbrev goesOn (flow : Flow) : Prop := flow ≠ .finish

theorem within_goto (index : Nat) : Within t R goesOn (pure (.goto index)) := .pure (by simp)

theorem within_again : Within t R goesOn (pure .again) := .pure (by simp)

/-- An exception comes with its message. -/
theorem within_raise (className : String) (message : Option String) :
    Within t R goesOn (raise p t className message) := by
  refine (within_lift (p.sought_resolveClass _)).bind fun c _ =>
    within_heap ?_ ?_ fun w v w' h => ?_
  · exact (seeks_newInstance c.id).bind fun r => (seeks_modifyKernel _).bind fun _ => .pure _
  · refine (spares_newInstance c.id).bind fun r => Spares.bind ?_ fun _ => .pure _
    exact spares_modifyKernel fun _ => rfl
  · simp only [bind_eq_ok, modifyKernel_eq_ok, pure_eq_ok] at h
    obtain ⟨r, w₁, hnew, _, _, rfl, rfl, rfl⟩ := h
    obtain ⟨n, rfl, rfl⟩ := newInstance_eq_ok hnew
    exact ⟨_, .allocThrown w.kernel.heap c.id n t message, rfl, by simp⟩

/-! ### Threads -/

/-- A thread with one frame is added. -/
theorem added_eq (r : ObjRef) (f : Frame) (flow : Flow) (w : Work) : (do
    let (u, k) := (← kernel).addThread r
    setKernel (k.markShared r)
    pushFrame u f
    emit (.threadStarted u)
    return flow : Step Flow) w = .ok flow (w.started r f) := by
  refine bind_eq_ok.mpr ⟨w.kernel, w, kernel_eq_ok.mpr ⟨rfl, rfl⟩, ?_⟩
  refine bind_eq_ok.mpr ⟨(), _, setKernel_eq_ok.mpr rfl, bind_eq_ok.mpr ⟨(), _,
    pushFrame_eq_ok.mpr ⟨?_, rfl⟩, bind_eq_ok.mpr ⟨(), _, emit_eq_ok.mpr rfl, rfl⟩⟩⟩
  exact ⟨_, Array.getElem?_push_size⟩

omit [Work.Admits R] in
theorem within_added [Work.AdmitsStarts R] {r : ObjRef} {f : Frame} {flow : Flow}
    (hf : f.method.IsStub) : Within t R (· = flow) (do
      let (u, k) := (← kernel).addThread r
      setKernel (k.markShared r)
      pushFrame u f
      emit (.threadStarted u)
      return flow) where
  keeps w v w' h := by
    rw [added_eq] at h
    cases h
    exact Work.AdmitsStarts.start hf
  gives w v w' h := by
    rw [added_eq] at h
    cases h
    rfl
  faults w e w' h := by
    rw [added_eq] at h
    cases h
  grounded := by
    refine .of_faults (fun w v w' hw h => ?_) fun w e w' h => ?_
    · rw [added_eq] at h
      cases h
      have hadded : ((w.kernel.addThread r).2.markShared r).Ready t :=
        (hw.addThread r).of_threads rfl
      exact hadded.modifyThread _ (fun _ => rfl) fun _ _ => List.cons_ne_nil _ _
    · rw [added_eq] at h
      cases h
  covering below w hw := by
    have hadded : ((w.kernel.addThread r).2.markShared r).AliveWith t (Frame.Cover below) :=
      (hw.addThread r).of_threads rfl
    rw [added_eq]
    exact hadded.modifyThread _ (fun _ h => h) fun _ h => h.push

theorem within_touch (r : ObjRef) : Within t R (fun _ => True) (touch t r) := by
  refine (within_object r).bind fun o _ => ?_
  split
  · exact within_markShared r
  · exact .pure trivial

end Parts

/-! ### Parts that may wait -/

/-- A part of a step whose effect every relation admits that admits the simple parts. -/
abbrev Plain (t : ThreadId) (P : α → Prop) (a : Step α) : Prop :=
  ∀ (R : Work → Work → Prop) [Work.Admits R] [Work.AdmitsFrames t R], Within t R P a

/-- A flow that neither ends the thread nor raises an exception. -/
abbrev stays (flow : Flow) : Prop := goesOn flow ∧ ∀ r, flow ≠ .raise r

/-- A part of a step that may take a monitor, enter a method or come to wait. It does not do so if
it raises an exception. -/
structure Waits (p : Program) (t : ThreadId) (a : Step Flow) : Prop where
  within : ∀ (R : Work → Work → Prop) [Work.Admits R] [Work.AdmitsFrames t R]
    [Work.AdmitsLocks p t R], Within t R goesOn a
  raises : ∀ (R : Work → Work → Prop) [Work.Admits R] [Work.AdmitsFrames t R] ⦃w r w'⦄,
    a w = .ok (.raise r) w' → R w w'

namespace Waits

theorem bind {x : Step α} {f : α → Step Flow} (hx : Plain t P x)
    (hf : ∀ a, P a → Waits p t (f a)) : Waits p t (x >>= f) where
  within R _ _ _ := (hx R).bind fun a ha => (hf a ha).within R
  raises R _ _ w r w' h := by
    obtain ⟨a, w₁, hw₁, h⟩ := bind_eq_ok.mp h
    exact IsTrans.trans _ _ _ ((hx R).keeps hw₁) ((hf a ((hx R).gives hw₁)).raises R h)

/-- What a part does may depend on the state. Where it looks in vain for a thread, its own thread
has no frame. -/
theorem kernel {f : Kernel → Step Flow} (h : ∀ k, Waits p t (f k) ∨
      ¬ k.Ready t ∧ ∃ e : Fault, e.isInner = true ∧ f k = throw e) :
    Waits p t (Step.kernel >>= f) where
  within R _ _ _ := by
    have hkernel : Within t R (fun _ => True) Step.kernel := within_kernel
    refine ⟨hkernel.toMeets.bind fun k _ => ?_, hkernel.grounded.bind fun w k w' hw hk => ?_,
      hkernel.covering.bind fun _ k _ _ => ?_⟩
    · rcases h k with hk | ⟨-, e, he, hk⟩
      · exact (hk.within R).toMeets
      · exact hk ▸ .throw he
    · obtain ⟨rfl, rfl⟩ := kernel_eq_ok.mp hk
      exact (((h _).resolve_right fun hn => hn.1 hw).within R).grounded
    · rcases h k with hk | ⟨-, e, -, hk⟩
      · exact (hk.within R).covering
      · exact hk ▸ .throw e
  raises R _ _ w r w' hw := by
    rw [kernel_bind_eq_ok] at hw
    rcases h w.kernel with hk | ⟨-, e, -, hk⟩
    · exact hk.raises R hw
    · simp [hk] at hw

theorem of_plain {a : Step Flow} (h : Plain t goesOn a) : Waits p t a where
  within R _ _ _ := h R
  raises R _ _ _ _ _ ha := (h R).keeps ha

theorem of_stays {a : Step Flow} (h : ∀ (R : Work → Work → Prop) [Work.Admits R]
      [Work.AdmitsFrames t R] [Work.AdmitsLocks p t R], Within t R stays a) : Waits p t a where
  within R _ _ _ := (h R).mono fun _ hstays => hstays.1
  raises _ _ _ _ r _ ha := absurd rfl (((h Work.Any).gives ha).2 r)

end Waits

end Step

end Interleave

import Interleave.Proofs.Step.Footing

/-!
# Steps overlook the frames of other threads

A step looks at the frames of its own thread only. Of the other threads it sees which objects they
stand for, what they wait for and whether they have ended, and it wakes some of them; their frames
it neither reads nor changes. So a step has the same outcome in two states that differ in nothing
but the frames of another thread, and the states it leaves differ in nothing else.

`Overlooks` says so of two runs of a computation. It is put together from the parts of the
computation, as it is written; every instruction is gone through once.
-/

namespace Interleave

open Effect

/-! ## States with other frames -/

namespace Kernel

variable {k : Kernel} {t u v : ThreadId} {fs : List Frame}

/-- The state in which a thread has these frames. -/
def withFrames (k : Kernel) (t : ThreadId) (fs : List Frame) : Kernel :=
  k.modifyThread t fun th => { th with frames := fs }

/-- States that differ at most in their threads are the same if these are. -/
theorem eq_of_threads {k k' : Kernel} (hheap : k'.heap = k.heap) (hclasses : k'.classes = k.classes)
    (h : ∀ i : Nat, k'.threads[i]? = k.threads[i]?) : k' = k := by
  have hthreads : k'.threads = k.threads := Array.ext_getElem? h
  cases k
  cases k'
  simp_all

theorem thread_withFrames (k : Kernel) (t u : ThreadId) (fs : List Frame) :
    (k.withFrames t fs).thread u =
      (k.thread u).map fun th => if t = u then { th with frames := fs } else th := by
  unfold thread withFrames
  rw [getElem?_modifyThread]
  by_cases h : t = u
  · simp only [if_pos h]
    cases k.threads[u.index]? <;> rfl
  · simp only [if_neg h]
    cases k.threads[u.index]? <;> rfl

theorem thread_withFrames_of_ne (h : t ≠ u) : (k.withFrames t fs).thread u = k.thread u := by
  rw [thread_withFrames]
  simp only [if_neg h]
  cases k.thread u <;> rfl

theorem topFrame_withFrames_of_ne (h : t ≠ u) :
    (k.withFrames t fs).topFrame u = k.topFrame u := by
  unfold topFrame
  rw [thread_withFrames_of_ne h]

/-- Threads stand for the same objects. -/
theorem threadOf?_withFrames (k : Kernel) (t : ThreadId) (fs : List Frame) (r : ObjRef) :
    (k.withFrames t fs).threadOf? r = k.threadOf? r := by
  -- threads are found by what is left of them without their frames
  have hbare : ∀ k : Kernel, k.threadOf? r =
      ((k.threads.map fun th => { th with frames := [] }).find? (·.object == r)).map
        Thread.id := by
    intro k
    rw [Array.find?_map, Option.map_map]
    rfl
  have hsame : ((k.withFrames t fs).threads.map fun th => { th with frames := [] }) =
      k.threads.map fun th => { th with frames := [] } := by
    refine Array.ext_getElem? fun i => ?_
    simp only [withFrames, modifyThread, Array.getElem?_map, Array.getElem?_modify]
    split
    · rw [Option.map_map]
      rfl
    · rfl
  rw [hbare, hbare, hsame]

/-- A change of the state leaves the frames of a thread alone, and does not depend on them. -/
structure Overlooks (u : ThreadId) (g : Kernel → Kernel) : Prop where
  frames : ∀ {k : Kernel} {P : List Frame → Prop}, k.HasFrames u P → (g k).HasFrames u P
  commutes : ∀ (k : Kernel) (fs : List Frame), g (k.withFrames u fs) = (g k).withFrames u fs

namespace Overlooks

/-- A change of another thread. -/
theorem modifyThread (h : u ≠ t) (g : Thread → Thread) :
    Overlooks u (·.modifyThread t g) where
  frames := by
    rintro k P ⟨th, hth, hP⟩
    exact ⟨th, by rw [getElem?_modifyThread, if_neg (Ne.symm h), hth], hP⟩
  commutes k fs := by
    refine eq_of_threads rfl rfl fun i => ?_
    have hindex : u.index ≠ t.index := fun he => h (by cases u; cases t; cases he; rfl)
    simp only [withFrames, Kernel.modifyThread, Array.getElem?_modify]
    split <;> split <;> first | rfl | omega

/-- Who is woken goes on in the same frames. -/
theorem wake (s : ThreadStatus) : Overlooks u (·.wake s) where
  frames := by
    rintro k P ⟨th, hth, hP⟩
    refine ⟨if th.status = s then { th with status := .runnable } else th, ?_, ?_⟩
    · rw [getElem?_wake, hth]
      rfl
    · split <;> exact hP
  commutes k fs := by
    refine eq_of_threads rfl rfl fun i => ?_
    simp only [withFrames, Kernel.modifyThread, Kernel.wake, Array.getElem?_modify,
      Array.getElem?_map]
    split
    · rw [Option.map_map, Option.map_map]
      refine Option.map_congr fun th _ => ?_
      dsimp only [Function.comp_apply]
      split <;> rfl
    · rfl

/-- One change after another. -/
theorem comp {g g' : Kernel → Kernel} (hg : Overlooks u g) (hg' : Overlooks u g') :
    Overlooks u (fun k => g (g' k)) where
  frames h := hg.frames (hg'.frames h)
  commutes k fs := by rw [hg'.commutes, hg.commutes]

/-- A change of the heap that depends on the heap alone. -/
theorem heap (g : Heap → Heap) : Overlooks u (fun k => { k with heap := g k.heap }) where
  frames h := h
  commutes _ _ := rfl

end Overlooks

/-- A thread that is added comes behind those that are there. -/
theorem addThread_withFrames (hu : k.HasFrames u fun _ => True) (fs : List Frame) (r : ObjRef) :
    (k.withFrames u fs).addThread r = ((k.addThread r).1, (k.addThread r).2.withFrames u fs) := by
  obtain ⟨th, hth, -⟩ := hu
  have hlt : u.index < k.threads.size := (Array.getElem?_eq_some_iff.mp hth).1
  refine Prod.ext ?_ (eq_of_threads rfl rfl fun i => ?_)
  · simp [addThread, withFrames, modifyThread]
  · simp only [addThread, withFrames, modifyThread, Array.getElem?_push, Array.getElem?_modify,
      Array.size_modify]
    split
    · split
      · omega
      · rfl
    · rfl

end Kernel

/-- Two works are the same but for the frames of a thread: `fs` in the first, `gs` in the second. -/
structure Work.Beside (u : ThreadId) (fs gs : List Frame) (w w' : Work) : Prop where
  frames : w.kernel.HasFrames u (· = fs)
  eq : w' = { w with kernel := w.kernel.withFrames u gs }

/-! ## Computations -/

namespace Step

variable {α β : Type} {p : Program} {t u : ThreadId}

/-- The outcome of a part of a step does not depend on the frames of a thread, and they are left
alone. -/
def Overlooks (u : ThreadId) (a : Step α) : Prop :=
  ∀ ⦃fs gs : List Frame⦄ ⦃w w' : Work⦄, w.Beside u fs gs w' →
    Agree (Work.Beside u fs gs) (a w) (a w')

namespace Overlooks

theorem pure (v : α) : Overlooks u (pure v : Step α) := fun _ _ _ _ h => .ok h

theorem throw (e : Fault) : Overlooks u (throw e : Step α) := fun _ _ _ _ h => .error h

theorem bind {x : Step α} {f : α → Step β} (hx : Overlooks u x) (hf : ∀ a, Overlooks u (f a)) :
    Overlooks u (x >>= f) :=
  fun _ _ _ _ h => (hx h).bind fun a _ _ h => hf a h

theorem lift (x : Except Fault α) : Overlooks u (lift x) := by
  cases x with
  | ok v => exact .pure v
  | error e => exact .throw e

/-- What is looked up in the state is the same in both. -/
theorem read {g : Kernel → Except Fault α} (hg : ∀ k fs, g (k.withFrames u fs) = g k) :
    Overlooks u (do Step.lift (g (← kernel))) := by
  rintro fs gs w _ ⟨hframes, rfl⟩
  show Agree _ (Step.lift (g w.kernel) w) (Step.lift (g (w.kernel.withFrames u gs)) _)
  rw [hg]
  exact lift _ ⟨hframes, rfl⟩

theorem reads {g : Kernel → Except Fault α} {f : α → Step β}
    (hg : ∀ k fs, g (k.withFrames u fs) = g k) (hf : ∀ a, Overlooks u (f a)) :
    Overlooks u (do f (← Step.lift (g (← kernel)))) := by
  rw [← bind_assoc]
  exact (read hg).bind hf

/-- What is done next is the same for both states. -/
theorem kernel {f : Kernel → Step β} (hf : ∀ k fs, f (k.withFrames u fs) = f k)
    (h : ∀ k, Overlooks u (f k)) : Overlooks u (kernel >>= f) := by
  rintro fs gs w _ ⟨hframes, rfl⟩
  show Agree _ (f w.kernel w) (f (w.kernel.withFrames u gs) _)
  rw [hf]
  exact h _ ⟨hframes, rfl⟩

theorem modifyKernel {g : Kernel → Kernel} (hg : Kernel.Overlooks u g) :
    Overlooks u (modifyKernel g) := by
  rintro fs gs w _ ⟨hframes, rfl⟩
  refine .ok ⟨hg.frames hframes, ?_⟩
  simp only [hg.commutes]

/-- A change of something else than the state of the program. -/
theorem modify {g : Work → Work}
    (hg : ∀ w k, g { w with kernel := k } = { g w with kernel := k }) :
    Overlooks u (modify g : Step PUnit) := by
  rintro fs gs w _ ⟨hframes, rfl⟩
  have hkernel : (g w).kernel = w.kernel := by
    have hsame := congrArg Work.kernel (hg w w.kernel)
    exact hsame
  refine .ok ⟨hkernel ▸ hframes, ?_⟩
  rw [hg, hkernel]

end Overlooks

theorem overlooks_emit (e : Event) : Overlooks u (emit e) := .modify fun _ _ => rfl

theorem overlooks_note (f : Transient → Transient) : Overlooks u (note f) := .modify fun _ _ => rfl

theorem overlooks_object (r : ObjRef) : Overlooks u (object r) := .read fun _ _ => rfl

theorem overlooks_modifyObject (r : ObjRef) (g : Object → Object) :
    Overlooks u (modifyKernel fun k => k.modifyObject r g) :=
  .modifyKernel (.heap fun h => h.modify r g)

theorem overlooks_newInstance (c : ClassId) : Overlooks u (newInstance p t c) := by
  unfold newInstance
  split
  · exact .throw _
  · rintro fs gs w _ ⟨hframes, rfl⟩
    exact .ok ⟨hframes, rfl⟩

theorem overlooks_newArray (c : ClassId) (code : TypeCode) (length : Nat) :
    Overlooks u (newArray t c code length) := by
  rintro fs gs w _ ⟨hframes, rfl⟩
  exact .ok ⟨hframes, rfl⟩

theorem overlooks_setClassStatus (c : ClassId) (s : ClassStatus) :
    Overlooks u (setClassStatus c s) := by
  rintro fs gs w _ ⟨hframes, rfl⟩
  show Agree _ ((lift (w.kernel.setClassStatus c s) >>= setKernel) w)
    ((lift ((w.kernel.withFrames u gs).setClassStatus c s) >>= setKernel) _)
  by_cases hc : c.index < w.kernel.classes.size
  · have hc' : c.index < (w.kernel.withFrames u gs).classes.size := hc
    simp only [Kernel.setClassStatus, if_pos hc, if_pos hc']
    exact .ok ⟨hframes, rfl⟩
  · have hc' : ¬ c.index < (w.kernel.withFrames u gs).classes.size := hc
    simp only [Kernel.setClassStatus, if_neg hc, if_neg hc']
    exact .error ⟨hframes, rfl⟩

theorem overlooks_lock (r : ObjRef) : Overlooks u (lock r t) := by
  refine (overlooks_object r).bind fun o => ?_
  split
  · exact .pure _
  · exact (overlooks_modifyObject r _).bind fun _ => .pure _

theorem overlooks_unlock (r : ObjRef) : Overlooks u (unlock r t) := by
  refine (overlooks_object r).bind fun o => ?_
  split
  · exact .pure _
  · refine (overlooks_modifyObject r _).bind fun _ => ?_
    dsimp only
    split
    · exact (Overlooks.modifyKernel (.wake _)).bind fun _ => .pure _
    · exact .pure _

theorem overlooks_raise (className : String) (message : Option String) :
    Overlooks u (raise p t className message) :=
  (Overlooks.lift _).bind fun _ => (overlooks_newInstance _).bind fun r =>
    (overlooks_modifyObject r _).bind fun _ => .pure _

theorem overlooks_touch (r : ObjRef) : Overlooks u (touch t r) := by
  refine (overlooks_object r).bind fun o => ?_
  split
  · exact overlooks_modifyObject r _
  · exact .pure _

section Frames

variable (hu : u ≠ t)

include hu

theorem overlooks_frame : Overlooks u (frame t) :=
  .read fun _ _ => Kernel.topFrame_withFrames_of_ne hu

theorem overlooks_onFrame (a : Frame.Action α) : Overlooks u (onFrame t a) := by
  have hset : ∀ f' : Frame, Overlooks u (modifyKernel fun k => k.modifyThread t (·.setTop f')) :=
    fun f' => .modifyKernel (.modifyThread hu _)
  refine (overlooks_frame hu).bind fun f => ?_
  split
  · exact (hset _).bind fun _ => .pure _
  · exact (hset _).bind fun _ => .throw _

theorem overlooks_modifyThread (g : Thread → Thread) : Overlooks u (modifyThread t g) := by
  have hsplit : modifyThread t g = (do
      let _ ← lift ((← kernel).thread t)
      modifyKernel fun k => k.modifyThread t g : Step Unit) := by
    funext w
    show (lift (w.kernel.thread t) >>= _) w = (lift (w.kernel.thread t) >>= _) w
    cases w.kernel.thread t <;> rfl
  rw [hsplit]
  exact .reads (fun _ _ => Kernel.thread_withFrames_of_ne hu) fun _ =>
    .modifyKernel (.modifyThread hu g)

theorem overlooks_pushFrame (f : Frame) : Overlooks u (pushFrame t f) :=
  overlooks_modifyThread hu _

end Frames

end Step

/-! ## Instructions on one frame -/

namespace Local

variable {p : Program} {t u : ThreadId}

theorem overlooks_run (hu : u ≠ t) (i : Instruction) : Step.Overlooks u (run p t i) := by
  refine (Step.overlooks_onFrame hu _).bind fun flow => ?_
  cases flow with
  | goto index => exact .pure _
  | raise className message => exact Step.overlooks_raise _ _
  | rethrow r => exact .pure _

end Local

/-! ## Calls -/

namespace Call

variable {p : Program} {t u : ThreadId}

theorem overlooks_acquire (m : Method) (receiver : ObjRef) :
    Step.Overlooks u (acquire t m receiver) := by
  unfold acquire
  dsimp only
  split
  · exact .pure _
  · refine .reads (fun _ _ => rfl) fun target => (Step.overlooks_lock target).bind fun locked => ?_
    split
    · exact .pure _
    · refine (Step.overlooks_emit _).bind fun _ => ?_
      split
      · split
        · exact (Step.overlooks_setClassStatus _ _).bind fun _ => .pure _
        · exact .pure _
      · exact .pure _

theorem overlooks_releaseMonitor (f : Frame) : Step.Overlooks u (releaseMonitor t f) := by
  refine .reads (fun _ _ => rfl) fun target => (Step.overlooks_object target).bind fun o => ?_
  split
  · exact (Step.overlooks_unlock target).bind fun _ => Step.overlooks_emit _
  · exact .pure _

theorem overlooks_recordExit (m : Method) : Step.Overlooks u (recordExit t m) := by
  have hemit : Step.Overlooks u (if !m.isMachineOwned then Step.emit (.methodExited t m)
      else pure ()) := by
    split
    · exact Step.overlooks_emit _
    · exact .pure _
  unfold recordExit
  dsimp only
  split
  · split
    · exact (Step.overlooks_setClassStatus _ _).bind fun _ => hemit
    · exact hemit
  · exact hemit

variable (hu : u ≠ t)

include hu

theorem overlooks_receiver (m : Method) : Step.Overlooks u (receiver t m) := by
  unfold receiver
  split
  · exact .pure _
  · exact (Step.overlooks_frame hu).bind fun f => .lift _

theorem overlooks_moveIn (m : Method) (receiver : ObjRef) :
    Step.Overlooks u (moveIn t m receiver) :=
  (Step.overlooks_onFrame hu _).bind fun _ => (Step.overlooks_note _).bind fun _ =>
    (Step.overlooks_pushFrame hu _).bind fun _ => Step.overlooks_emit _

theorem overlooks_enter (m : Method) : Step.Overlooks u (enter t m) := by
  refine (overlooks_receiver hu m).bind fun receiver =>
    (overlooks_acquire m receiver).bind fun r => ?_
  split
  · exact (Step.overlooks_modifyThread hu _).bind fun _ => (Step.overlooks_note _).bind fun _ =>
      .pure _
  · exact (overlooks_moveIn hu m receiver).bind fun _ => .pure _

theorem overlooks_enterFlow (m : Method) : Step.Overlooks u (enterFlow t m) := by
  refine (overlooks_enter hu m).bind fun e => ?_
  split
  · exact .pure _
  · exact .pure _

theorem overlooks_leave : Step.Overlooks u (leave t) := by
  refine .reads (fun _ _ => Kernel.thread_withFrames_of_ne hu) fun th => ?_
  split
  · exact .throw _
  · refine (Step.Overlooks.modifyKernel (.modifyThread hu _)).bind fun _ => ?_
    dsimp only
    split
    · exact (overlooks_releaseMonitor _).bind fun _ => (overlooks_recordExit _).bind fun _ =>
        .pure _
    · exact (overlooks_recordExit _).bind fun _ => .pure _

theorem overlooks_initialize? (cs : List ClassId) : Step.Overlooks u (initialize? p t cs) := by
  induction cs with
  | nil => exact .pure _
  | cons c cs ih =>
    unfold initialize?
    refine .reads (fun _ _ => rfl) fun status => ?_
    split
    · exact ih
    · split
      · exact (Step.overlooks_setClassStatus _ _).bind fun _ => ih
      · exact (Step.Overlooks.lift _).bind fun stub =>
          (Step.overlooks_pushFrame hu _).bind fun _ => .pure _

theorem overlooks_initializeClass? (c : ClassId) :
    Step.Overlooks u (initializeClass? p t c) :=
  overlooks_initialize? hu _

theorem overlooks_runClassInit (i : Instruction) (c : Class) :
    Step.Overlooks u (runClassInit t i c) := by
  unfold runClassInit
  split
  · exact (Step.overlooks_setClassStatus _ _).bind fun _ => .pure _
  · exact overlooks_enterFlow hu _

theorem overlooks_invokeClassInit (i : Instruction) :
    Step.Overlooks u (invokeClassInit p t i) := by
  have hinit : ∀ c, Step.Overlooks u (runClassInit t i c) := overlooks_runClassInit hu i
  refine (Step.Overlooks.lift _).bind fun name => (Step.Overlooks.lift _).bind fun c =>
    .reads (fun _ _ => rfl) fun status => ?_
  dsimp only
  split
  · exact .pure _
  · split
    · refine (overlooks_initializeClass? hu _).bind fun pushed => ?_
      split
      · exact .pure _
      · exact hinit c
    · exact hinit c

theorem overlooks_invokeNative (i : Instruction) (m : Method) :
    Step.Overlooks u (invokeNative p t i m) := by
  have hchosen : ∀ c : Choice, Step.Overlooks u (do
      modify fun w : Work => { w with choice := none }
      Step.onFrame t do
        let _ ← Frame.popSlots m.argSlots
        if 0 < m.resultSlots then
          modify fun f => { f with operands := c.toSlots.reverse ++ f.operands }
      pure (Flow.goto i.nextIndex)) := fun c =>
    (Step.Overlooks.modify fun _ _ => rfl).bind fun _ =>
      (Step.overlooks_onFrame hu _).bind fun _ => .pure _
  have hasked : ∀ s : ValueSource, Step.Overlooks u (do
      let domain ← Step.lift (sourceDomain m s (← Step.frame t))
      modify fun w : Work => { w with pending := some { id := "nondet." ++ m.name, domain } }
      pure Flow.again) := fun s =>
    (Step.overlooks_frame hu).bind fun f => (Step.Overlooks.lift _).bind fun domain =>
      (Step.Overlooks.modify fun _ _ => rfl).bind fun _ => .pure _
  unfold invokeNative
  split
  · exact Step.overlooks_raise _ _
  · rename_i s hs
    -- whether a choice waits is the same for both works
    rintro fs gs ⟨k, choice, pending, events, transient⟩ w' h
    obtain rfl := h.eq
    cases choice with
    | none => exact hasked s h
    | some c => exact hchosen c h

theorem overlooks_callMethod (i : Instruction) : Step.Overlooks u (callMethod p t i) := by
  refine (Step.overlooks_frame hu).bind fun f => .reads (fun _ _ => rfl) fun target => ?_
  split
  · exact (Step.Overlooks.lift _).bind fun r => Step.overlooks_raise _ _
  · refine (Step.overlooks_note _).bind fun _ => ?_
    split
    · exact Step.overlooks_raise _ _
    · split
      · exact overlooks_invokeNative hu i _
      · exact overlooks_enterFlow hu _

theorem overlooks_invoke (i : Instruction) : Step.Overlooks u (invoke p t i) := by
  unfold invoke
  dsimp only
  split
  · refine (Step.Overlooks.lift _).bind fun r => (Step.Overlooks.lift _).bind fun c =>
      (overlooks_initializeClass? hu c.id).bind fun pushed => ?_
    split
    · exact .pure _
    · exact overlooks_callMethod hu i
  · exact overlooks_callMethod hu i

theorem overlooks_doReturn (i : Instruction) : Step.Overlooks u (doReturn t i) := by
  refine (Step.overlooks_onFrame hu _).bind fun result => (overlooks_leave hu).bind fun _ =>
    .reads (fun _ _ => Kernel.thread_withFrames_of_ne hu) fun th => ?_
  split
  · exact .pure _
  · exact (Step.overlooks_onFrame hu _).bind fun _ => .pure _

theorem overlooks_stubReturn : Step.Overlooks u (stubReturn t) :=
  (overlooks_leave hu).bind fun _ => (Step.overlooks_note _).bind fun _ =>
    .reads (fun _ _ => Kernel.thread_withFrames_of_ne hu) fun _ => .pure _

end Call

/-! ## Objects, fields and arrays -/

namespace Memory

variable {p : Program} {t u : ThreadId}

theorem overlooks_writeField (r : ObjRef) (slot : Nat) (v : Slot) (form : ObjectForm) :
    Step.Overlooks u (writeField r slot v form) :=
  (Step.overlooks_object r).bind fun _ => (Step.Overlooks.lift _).bind fun _ =>
    Step.overlooks_modifyObject r _

/-- What comes behind a store that may have to publish its value. -/
theorem overlooks_published {b : Bool} (v : Slot) (index : Nat) : Step.Overlooks u (do
    if b then publish v
    pure (Flow.goto index)) := by
  dsimp only
  split
  · exact (Step.overlooks_modifyObject _ _).bind fun _ => .pure _
  · exact .pure _

theorem overlooks_elements (r : ObjRef) : Step.Overlooks u (elements r) := by
  refine (Step.overlooks_object r).bind fun o => ?_
  split
  · exact .pure _
  · exact .throw _

variable (hu : u ≠ t)

include hu

theorem overlooks_staticSlot (r : FieldRef) : Step.Overlooks u (staticSlot p t r) := by
  refine (Step.Overlooks.lift _).bind fun cf =>
    (Call.overlooks_initializeClass? hu cf.1).bind fun pushed => ?_
  split
  · exact .pure _
  · exact .reads (fun _ _ => rfl) fun r => .pure _

theorem overlooks_new (i : Instruction) : Step.Overlooks u (new p t i) := by
  refine (Step.Overlooks.lift _).bind fun name => (Step.Overlooks.lift _).bind fun c =>
    (Call.overlooks_initializeClass? hu c.id).bind fun pushed => ?_
  split
  · exact .pure _
  · exact (Step.overlooks_newInstance c.id).bind fun r =>
      (Step.overlooks_onFrame hu _).bind fun _ => .pure _

theorem overlooks_getField (i : Instruction) : Step.Overlooks u (getField p t i) := by
  refine (Step.Overlooks.lift _).bind fun r => (Step.Overlooks.lift _).bind fun f =>
    (Step.overlooks_onFrame hu _).bind fun obj => ?_
  split
  · exact Step.overlooks_raise _ _
  · exact (Step.overlooks_touch obj).bind fun _ => (Step.overlooks_object obj).bind fun o =>
      (Step.Overlooks.lift _).bind fun v => (Step.overlooks_onFrame hu _).bind fun _ => .pure _

theorem overlooks_putField (i : Instruction) : Step.Overlooks u (putField p t i) := by
  refine (Step.Overlooks.lift _).bind fun r => (Step.Overlooks.lift _).bind fun f =>
    (Step.overlooks_onFrame hu _).bind fun v => (Step.overlooks_onFrame hu _).bind fun obj => ?_
  split
  · exact Step.overlooks_raise _ _
  · exact (Step.overlooks_touch obj).bind fun _ =>
      (overlooks_writeField obj f.slot v _).bind fun _ => (Step.overlooks_object obj).bind fun o =>
        overlooks_published v _

theorem overlooks_getStatic (i : Instruction) : Step.Overlooks u (getStatic p t i) := by
  refine (Step.Overlooks.lift _).bind fun r => (overlooks_staticSlot hu r).bind fun slot => ?_
  split
  · exact .pure _
  · exact (Step.overlooks_object _).bind fun o => (Step.Overlooks.lift _).bind fun v =>
      (Step.overlooks_onFrame hu _).bind fun _ => .pure _

theorem overlooks_putStatic (i : Instruction) : Step.Overlooks u (putStatic p t i) := by
  refine (Step.Overlooks.lift _).bind fun r => (overlooks_staticSlot hu r).bind fun slot => ?_
  split
  · exact .pure _
  · exact (Step.overlooks_onFrame hu _).bind fun v =>
      (overlooks_writeField _ _ v _).bind fun _ => overlooks_published v _

theorem overlooks_newArray (i : Instruction) : Step.Overlooks u (newArray p t i) := by
  refine (Step.Overlooks.lift _).bind fun code =>
    (Step.overlooks_onFrame hu _).bind fun length => ?_
  split
  · exact Step.overlooks_raise _ _
  · exact (Step.Overlooks.lift _).bind fun c => (Step.overlooks_newArray _ _ _).bind fun r =>
      (Step.overlooks_onFrame hu _).bind fun _ => .pure _

theorem overlooks_arrayLength (i : Instruction) : Step.Overlooks u (arrayLength p t i) := by
  refine (Step.overlooks_onFrame hu _).bind fun r => ?_
  split
  · exact Step.overlooks_raise _ _
  · exact (overlooks_elements r).bind fun es => (Step.overlooks_onFrame hu _).bind fun _ => .pure _

theorem overlooks_loadElement (i : Instruction) : Step.Overlooks u (loadElement p t i) := by
  refine (Step.overlooks_onFrame hu _).bind fun index =>
    (Step.overlooks_onFrame hu _).bind fun r => ?_
  split
  · exact Step.overlooks_raise _ _
  · refine (overlooks_elements r).bind fun es => ?_
    split
    · exact Step.overlooks_raise _ _
    · exact (Step.overlooks_touch r).bind fun _ => (Step.overlooks_onFrame hu _).bind fun _ =>
        .pure _

theorem overlooks_storeElement (i : Instruction) : Step.Overlooks u (storeElement p t i) := by
  refine (Step.overlooks_onFrame hu _).bind fun v => (Step.overlooks_onFrame hu _).bind fun index =>
    (Step.overlooks_onFrame hu _).bind fun r => ?_
  split
  · exact Step.overlooks_raise _ _
  · refine (overlooks_elements r).bind fun es => ?_
    split
    · exact Step.overlooks_raise _ _
    · exact (Step.overlooks_touch r).bind fun _ => (Step.overlooks_modifyObject r _).bind fun _ =>
        (Step.overlooks_object r).bind fun o => overlooks_published v _

end Memory

/-! ## Monitors and threads -/

namespace Waiting

variable {p : Program} {t u : ThreadId}

/-- A thread that is started comes behind the others. -/
theorem overlooks_added (r : ObjRef) (f : Frame) (flow : Flow) : Step.Overlooks u (do
    let (v, k) := (← Step.kernel).addThread r
    Step.setKernel (k.markShared r)
    Step.pushFrame v f
    Step.emit (.threadStarted v)
    return flow) := by
  rintro fs gs w _ ⟨hframes, rfl⟩
  rw [Step.added_eq, Step.added_eq]
  obtain ⟨th, hth, hfs⟩ := hframes
  have hlt : u.index < w.kernel.threads.size := (Array.getElem?_eq_some_iff.mp hth).1
  have hne : u ≠ (w.kernel.addThread r).1 := fun he => by
    rw [he] at hlt
    exact Nat.lt_irrefl _ hlt
  have hpush : Kernel.Overlooks u (·.modifyThread (w.kernel.addThread r).1 (·.pushFrame f)) :=
    .modifyThread hne _
  refine .ok ⟨hpush.frames ⟨th, ?_, hfs⟩, ?_⟩
  · show (w.kernel.addThread r).2.threads[u.index]? = some th
    rw [Kernel.getElem?_addThread, if_neg hne, hth]
  · simp only [Work.started, Kernel.addThread_withFrames ⟨th, hth, trivial⟩, ← hpush.commutes]
    rfl

variable (hu : u ≠ t)

include hu

theorem overlooks_monitorEnter (i : Instruction) : Step.Overlooks u (monitorEnter p t i) := by
  refine (Step.overlooks_frame hu).bind fun f => (Step.Overlooks.lift _).bind fun r => ?_
  split
  · exact (Step.overlooks_onFrame hu _).bind fun _ => Step.overlooks_raise _ _
  · refine (Step.overlooks_lock r).bind fun locked => ?_
    split
    · exact (Step.overlooks_onFrame hu _).bind fun _ =>
        (Step.overlooks_emit _).bind fun _ => .pure _
    · exact (Step.overlooks_modifyThread hu _).bind fun _ => .pure _

theorem overlooks_monitorExit (i : Instruction) : Step.Overlooks u (monitorExit p t i) := by
  refine (Step.overlooks_onFrame hu _).bind fun r => ?_
  split
  · exact Step.overlooks_raise _ _
  · refine (Step.overlooks_unlock r).bind fun unlocked => ?_
    split
    · exact (Step.overlooks_emit _).bind fun _ => .pure _
    · exact Step.overlooks_raise _ _

theorem overlooks_threadStart (i : Instruction) : Step.Overlooks u (threadStart p t i) := by
  refine (Step.overlooks_onFrame hu _).bind fun r => ?_
  split
  · exact Step.overlooks_raise _ _
  · refine .kernel (fun k fs => by simp only [Kernel.threadOf?_withFrames]) fun k => ?_
    split
    · exact Step.overlooks_raise _ _
    · refine (Step.overlooks_object r).bind fun o => ?_
      split
      · exact .throw _
      · exact (Step.Overlooks.lift _).bind fun stub => overlooks_added r _ _

/-- Whether a thread has ended is to be seen without looking at its frames. -/
theorem overlooks_threadJoin (i : Instruction) : Step.Overlooks u (threadJoin p t i) := by
  have hgo : Step.Overlooks u (do
      let _ ← Step.onFrame t Frame.pop
      return Flow.goto i.nextIndex) := (Step.overlooks_onFrame hu _).bind fun _ => .pure _
  refine (Step.overlooks_frame hu).bind fun f => (Step.Overlooks.lift _).bind fun r => ?_
  split
  · exact (Step.overlooks_onFrame hu _).bind fun _ => Step.overlooks_raise _ _
  · refine .kernel (fun k fs => ?_) fun k => ?_
    · dsimp only
      rw [Kernel.threadOf?_withFrames]
      split
      · rename_i v _
        rw [Kernel.thread_withFrames]
        cases k.thread v with
        | error e => rfl
        | ok other => by_cases hv : u = v <;> simp [hv] <;> rfl
      · rfl
    · dsimp only
      split
      · refine (Step.Overlooks.lift _).bind fun other => ?_
        split
        · exact (Step.overlooks_modifyThread hu _).bind fun _ => .pure _
        · exact hgo
      · exact hgo

end Waiting

/-! ## Exceptions -/

namespace Unwound

variable {p : Program} {t u : ThreadId} (hu : u ≠ t)

include hu

theorem overlooks_search (r : ObjRef) (c : ClassId) (fs : List Frame) :
    Step.Overlooks u (search p t r c fs) := by
  induction fs with
  | nil => exact .throw _
  | cons f rest ih =>
    refine (Step.Overlooks.lift _).bind fun handler => ?_
    split
    · exact (Step.Overlooks.lift _).bind fun target => (Step.overlooks_onFrame hu _).bind fun _ =>
        .pure _
    · refine (Call.overlooks_leave hu).bind fun _ => ?_
      split
      · exact (Step.overlooks_object r).bind fun o => .pure _
      · exact ih

theorem overlooks_unwind (r : ObjRef) : Step.Overlooks u (unwind p t r) :=
  (Step.overlooks_emit _).bind fun _ => (Step.overlooks_object r).bind fun _ =>
    .reads (fun _ _ => Kernel.thread_withFrames_of_ne hu) fun _ => overlooks_search hu r _ _

end Unwound

/-! ## Steps -/

namespace Step

variable {p : Program} {t u : ThreadId} (hu : u ≠ t)

include hu

theorem overlooks_execute (i : Instruction) : Overlooks u (execute p t i) := by
  unfold execute
  split
  · exact Memory.overlooks_new hu i
  · exact Memory.overlooks_getField hu i
  · exact Memory.overlooks_putField hu i
  · exact Memory.overlooks_getStatic hu i
  · exact Memory.overlooks_putStatic hu i
  · exact Memory.overlooks_newArray hu i
  · exact Memory.overlooks_newArray hu i
  · exact Memory.overlooks_arrayLength hu i
  · exact Memory.overlooks_loadElement hu i
  · exact Memory.overlooks_loadElement hu i
  · exact Memory.overlooks_storeElement hu i
  · exact Memory.overlooks_storeElement hu i
  · exact Call.overlooks_invoke hu i
  · exact Call.overlooks_invoke hu i
  · exact Call.overlooks_invoke hu i
  · exact Call.overlooks_invokeClassInit hu i
  · exact Call.overlooks_stubReturn hu
  · exact Call.overlooks_doReturn hu i
  · exact Call.overlooks_doReturn hu i
  · exact Call.overlooks_doReturn hu i
  · exact Call.overlooks_doReturn hu i
  · exact Call.overlooks_doReturn hu i
  · exact Waiting.overlooks_monitorEnter hu i
  · exact Waiting.overlooks_monitorExit hu i
  · exact Waiting.overlooks_threadStart hu i
  · exact Waiting.overlooks_threadJoin hu i
  · exact Local.overlooks_run hu i

theorem overlooks_follow (flow : Flow) : Overlooks u (follow p t flow) := by
  cases flow with
  | goto index => exact (overlooks_onFrame hu _).bind fun _ => .pure _
  | raise r =>
    refine (Unwound.overlooks_unwind hu r).bind fun outcome => ?_
    cases outcome with
    | handled => exact .pure _
    | escaped record => exact .pure _
  | called => exact .pure _
  | returned => exact .pure _
  | again => exact .pure _
  | finish => exact .pure _

/-- **Steps overlook the frames of other threads.** An instruction has the same outcome in two
states that differ in nothing but the frames of a thread that does not run it, and the states that
it leaves differ in nothing else. -/
theorem overlooks_perform (i : Instruction) : Overlooks u (perform p t i) :=
  (overlooks_execute hu i).bind fun flow => overlooks_follow hu flow

end Step

end Interleave

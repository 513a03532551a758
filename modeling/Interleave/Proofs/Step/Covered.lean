import Interleave.Proofs.Step.Operations

/-!
# What lies under the frame on top

Most parts of a step work on the frame on top of their thread at most, and push frames. The frames
under that one stay as they are, with some frame above them, and the thread does not end. This is so
whatever comes of such a part: a fault may leave the frame on top half changed, but it does not
reach the frames below.
-/

namespace Interleave

open Effect

/-- Some frames are there above these. -/
structure Frame.Cover (below fs : List Frame) : Prop where
  top : fs ≠ []
  kept : below <:+ fs.tail

namespace Frame.Cover

variable {below fs : List Frame} {f : Frame}

theorem cons (h : below <:+ fs) : Cover below (f :: fs) := ⟨List.cons_ne_nil f fs, h⟩

theorem below_suffix (h : Cover below fs) : below <:+ fs := h.kept.trans (List.tail_suffix fs)

/-- Another frame on top covers the same frames. -/
theorem setTop (h : Cover below fs) : Cover below (f :: fs.tail) := .cons h.kept

theorem push (h : Cover below fs) : Cover below (f :: fs) := .cons h.below_suffix

end Frame.Cover

namespace Kernel

/-- A thread has not ended, and `P` holds of its frames. -/
def AliveWith (k : Kernel) (t : ThreadId) (P : List Frame → Prop) : Prop :=
  ∃ th, k.threads[t.index]? = some th ∧ th.isAlive = true ∧ P th.frames

namespace AliveWith

variable {k k' : Kernel} {t : ThreadId} {P P' : List Frame → Prop}

theorem frames (h : k.AliveWith t P) : P (k.frames t) := by
  obtain ⟨th, hth, -, hP⟩ := h
  rw [frames_of_getElem? hth]
  exact hP

theorem mono (h : k.AliveWith t P) (hP : ∀ fs, P fs → P' fs) : k.AliveWith t P' :=
  h.imp fun _ ⟨hth, halive, hfs⟩ => ⟨hth, halive, hP _ hfs⟩

theorem of_threads (h : k.AliveWith t P) (hthreads : k'.threads = k.threads) :
    k'.AliveWith t P := by
  unfold AliveWith
  rw [hthreads]
  exact h

/-- The thread itself may get other frames. -/
theorem modifyOwn (h : k.AliveWith t P) {g : Thread → Thread}
    (halive : ∀ th, th.isAlive = true → (g th).isAlive = true)
    (hframes : ∀ th, P th.frames → P' (g th).frames) : (k.modifyThread t g).AliveWith t P' := by
  obtain ⟨th, hth, hlives, hP⟩ := h
  refine ⟨g th, ?_, halive th hlives, hframes th hP⟩
  rw [getElem?_modifyThread, if_pos rfl, hth]
  rfl

theorem modifyThread (h : k.AliveWith t P) (u : ThreadId) {g : Thread → Thread}
    (halive : ∀ th, th.isAlive = true → (g th).isAlive = true)
    (hframes : ∀ th, P th.frames → P (g th).frames) : (k.modifyThread u g).AliveWith t P := by
  by_cases hu : u = t
  · exact hu ▸ (hu ▸ h).modifyOwn halive hframes
  · obtain ⟨th, hth, hlives, hP⟩ := h
    refine ⟨th, ?_, hlives, hP⟩
    rw [getElem?_modifyThread, if_neg hu, hth]

/-- Only those are woken that wait, and they stay in their frames. -/
theorem wake (h : k.AliveWith t P) (s : ThreadStatus) : (k.wake s).AliveWith t P := by
  obtain ⟨th, hth, hlives, hP⟩ := h
  refine ⟨if th.status = s then { th with status := .runnable } else th, ?_, ?_, ?_⟩
  · rw [getElem?_wake, hth]
    rfl
  · split
    · rfl
    · exact hlives
  · split <;> exact hP

theorem addThread (h : k.AliveWith t P) (r : ObjRef) : (k.addThread r).2.AliveWith t P := by
  obtain ⟨th, hth, hlives, hP⟩ := h
  refine ⟨th, ?_, hlives, hP⟩
  have hlt : t.index < k.threads.size := (Array.getElem?_eq_some_iff.mp hth).1
  rw [getElem?_addThread, if_neg, hth]
  rintro rfl
  exact Nat.lt_irrefl _ hlt

end AliveWith

end Kernel

namespace Step

variable {α β : Type} {p : Program} {t : ThreadId} {P : List Frame → Prop}

/-! ## Parts that leave the threads alone -/

/-- Whatever comes of this part of a step, the threads stay as they are. -/
abbrev SparesThreads (a : Step α) : Prop := Spares (fun w => w.kernel.threads) a

theorem spares_lift (x : Except Fault α) : SparesThreads (lift x) := by
  cases x with
  | ok a => exact .pure a
  | error e => exact .throw e

theorem spares_kernel : SparesThreads kernel := Spares.get.bind fun _ => .pure _

theorem spares_modifyKernel {f : Kernel → Kernel} (hf : ∀ k, (f k).threads = k.threads) :
    SparesThreads (modifyKernel f) := .modify fun w => hf w.kernel

theorem spares_object (r : ObjRef) : SparesThreads (object r) :=
  spares_kernel.bind fun k => spares_lift (k.object r)

theorem spares_frame (t : ThreadId) : SparesThreads (frame t) :=
  spares_kernel.bind fun k => spares_lift (k.topFrame t)

theorem spares_emit (e : Event) : SparesThreads (emit e) := .modify fun _ => rfl

theorem spares_note (f : Transient → Transient) : SparesThreads (note f) := .modify fun _ => rfl

theorem spares_setClassStatus (c : ClassId) (s : ClassStatus) :
    SparesThreads (setClassStatus c s) := by
  intro w
  show (leaves ((lift (w.kernel.setClassStatus c s) >>= setKernel) w)).kernel.threads = _
  cases hk : w.kernel.setClassStatus c s with
  | ok k =>
    obtain ⟨-, rfl⟩ := Kernel.setClassStatus_eq_ok.mp hk
    rfl
  | error e => rfl

theorem spares_newInstance (c : ClassId) : SparesThreads (newInstance p t c) := by
  unfold newInstance
  split
  · exact .throw _
  · exact fun _ => rfl

theorem spares_newArray (c : ClassId) (code : TypeCode) (length : Nat) :
    SparesThreads (newArray t c code length) := fun _ => rfl

theorem spares_setMonitor (r : ObjRef) (m : Monitor) :
    SparesThreads (modifyKernel fun k => k.setMonitor r m) := spares_modifyKernel fun _ => rfl

theorem spares_lock (r : ObjRef) (t : ThreadId) : SparesThreads (lock r t) := by
  refine (spares_object r).bind fun o => ?_
  cases o.monitor.lock t with
  | none => exact .pure false
  | some m => exact (spares_setMonitor r m).bind fun _ => .pure true

theorem upholds_of_spares {a : Step α} (h : SparesThreads a) :
    Upholds (fun w => w.kernel.AliveWith t P) a :=
  h.upholds (I := fun ths => Kernel.AliveWith { threads := ths } t P)

/-- Giving back a monitor may wake threads, but it does not concern frames. -/
theorem upholds_unlock (r : ObjRef) (u : ThreadId) :
    Upholds (fun w => w.kernel.AliveWith t P) (unlock r u) := by
  refine (upholds_of_spares (spares_object r)).bind fun _ o _ _ => ?_
  cases o.monitor.unlock u with
  | none => exact .pure fun _ hw => hw
  | some m =>
    refine (upholds_of_spares (spares_setMonitor r m)).bind fun _ _ _ _ => ?_
    have hwake : Upholds (fun w => w.kernel.AliveWith t P)
        (modifyKernel fun k => k.wakeBlockedOn r) := fun w hw => hw.wake (.blocked r)
    dsimp only
    split
    · exact hwake.bind fun _ _ _ _ => .pure fun _ hw => hw
    · exact .pure fun _ hw => hw

/-! ## Parts that leave no frame -/

/-- Whatever comes of this part of a step, the thread lives on, and what was covered by its frame on
top is covered still. -/
abbrev Covering (t : ThreadId) (a : Step α) : Prop :=
  ∀ below, Upholds (fun w => w.kernel.AliveWith t (Frame.Cover below)) a

namespace Covering

theorem of_spares {a : Step α} (h : SparesThreads a) : Covering t a := fun _ => upholds_of_spares h

theorem pure (v : α) : Covering t (pure v : Step α) := .of_spares (.pure v)

theorem throw (e : Fault) : Covering t (throw e : Step α) := .of_spares (.throw e)

theorem bind {a : Step α} {f : α → Step β} (ha : Covering t a)
    (hf : ∀ ⦃w v w'⦄, a w = .ok v w' → Covering t (f v)) : Covering t (a >>= f) :=
  fun below => (ha below).bind fun _ _ _ h => hf h below

end Covering

theorem covering_modifyThread {u : ThreadId} {g : Thread → Thread}
    (halive : ∀ th, th.isAlive = true → (g th).isAlive = true)
    (hframes : ∀ below th, Frame.Cover below th.frames → Frame.Cover below (g th).frames) :
    Covering t (modifyThread u g) := by
  intro below w hw
  cases hth : w.kernel.threads[u.index]? with
  | some th =>
    have hok : modifyThread u g w = .ok () { w with kernel := w.kernel.modifyThread u g } :=
      modifyThread_eq_ok.mpr ⟨⟨th, hth⟩, rfl⟩
    rw [hok]
    exact hw.modifyThread u halive (hframes below)
  | none =>
    have hfault : modifyThread u g w = .error (.noSuchThread u) w := by
      show (lift (w.kernel.thread u) >>= _) w = _
      unfold Kernel.thread
      rw [hth]
      rfl
    rw [hfault]
    exact hw

theorem covering_pushFrame (u : ThreadId) (f : Frame) : Covering t (pushFrame u f) :=
  covering_modifyThread (fun _ h => h) fun _ _ h => h.push

/-- Even if the work on the frame on top faults, the frames below it are as they were. -/
theorem covering_onFrame (a : Frame.Action α) : Covering t (onFrame t a) := by
  have hset : ∀ f, Covering t (modifyKernel fun k => k.modifyThread t (·.setTop f)) :=
    fun f below w hw => hw.modifyThread t (fun _ h => h) fun _ h => h.setTop
  refine (Covering.of_spares (spares_frame t)).bind fun _ f _ _ => ?_
  cases a f with
  | ok v f' => exact (hset f').bind fun _ _ _ _ => .pure v
  | error e f' => exact (hset f').bind fun _ _ _ _ => .throw e

theorem covering_unlock (r : ObjRef) : Covering t (unlock r t) := fun _ => upholds_unlock r t

end Step

end Interleave

import Interleave.Proofs.Programs
import Interleave.Proofs.Step.Alone
import Interleave.Proofs.Step.Floors

/-!
# What events tell

A list of events is a log. It says how often a thread holds the monitor of an object, which methods
a thread is in, and which threads have been started and have ended.

What an instruction changes in a state, it reports: the events account for the difference between the
state before it and the state after it, whatever the instruction is and whether or not it raises an
exception. Stubs belong to the machine; they come and go without a word.
-/

namespace Interleave

open Effect

/-! ## Logs -/

/-- Events, in the order in which they were reported. -/
abbrev Log := List Event

namespace Event

/-- How much more often a thread holds the monitor of an object after an event. -/
def gain (r : ObjRef) (u : ThreadId) : Event → Int
  | objectLocked t s => if s = r ∧ u = t then 1 else 0
  | objectUnlocked t s => if s = r ∧ u = t then -1 else 0
  | _ => 0

/-- The methods that a thread is in after an event, the innermost first. There are none to speak of
if it leaves a method that is not the innermost. -/
def calls (u : ThreadId) (ms : List Method) : Event → Option (List Method)
  | methodEntered t m => some (if t = u then m :: ms else ms)
  | methodExited t m =>
    if t = u then
      if ms.head? = some m then some ms.tail else none
    else some ms
  | _ => some ms

/-- The thread that an event starts. -/
def started? : Event → Option ThreadId
  | threadStarted t => some t
  | _ => none

/-- The thread that an event ends. -/
def ended? : Event → Option ThreadId
  | threadTerminated t => some t
  | _ => none

end Event

namespace Log

/-- How often a thread holds the monitor of an object, as far as a log tells. -/
def heldBy (es : Log) (r : ObjRef) (u : ThreadId) : Int :=
  es.foldr (fun e n => e.gain r u + n) 0

/-- The methods that a thread is in after a log, the innermost first, if it was in some before. -/
def callsFrom (es : Log) (u : ThreadId) (ms : List Method) : Option (List Method) :=
  es.foldlM (Event.calls u) ms

/-- The methods that a thread has entered and not left, the innermost first; none if the calls are
not nested properly. -/
def calls (es : Log) (u : ThreadId) : Option (List Method) := es.callsFrom u []

/-- The threads that have been started, in order. -/
def started (es : Log) : List ThreadId := es.filterMap Event.started?

/-- The threads that have ended, in order. -/
def ended (es : Log) : List ThreadId := es.filterMap Event.ended?

variable {es fs : Log} {r : ObjRef} {t u : ThreadId} {ms : List Method} {m : Method}

@[simp] theorem heldBy_nil : heldBy [] r u = 0 := rfl

@[simp] theorem heldBy_append : heldBy (es ++ fs) r u = es.heldBy r u + fs.heldBy r u := by
  induction es with
  | nil => exact (Int.zero_add _).symm
  | cons e es ih =>
    show e.gain r u + heldBy (es ++ fs) r u = e.gain r u + heldBy es r u + fs.heldBy r u
    rw [ih, Int.add_assoc]

@[simp] theorem heldBy_singleton (e : Event) : heldBy [e] r u = e.gain r u :=
  Int.add_zero _

@[simp] theorem callsFrom_nil : callsFrom [] u ms = some ms := rfl

theorem callsFrom_append :
    callsFrom (es ++ fs) u ms = (es.callsFrom u ms).bind (fs.callsFrom u) := by
  unfold callsFrom
  rw [List.foldlM_append]
  rfl

@[simp] theorem callsFrom_singleton (e : Event) : callsFrom [e] u ms = e.calls u ms := by
  simp [callsFrom]

@[simp] theorem started_nil : started [] = [] := rfl

@[simp] theorem started_append : started (es ++ fs) = es.started ++ fs.started :=
  List.filterMap_append

@[simp] theorem ended_nil : ended [] = [] := rfl

@[simp] theorem ended_append : ended (es ++ fs) = es.ended ++ fs.ended :=
  List.filterMap_append

end Log

/-! ## What there is to tell of a state -/

namespace Kernel

variable {k k' : Kernel} {t u : ThreadId}

/-- The methods that a thread is in, the innermost first. The stubs of the machine do not count. -/
def calls (k : Kernel) (u : ThreadId) : List Method :=
  ((k.frames u).map Frame.method).filter fun m => !m.isMachineOwned

/-- The numbers of the threads, in order. -/
def threadIds (k : Kernel) : List ThreadId := (List.range k.threads.size).map ThreadId.mk

/-- A thread has ended. -/
def HasEnded (k : Kernel) (u : ThreadId) : Prop :=
  ∃ th, k.threads[u.index]? = some th ∧ th.status = .terminated

theorem mem_threadIds : u ∈ k.threadIds ↔ ∃ th, k.threads[u.index]? = some th := by
  obtain ⟨i⟩ := u
  simp only [threadIds, List.mem_map, List.mem_range, ThreadId.mk.injEq, exists_eq_right]
  exact ⟨fun h => ⟨_, Array.getElem?_eq_getElem h⟩,
    fun ⟨th, hth⟩ => (Array.getElem?_eq_some_iff.mp hth).1⟩

theorem nodup_threadIds (k : Kernel) : k.threadIds.Nodup :=
  List.pairwise_map.mpr (List.nodup_range.imp fun hne he => hne (congrArg ThreadId.index he))

theorem threadIds_congr (h : k'.threads.size = k.threads.size) : k'.threadIds = k.threadIds := by
  unfold threadIds
  rw [h]

theorem calls_congr (h : k'.frames u = k.frames u) : k'.calls u = k.calls u := by
  unfold calls
  rw [h]

theorem calls_of_same {f f' : Frame} {rest : List Frame} (h : k.frames u = f :: rest)
    (h' : k'.frames u = f' :: rest) (hsame : f.SameCall f') : k'.calls u = k.calls u := by
  unfold calls
  rw [h, h', List.map_cons, List.map_cons, hsame.method]

/-- A frame on top belongs to the machine, or its method is the innermost. -/
theorem calls_of_cons {f : Frame} {rest : List Frame} (h : k.frames u = f :: rest)
    (h' : k'.frames u = rest) :
    k.calls u = if f.method.isMachineOwned then k'.calls u else f.method :: k'.calls u := by
  unfold calls
  rw [h, h']
  cases hm : f.method.isMachineOwned <;> simp [hm]

theorem hasEnded_congr (h : k'.threads = k.threads) : k'.HasEnded u ↔ k.HasEnded u := by
  unfold HasEnded
  rw [h]

theorem hasEnded_modifyThread {g : Thread → Thread} (hg : ∀ th, k.threads[t.index]? = some th →
      ((g th).status = .terminated ↔ th.status = .terminated)) :
    (k.modifyThread t g).HasEnded u ↔ k.HasEnded u := by
  unfold HasEnded
  rw [getElem?_modifyThread]
  split
  · rename_i htu
    subst htu
    cases hth : k.threads[t.index]? with
    | none => simp
    | some th => simpa using hg th hth
  · rfl

theorem hasEnded_wake {s : ThreadStatus} (hs : s ≠ .terminated) :
    (k.wake s).HasEnded u ↔ k.HasEnded u := by
  unfold HasEnded
  rw [getElem?_wake]
  cases k.threads[u.index]? with
  | none => simp
  | some th =>
    by_cases he : th.status = s
    · simp [he, hs]
    · simp [he]

theorem hasEnded_released (k : Kernel) (r : ObjRef) (m : Monitor) (u : ThreadId) :
    (k.released r m).HasEnded u ↔ k.HasEnded u := by
  unfold released
  split
  · exact hasEnded_congr rfl
  · have hwake : ((k.setMonitor r m).wakeBlockedOn r).HasEnded u ↔ (k.setMonitor r m).HasEnded u :=
      hasEnded_wake (by exact nofun)
    exact hwake.trans (hasEnded_congr rfl)

theorem hasEnded_addThread (k : Kernel) (r : ObjRef) (u : ThreadId) :
    (k.addThread r).2.HasEnded u ↔ k.HasEnded u := by
  unfold HasEnded
  rw [getElem?_addThread]
  split
  · rename_i hu
    subst hu
    simp [addThread]
  · rfl

end Kernel

/-! ## Events that account for a difference -/

namespace Log

/-- Events account for the difference between two states. No thread has ended: what becomes of a
thread is settled later. -/
structure Accounts (es : Log) (k k' : Kernel) : Prop where
  held : ∀ r u, (k'.heap.heldBy r u : Int) = k.heap.heldBy r u + es.heldBy r u
  calls : ∀ u, es.callsFrom u (k.calls u) = some (k'.calls u)
  started : k'.threadIds = k.threadIds ++ es.started
  ended : es.ended = []
  endings : ∀ u, k'.HasEnded u ↔ k.HasEnded u

namespace Accounts

variable {es fs : Log} {k k' k'' : Kernel} {t u : ThreadId}

theorem nothing (held : ∀ r u, k'.heap.heldBy r u = k.heap.heldBy r u)
    (calls : ∀ u, k'.calls u = k.calls u) (size : k'.threads.size = k.threads.size)
    (endings : ∀ u, k'.HasEnded u ↔ k.HasEnded u) : Accounts [] k k' where
  held r u := by simp [held]
  calls u := by simp [calls]
  started := by simpa using Kernel.threadIds_congr size
  ended := rfl
  endings := endings

theorem same (hthreads : k'.threads = k.threads)
    (hheld : ∀ r u, k'.heap.heldBy r u = k.heap.heldBy r u) : Accounts [] k k' :=
  nothing hheld (fun u => Kernel.calls_congr (Kernel.frames_congr hthreads u))
    (congrArg Array.size hthreads) fun _ => Kernel.hasEnded_congr hthreads

theorem append (h : Accounts es k k') (h' : Accounts fs k' k'') : Accounts (es ++ fs) k k'' where
  held r u := by
    rw [h'.held, h.held, heldBy_append]
    omega
  calls u := by
    rw [callsFrom_append, h.calls]
    exact h'.calls u
  started := by rw [h'.started, h.started, started_append, List.append_assoc]
  ended := by rw [ended_append, h.ended, h'.ended, List.append_nil]
  endings u := (h'.endings u).trans (h.endings u)

theorem size_le (h : Accounts es k k') : k.threads.size ≤ k'.threads.size := by
  have hlength := congrArg List.length h.started
  simp only [Kernel.threadIds, List.length_append, List.length_map, List.length_range] at hlength
  omega

/-- There is one event to report, by which no thread is started. -/
theorem report {e : Event} (hstarted : e.started? = none) (hended : e.ended? = none)
    (held : ∀ r u, (k'.heap.heldBy r u : Int) = k.heap.heldBy r u + e.gain r u)
    (calls : ∀ u, e.calls u (k.calls u) = some (k'.calls u))
    (size : k'.threads.size = k.threads.size) (endings : ∀ u, k'.HasEnded u ↔ k.HasEnded u) :
    Accounts [e] k k' where
  held r u := by rw [heldBy_singleton, held]
  calls u := by rw [callsFrom_singleton, calls]
  started := by simpa [Log.started, hstarted] using Kernel.threadIds_congr size
  ended := by simp [Log.ended, hended]
  endings := endings

theorem thrown (t : ThreadId) (r : ObjRef) : Accounts [.exceptionThrown t r] k k :=
  report rfl rfl (by simp [Event.gain]) (fun _ => rfl) rfl fun _ => Iff.rfl

theorem lock {r : ObjRef} {o : Object} {m : Monitor} (ho : k.heap.get? r = some o)
    (hm : o.monitor.lock t = some m) : Accounts [.objectLocked t r] k (k.setMonitor r m) := by
  refine report rfl rfl (fun s u => ?_) (fun _ => congrArg some (Kernel.calls_congr rfl)) rfl
    fun _ => Kernel.hasEnded_congr rfl
  rw [Kernel.heldBy_lock ho hm, Event.gain]
  split <;> simp

theorem unlock {r : ObjRef} {o : Object} {m : Monitor} (ho : k.heap.get? r = some o)
    (hm : o.monitor.unlock t = some m) : Accounts [.objectUnlocked t r] k (k.released r m) := by
  refine report rfl rfl (fun s u => ?_)
    (fun u => congrArg some (Kernel.calls_congr (Kernel.frames_released _ _ _ u)).symm)
    (Kernel.size_released k r m) (Kernel.hasEnded_released k r m)
  rw [Kernel.heldBy_released ho hm s u, Event.gain]
  split <;> omega

theorem enter {f : Frame} (hf : f.method.isMachineOwned = false) (ht : t.index < k.threads.size) :
    Accounts [.methodEntered t f.method] k (k.modifyThread t (·.pushFrame f)) := by
  refine report rfl rfl (fun r u => (Int.add_zero _).symm) (fun u => ?_)
    (Kernel.size_modifyThread _ _ _) fun _ => Kernel.hasEnded_modifyThread fun _ _ => Iff.rfl
  by_cases htu : t = u
  · subst htu
    have hth := Array.getElem?_eq_getElem ht
    have hcalls := Kernel.calls_of_cons (Kernel.frames_modifyThread hth (·.pushFrame f))
      (Kernel.frames_of_getElem? hth)
    simp [Event.calls, hcalls, hf]
  · rw [Event.calls, if_neg htu, Kernel.calls_congr (Kernel.frames_modifyThread_of_ne htu _)]

/-- A thread leaves its innermost method, which is reported unless it is a stub. -/
theorem leave {f : Frame} (hframes : k.frames t = f :: k'.frames t)
    (hothers : ∀ u, u ≠ t → k'.frames u = k.frames u)
    (hheld : ∀ r u, k'.heap.heldBy r u = k.heap.heldBy r u)
    (size : k'.threads.size = k.threads.size) (endings : ∀ u, k'.HasEnded u ↔ k.HasEnded u) :
    Accounts (if f.method.isMachineOwned then [] else [.methodExited t f.method]) k k' := by
  have hcalls := Kernel.calls_of_cons hframes rfl
  cases hm : f.method.isMachineOwned with
  | true =>
    refine nothing hheld (fun u => ?_) size endings
    by_cases hu : u = t
    · subst hu
      simp [hcalls, hm]
    · exact Kernel.calls_congr (hothers u hu)
  | false =>
    refine report rfl rfl (fun r u => by simp [hheld, Event.gain]) (fun u => ?_) size endings
    by_cases hu : u = t
    · subst hu
      simp [Event.calls, hcalls, hm]
    · rw [Event.calls, if_neg (Ne.symm hu), Kernel.calls_congr (hothers u hu)]

/-- A thread is started that is in a stub. -/
theorem start {r : ObjRef} {f : Frame} (hf : f.method.isMachineOwned = true) :
    Accounts [.threadStarted (k.addThread r).1] k
      (((k.addThread r).2.markShared r).modifyThread (k.addThread r).1 (·.pushFrame f)) where
  held s u := by
    have hextends : k.heap.Extends (k.heap.modify r fun o => { o with shared := true }) :=
      .modify k.heap r fun _ => ⟨rfl, rfl⟩
    exact (congrArg Nat.cast (hextends.heldBy s u)).trans (Int.add_zero _).symm
  calls u := by
    -- the new thread is in a stub, which does not count
    refine congrArg some ?_
    by_cases hu : (k.addThread r).1 = u
    · have hth : ((k.addThread r).2.markShared r).threads[(k.addThread r).1.index]? =
          some { id := (k.addThread r).1, object := r } :=
        (Kernel.getElem?_addThread k r _).trans (if_pos rfl)
      have hnew := Kernel.frames_modifyThread hth (·.pushFrame f)
      have hold : k.frames (k.addThread r).1 = [] := by simp [Kernel.frames, Kernel.addThread]
      subst hu
      have hcalls := Kernel.calls_of_cons hnew hold
      rw [hcalls, if_pos hf]
    · refine (Kernel.calls_congr ?_).symm
      exact (Kernel.frames_modifyThread_of_ne hu _).trans (Kernel.frames_addThread k r u)
  started := by
    have hsize : (((k.addThread r).2.markShared r).modifyThread (k.addThread r).1
        (·.pushFrame f)).threads.size = k.threads.size + 1 :=
      (Kernel.size_modifyThread _ _ _).trans (Array.size_push _)
    unfold Kernel.threadIds
    rw [hsize, List.range_succ, List.map_append]
    rfl
  ended := rfl
  endings u := by
    refine (Kernel.hasEnded_modifyThread (g := (·.pushFrame f)) fun _ _ => Iff.rfl).trans ?_
    exact (Kernel.hasEnded_congr rfl).trans (Kernel.hasEnded_addThread k r u)

end Accounts

end Log

/-! ## Parts of instructions -/

theorem Program.WellFormed.isMachineOwned_of_declares {p : Program} {m : Method} (hp : p.WellFormed)
    (hm : p.Declares m) : m.isMachineOwned = false := by
  obtain ⟨i, c, hc, hmem⟩ := hm
  obtain ⟨owner, howner, -⟩ := Option.map_eq_some_iff.mp (hp.owners i c hc m hmem)
  rw [Method.isMachineOwned, howner]
  rfl

/-- What has changed while a thread was at work is accounted for by the events that were reported. -/
def Work.Reports (p : Program) (t : ThreadId) (w w' : Work) : Prop :=
  p.WellFormed → t.index < w.kernel.threads.size → ¬ w.kernel.HasEnded t →
    ∃ es : Log, w'.events.toList = w.events.toList ++ es ∧ es.Accounts w.kernel w'.kernel

section Parts

variable {p : Program} {t : ThreadId}

instance : Work.Admits (Work.Reports p t) where
  refl _ _ _ _ := ⟨[], by simp, .same rfl fun _ _ => rfl⟩
  trans w₁ w₂ w₃ h h' hp ht halive := by
    obtain ⟨es, hes, haccounts⟩ := h hp ht halive
    obtain ⟨fs, hfs, haccounts'⟩ := h' hp (Nat.lt_of_lt_of_le ht haccounts.size_le)
      fun hended => halive ((haccounts.endings t).mp hended)
    exact ⟨es ++ fs, by rw [hfs, hes, List.append_assoc], haccounts.append haccounts'⟩
  same hthreads hheap hevents _ _ _ :=
    ⟨[], by simp [hevents], .same hthreads fun _ _ => by rw [hheap]⟩
  heap hgrows _ _ _ := ⟨[], by simp, .same rfl hgrows.extends.heldBy⟩
  thrown t r _ _ _ := ⟨_, Array.toList_push, .thrown t r⟩

instance : Work.AdmitsFrames t (Work.Reports p t) where
  setTop {w f f'} htop hsame _ _ _ := by
    obtain ⟨th, rest, hth, hframes⟩ := Kernel.topFrame_eq_ok.mp htop
    refine ⟨[], by simp, .nothing (fun _ _ => rfl) (fun u => ?_) (Kernel.size_modifyThread _ _ _)
      fun _ => Kernel.hasEnded_modifyThread fun _ _ => Iff.rfl⟩
    by_cases htu : t = u
    · subst htu
      refine Kernel.calls_of_same ((Kernel.frames_of_getElem? hth).trans hframes) ?_ hsame
      rw [Kernel.frames_modifyThread hth, Thread.setTop, hframes, List.tail_cons]
    · exact Kernel.calls_congr (Kernel.frames_modifyThread_of_ne htu _)
  pushStub {w} f hf _ ht _ := by
    refine ⟨[], by simp, .nothing (fun _ _ => rfl) (fun u => ?_) (Kernel.size_modifyThread _ _ _)
      fun _ => Kernel.hasEnded_modifyThread fun _ _ => Iff.rfl⟩
    by_cases htu : t = u
    · subst htu
      have hth := Array.getElem?_eq_getElem ht
      have hcalls := Kernel.calls_of_cons (Kernel.frames_modifyThread hth (·.pushFrame f))
        (Kernel.frames_of_getElem? hth)
      rw [hcalls, if_pos hf.isMachineOwned]
    · exact Kernel.calls_congr (Kernel.frames_modifyThread_of_ne htu _)

instance : Work.AdmitsWrites (Work.Reports p t) where
  write {w} r n v _ _ _ := by
    have hextends : w.kernel.heap.Extends (w.kernel.heap.modify r (·.setSlot n v)) :=
      .modify w.kernel.heap r fun _ => ⟨rfl, rfl⟩
    exact ⟨[], by simp, .same rfl hextends.heldBy⟩

instance : Work.AdmitsLocks p t (Work.Reports p t) where
  lock ho hm _ _ _ := ⟨_, Array.toList_push, .lock ho hm⟩
  enter f hf hp ht _ := ⟨_, Array.toList_push, .enter (hp.isMachineOwned_of_declares hf) ht⟩
  wait {w s} hs _ _ halive := by
    refine ⟨[], by simp, .nothing (fun _ _ => rfl) (fun u => Kernel.calls_congr ?_)
      (Kernel.size_modifyThread _ _ _) fun _ => Kernel.hasEnded_modifyThread fun th hth => ?_⟩
    · exact Kernel.frames_modifyThread_of_eq (g := fun th => { th with status := s }) (fun _ => rfl) u
    · exact ⟨fun h => absurd h hs, fun h => absurd ⟨th, hth, h⟩ halive⟩

instance : Work.AdmitsUnlocks t (Work.Reports p t) where
  unlock ho hm _ _ _ := ⟨_, Array.toList_push, .unlock ho hm⟩

instance : Work.AdmitsStarts (Work.Reports p t) where
  start hf _ _ _ := ⟨_, Array.toList_push, .start hf.isMachineOwned⟩

end Parts

/-! ### Leaving methods -/

/-- A method is left, and its monitor has been given back before; the order does not matter to what
there is to tell. -/
theorem Work.reports_leave {p : Program} {t : ThreadId} {w w' : Work} {f : Frame}
    (h : Call.leave t w = .ok f w') : Work.Reports p t w w' := by
  intro _ _ _
  obtain ⟨th, rest, w₁, hth, hframes, hreleased, hexit⟩ := Call.leave_cases h
  obtain ⟨cs, -, rfl⟩ := Call.recordExit_eq_ok hexit
  have hmine : (w.kernel.modifyThread t fun th => { th with frames := rest }).frames t = rest :=
    Kernel.frames_modifyThread hth _
  have hothers : ∀ u, u ≠ t →
      (w.kernel.modifyThread t fun th => { th with frames := rest }).frames u = w.kernel.frames u :=
    fun u hu => Kernel.frames_modifyThread_of_ne (Ne.symm hu) _
  -- whatever the thread gives back, it could have given back while it was in the method
  have hback : ∃ k es, Log.Accounts es w.kernel k ∧ w₁.events.toList = w.events.toList ++ es ∧
      (∀ u, w₁.kernel.frames u =
        (w.kernel.modifyThread t fun th => { th with frames := rest }).frames u) ∧
      (∀ u, k.frames u = w.kernel.frames u) ∧ w₁.kernel.heap = k.heap ∧
      w₁.kernel.threads.size = k.threads.size ∧ ∀ u, w₁.kernel.HasEnded u ↔ k.HasEnded u := by
    have hendings : ∀ u, (w.kernel.modifyThread t fun th => { th with frames := rest }).HasEnded u ↔
        w.kernel.HasEnded u := fun u => Kernel.hasEnded_modifyThread fun _ _ => Iff.rfl
    rcases hreleased with ⟨-, rfl⟩ | ⟨-, hrelease⟩
    · exact ⟨w.kernel, [], .same rfl fun _ _ => rfl, by simp, fun _ => rfl, fun _ => rfl, rfl,
        Kernel.size_modifyThread _ _ _, hendings⟩
    · obtain ⟨r, o, -, ho, ⟨-, rfl⟩ | ⟨l, hl, rfl⟩⟩ := Call.releaseMonitor_eq_ok hrelease
      · exact ⟨w.kernel, [], .same rfl fun _ _ => rfl, by simp, fun _ => rfl, fun _ => rfl, rfl,
          Kernel.size_modifyThread _ _ _, hendings⟩
      · refine ⟨w.kernel.released r l, _, .unlock ho hl, Array.toList_push,
          Kernel.frames_released _ r l, Kernel.frames_released _ r l, ?_, ?_, fun u => ?_⟩
        · unfold Kernel.released
          cases l.isLocked <;> rfl
        · simp only [Kernel.size_released, Kernel.size_modifyThread]
        · rw [Kernel.hasEnded_released, Kernel.hasEnded_released, hendings]
  obtain ⟨k, es, haccounts, hevents, hframes₁, hframes₀, hheap, hsize, hendings⟩ := hback
  have hleft : Log.Accounts (if f.method.isMachineOwned then [] else [.methodExited t f.method]) k
      { w₁.kernel with classes := cs } := by
    refine .leave ?_ (fun u hu => ?_) (fun r u => congrArg (Heap.heldBy · r u) hheap) hsize hendings
    · rw [hframes₀, Kernel.frames_of_getElem? hth, hframes]
      exact congrArg (f :: ·) ((hframes₁ t).trans hmine).symm
    · exact (hframes₁ u).trans ((hothers u hu).trans (hframes₀ u).symm)
  refine ⟨_, ?_, haccounts.append hleft⟩
  cases f.method.isMachineOwned <;> simp [hevents]

instance (p : Program) (t : ThreadId) : Work.AdmitsLeaving t (Work.Reports p t) where
  leave _ _ _ := Work.reports_leave

/-! ## Instructions -/

/-- **What an instruction changes, it reports.** The events of an instruction account for the
difference between the state before it and the state after it. -/
theorem Step.reports_perform {p : Program} {t : ThreadId} {i : Instruction} {w w' : Work}
    {out : Outcome} (h : perform p t i w = .ok out w') : Work.Reports p t w w' :=
  (leaving_perform fun _ => (Waiting.within_threadStart i).toMeets.mono fun _ _ => trivial).keeps h

end Interleave

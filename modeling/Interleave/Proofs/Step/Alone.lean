import Interleave.Proofs.Holdings
import Interleave.Proofs.Step.Within

/-!
# What a step does to the other threads

A thread works on its own frames. Other threads notice it in two ways: when it gives back a monitor
for the last time, those that wait for the monitor are woken; and it may start a thread, which comes
behind those that are there.

Most parts of instructions concern no other thread at all, `Kernel.Alone`. The parts that take
monitors wake nobody, `Kernel.Takes`, and the parts that give them back wake those that have waited
for a monitor that is free afterwards, `Kernel.Gives`. An instruction never does both: one that takes
a monitor raises no exception, and so leaves no frame. That is why whoever is woken has waited for a
monitor that the thread held in front of the instruction, and no longer holds behind it.
-/

namespace Interleave

open Effect

/-- A thread has been woken if there was reason to; otherwise it is as it was. -/
structure Thread.WokenIf (W : Prop) (th th' : Thread) : Prop where
  woken : W → th' = { th with status := .runnable }
  left : ¬ W → th' = th

theorem Thread.WokenIf.congr {V W : Prop} {th th' : Thread} (h : th.WokenIf W th') (hiff : V ↔ W) :
    th.WokenIf V th' :=
  ⟨fun hV => h.woken (hiff.mp hV), fun hV => h.left fun hW => hV (hiff.mpr hW)⟩

namespace Kernel

/-- A thread held the monitor of an object, and has given it back for the last time. -/
structure Frees (k : Kernel) (t : ThreadId) (r : ObjRef) (k' : Kernel) : Prop where
  held : 0 < k.heap.heldBy r t
  free : k'.heap.heldBy r t = 0

/-- A thread has worked on its own. -/
structure Alone (t : ThreadId) (k k' : Kernel) : Prop where
  others : ∀ (u : ThreadId) th, u ≠ t → k.threads[u.index]? = some th →
    k'.threads[u.index]? = some th
  status : ∀ th, k.threads[t.index]? = some th →
    ∃ th', k'.threads[t.index]? = some th' ∧ th'.status = th.status
  held : ∀ r, k'.heap.heldBy r t = k.heap.heldBy r t

/-- A thread has worked on its own, and may have taken monitors or come to wait. -/
structure Takes (t : ThreadId) (k k' : Kernel) : Prop where
  others : ∀ (u : ThreadId) th, u ≠ t → k.threads[u.index]? = some th →
    k'.threads[u.index]? = some th
  size : k'.threads.size = k.threads.size
  held : ∀ r, k.heap.heldBy r t ≤ k'.heap.heldBy r t

/-- A thread has worked on its own, and may have given back monitors. Those that waited for one that
it gave back for the last time have been woken. -/
structure Gives (t : ThreadId) (k k' : Kernel) : Prop where
  others : ∀ (u : ThreadId) th, u ≠ t → k.threads[u.index]? = some th →
    ∃ th', k'.threads[u.index]? = some th' ∧
      th.WokenIf (∃ r, th.status = .blocked r ∧ k.Frees t r k') th'
  status : ∀ th, k.threads[t.index]? = some th → th.status = .runnable →
    ∃ th', k'.threads[t.index]? = some th' ∧ th'.status = .runnable
  held : ∀ r, k'.heap.heldBy r t ≤ k.heap.heldBy r t

/-- There are as many threads as before. -/
def SameSize (k k' : Kernel) : Prop := k'.threads.size = k.threads.size

variable {k k' k₁ k₂ k₃ : Kernel} {t : ThreadId}

/-! ## Working alone -/

namespace Alone

theorem of_same (hthreads : k'.threads = k.threads) (hheap : k'.heap = k.heap) :
    Alone t k k' where
  others _ _ _ hth := by rw [hthreads, hth]
  status th hth := ⟨th, by rw [hthreads, hth], rfl⟩
  held r := by rw [hheap]

theorem modifyThread {g : Thread → Thread} (hg : ∀ th, (g th).status = th.status) :
    Alone t k (k.modifyThread t g) where
  others u th hu hth := by rw [getElem?_modifyThread, if_neg (Ne.symm hu), hth]
  status th hth := ⟨g th, by rw [getElem?_modifyThread, if_pos rfl, hth]; rfl, hg th⟩
  held _ := rfl

theorem heap {h : Heap} (hh : k.heap.Extends h) : Alone t k { k with heap := h } where
  others _ _ _ hth := hth
  status th hth := ⟨th, hth, rfl⟩
  held r := hh.heldBy r t

/-- A thread that is started comes behind those that are there. -/
theorem start (r : ObjRef) (f : Frame) : Alone t k
    (((k.addThread r).2.markShared r).modifyThread (k.addThread r).1 (·.pushFrame f)) := by
  have hold : ∀ (u : ThreadId) th, k.threads[u.index]? = some th →
      (((k.addThread r).2.markShared r).modifyThread (k.addThread r).1
        (·.pushFrame f)).threads[u.index]? = some th := by
    intro u th hth
    have hu : u ≠ (k.addThread r).1 := by
      rintro rfl
      simp [addThread] at hth
    rw [getElem?_modifyThread, if_neg (Ne.symm hu)]
    show (k.addThread r).2.threads[u.index]? = some th
    rw [getElem?_addThread, if_neg hu, hth]
  have hextends : k.heap.Extends (k.heap.modify r fun o => { o with shared := true }) :=
    .modify k.heap r fun _ => ⟨rfl, rfl⟩
  exact ⟨fun u th _ hth => hold u th hth, fun th hth => ⟨th, hold t th hth, rfl⟩,
    fun s => hextends.heldBy s t⟩

theorem takes (h : Alone t k k') (hsize : k'.threads.size = k.threads.size) : Takes t k k' :=
  ⟨h.others, hsize, fun r => Nat.le_of_eq (h.held r).symm⟩

theorem gives (h : Alone t k k') : Gives t k k' where
  others u th hu hth := by
    refine ⟨th, h.others u th hu hth, ?_, fun _ => rfl⟩
    rintro ⟨r, -, hfrees⟩
    have hheld := h.held r
    have hpos := hfrees.held
    have hfree := hfrees.free
    omega
  status th hth hrunnable := by
    obtain ⟨th', hth', he⟩ := h.status th hth
    exact ⟨th', hth', he.trans hrunnable⟩
  held r := Nat.le_of_eq (h.held r)

end Alone

/-! ## Taking and giving back -/

protected theorem Takes.trans (h : Takes t k₁ k₂) (h' : Takes t k₂ k₃) : Takes t k₁ k₃ where
  others u th hu hth := h'.others u th hu (h.others u th hu hth)
  size := h'.size.trans h.size
  held r := Nat.le_trans (h.held r) (h'.held r)

/-- Who is woken by the first part is not concerned by the second: the monitor stays free. Who is
woken by the second part waited for a monitor that was held all along. -/
protected theorem Gives.trans (h : Gives t k₁ k₂) (h' : Gives t k₂ k₃) : Gives t k₁ k₃ where
  others u th hu hth := by
    obtain ⟨th₂, hth₂, hfirst⟩ := h.others u th hu hth
    obtain ⟨th₃, hth₃, hsecond⟩ := h'.others u th₂ hu hth₂
    refine ⟨th₃, hth₃, ?_, ?_⟩
    · rintro ⟨r, hblocked, hheld, hfree⟩
      by_cases hmid : k₂.heap.heldBy r t = 0
      · have hth₂ := hfirst.woken ⟨r, hblocked, hheld, hmid⟩
        rw [hsecond.left ?_, hth₂]
        rintro ⟨s, hs, -⟩
        rw [hth₂] at hs
        cases hs
      · have hth₂ : th₂ = th := by
          refine hfirst.left ?_
          rintro ⟨s, hs, hfrees⟩
          rw [hblocked] at hs
          cases hs
          exact hmid hfrees.free
        rw [hth₂] at hsecond
        exact hsecond.woken ⟨r, hblocked, Nat.pos_of_ne_zero hmid, hfree⟩
    · intro hnone
      have hth₂ : th₂ = th := by
        refine hfirst.left ?_
        rintro ⟨r, hr, hheld, hfree⟩
        have hle := h'.held r
        exact hnone ⟨r, hr, hheld, by omega⟩
      rw [hth₂] at hsecond
      refine hsecond.left ?_
      rintro ⟨r, hr, hheld, hfree⟩
      have hle := h.held r
      exact hnone ⟨r, hr, by omega, hfree⟩
  status th hth hrunnable := by
    obtain ⟨th₂, hth₂, hrunnable₂⟩ := h.status th hth hrunnable
    exact h'.status th₂ hth₂ hrunnable₂
  held r := Nat.le_trans (h'.held r) (h.held r)

/-- A thread that gives back a monitor wakes those that wait for it, if it does not hold it any
more. -/
theorem Gives.released {r : ObjRef} {o : Object} {m : Monitor} (ho : k.heap.get? r = some o)
    (hm : o.monitor.unlock t = some m) : Gives t k (k.released r m) := by
  have hheld : ∀ s, k.heap.heldBy s t =
      (k.released r m).heap.heldBy s t + if r = s then 1 else 0 := by
    intro s
    simpa using heldBy_released ho hm s t
  have hwaited : ∀ s, k.Frees t s (k.released r m) → s = r := by
    rintro s ⟨hpos, hzero⟩
    by_contra hne
    have hs := hheld s
    rw [if_neg (Ne.symm hne)] at hs
    omega
  have hr := hheld r
  rw [if_pos rfl] at hr
  have hown : (k.released r m).heap.heldBy r t = m.heldBy t := by
    have hheap : (k.released r m).heap = (k.setMonitor r m).heap := by
      unfold Kernel.released
      split <;> rfl
    rw [hheap, heldBy_setMonitor ho, if_pos rfl]
  refine ⟨fun u th hu hth => ?_, fun th hth hrunnable => ?_, fun s => by have := hheld s; omega⟩
  · cases m with
    | held v n =>
      refine ⟨th, hth, ?_, fun _ => rfl⟩
      rintro ⟨s, -, hfrees⟩
      obtain rfl := hwaited s hfrees
      have hv : (Monitor.held v n).heldBy t ≠ 0 := by
        have howner := Monitor.owner?_of_unlock hm
        rw [Monitor.heldBy, if_pos howner]
        exact Nat.succ_ne_zero n
      exact absurd (hown.symm.trans hfrees.free) hv
    | free =>
      have hfree : (k.released r .free).heap.heldBy r t = 0 := hown
      have hthread : (k.released r .free).threads[u.index]? = some
          (if th.status = .blocked r then { th with status := .runnable } else th) := by
        show ((k.setMonitor r .free).wake (.blocked r)).threads[u.index]? = _
        rw [getElem?_wake]
        show (k.threads[u.index]?).map _ = _
        rw [hth]
        rfl
      refine ⟨_, hthread, ?_, fun hnone => if_neg fun hblocked => hnone ⟨r, hblocked, ?_, hfree⟩⟩
      · rintro ⟨s, hblocked, hfrees⟩
        obtain rfl := hwaited s hfrees
        exact if_pos hblocked
      · omega
  · unfold Kernel.released
    split
    · exact ⟨th, hth, hrunnable⟩
    · refine ⟨if th.status = .blocked r then { th with status := .runnable } else th, ?_, ?_⟩
      · show ((k.setMonitor r m).wake (.blocked r)).threads[t.index]? = _
        rw [getElem?_wake]
        show (k.threads[t.index]?).map _ = _
        rw [hth]
        rfl
      · split
        · rfl
        · exact hrunnable

/-- The monitor of a method is given back when the method is left. -/
theorem Gives.of_released {m : Method} {receiver : ObjRef} (h : k.Released t m receiver k') :
    Gives t k k' := by
  cases h with
  | unneeded => exact (Alone.of_same rfl rfl).gives
  | unlocked _ _ object unlocked => exact .released object unlocked
  | gone => exact (Alone.of_same rfl rfl).gives

theorem size_released (k : Kernel) (r : ObjRef) (m : Monitor) :
    (k.released r m).threads.size = k.threads.size := by
  unfold released
  split
  · rfl
  · simp [wakeBlockedOn, wake, setMonitor, modifyObject]

theorem size_modifyThread (k : Kernel) (u : ThreadId) (g : Thread → Thread) :
    (k.modifyThread u g).threads.size = k.threads.size := by
  simp [modifyThread]

theorem modifyThread_id (k : Kernel) (u : ThreadId) : k.modifyThread u id = k := by
  have hsame : k.threads.modify u.index id = k.threads := by
    ext1
    · simp
    · simp [Array.getElem_modify]
  show { k with threads := k.threads.modify u.index id } = k
  rw [hsame]

end Kernel

/-! ## Parts of instructions -/

/-- The states before and after a part of a step are related. -/
def Work.On (Q : Kernel → Kernel → Prop) (w w' : Work) : Prop := Q w.kernel w'.kernel

section Parts

variable {p : Program} {t : ThreadId}

instance : Work.Admits (Work.On (Kernel.Takes t)) where
  refl _ := (Kernel.Alone.of_same rfl rfl).takes rfl
  trans _ _ _ := Kernel.Takes.trans
  same hthreads hheap _ :=
    (Kernel.Alone.of_same hthreads hheap).takes (congrArg Array.size hthreads)
  heap hgrows := (Kernel.Alone.heap hgrows.extends).takes rfl
  thrown _ _ := (Kernel.Alone.of_same rfl rfl).takes rfl

instance : Work.AdmitsFrames t (Work.On (Kernel.Takes t)) where
  setTop {_ _ f'} _ _ :=
    (Kernel.Alone.modifyThread (g := (·.setTop f')) fun _ => rfl).takes
      (Kernel.size_modifyThread _ _ _)
  pushStub f _ :=
    (Kernel.Alone.modifyThread (g := (·.pushFrame f)) fun _ => rfl).takes
      (Kernel.size_modifyThread _ _ _)

instance : Work.AdmitsLocks p t (Work.On (Kernel.Takes t)) where
  lock ho hm := ⟨fun _ _ _ hth => hth, rfl, fun r => by
    have hheld := Kernel.heldBy_lock ho hm r t
    show _ ≤ (Kernel.setMonitor _ _ _).heap.heldBy r t
    omega⟩
  enter f _ :=
    (Kernel.Alone.modifyThread (g := (·.pushFrame f)) fun _ => rfl).takes
      (Kernel.size_modifyThread _ _ _)
  wait _ := ⟨fun u th hu hth => by
    show (Kernel.modifyThread _ t _).threads[u.index]? = some th
    rw [Kernel.getElem?_modifyThread, if_neg (Ne.symm hu), hth],
    Kernel.size_modifyThread _ _ _, fun _ => Nat.le_refl _⟩

instance : Work.Admits (Work.On (Kernel.Gives t)) where
  refl _ := (Kernel.Alone.of_same rfl rfl).gives
  trans _ _ _ := Kernel.Gives.trans
  same hthreads hheap _ := (Kernel.Alone.of_same hthreads hheap).gives
  heap hgrows := (Kernel.Alone.heap hgrows.extends).gives
  thrown _ _ := (Kernel.Alone.of_same rfl rfl).gives

instance : Work.AdmitsFrames t (Work.On (Kernel.Gives t)) where
  setTop {_ _ f'} _ _ := (Kernel.Alone.modifyThread (g := (·.setTop f')) fun _ => rfl).gives
  pushStub f _ := (Kernel.Alone.modifyThread (g := (·.pushFrame f)) fun _ => rfl).gives

instance : Work.AdmitsWrites (Work.On (Kernel.Gives t)) where
  write {w} r n v :=
    (Kernel.Alone.heap (.modify w.kernel.heap r (f := (·.setSlot n v)) fun _ => ⟨rfl, rfl⟩)).gives

instance : Work.AdmitsUnlocks t (Work.On (Kernel.Gives t)) where
  unlock := Kernel.Gives.released

instance : Work.AdmitsLeaving t (Work.On (Kernel.Gives t)) where
  leave w f w' h := by
    obtain ⟨th, rest, k, cs, -, -, hreleased, -, hbecomes⟩ := Call.leave_eq_ok h
    show w.kernel.Gives t w'.kernel
    rw [hbecomes.kernel]
    have hpopped : w.kernel.Gives t (w.kernel.modifyThread t fun th => { th with frames := rest }) :=
      (Kernel.Alone.modifyThread (g := fun th => { th with frames := rest }) fun _ => rfl).gives
    have hmarked : Kernel.Alone t k { k with classes := cs } := .of_same rfl rfl
    exact (hpopped.trans (.of_released hreleased)).trans hmarked.gives

instance : Work.AdmitsStarts (Work.On (Kernel.Gives t)) where
  start {_ r f} _ := (Kernel.Alone.start r f).gives

/-! ### The number of threads -/

instance : Work.Admits (Work.On Kernel.SameSize) where
  refl _ := rfl
  trans _ _ _ h h' := h'.trans h
  same hthreads _ _ := congrArg Array.size hthreads
  heap _ := rfl
  thrown _ _ := rfl

instance : Work.AdmitsFrames t (Work.On Kernel.SameSize) where
  setTop _ _ := Kernel.size_modifyThread _ _ _
  pushStub _ _ := Kernel.size_modifyThread _ _ _

instance : Work.AdmitsWrites (Work.On Kernel.SameSize) where
  write _ _ _ := rfl

instance : Work.AdmitsLocks p t (Work.On Kernel.SameSize) where
  lock _ _ := rfl
  enter _ _ := Kernel.size_modifyThread _ _ _
  wait _ := Kernel.size_modifyThread _ _ _

instance : Work.AdmitsUnlocks t (Work.On Kernel.SameSize) where
  unlock _ _ := Kernel.size_released _ _ _

instance : Work.AdmitsLeaving t (Work.On Kernel.SameSize) where
  leave w f w' h := by
    obtain ⟨th, rest, k, cs, -, -, hreleased, -, hbecomes⟩ := Call.leave_eq_ok h
    have hsize := Kernel.size_modifyThread w.kernel t fun th => { th with frames := rest }
    show w'.kernel.threads.size = w.kernel.threads.size
    rw [hbecomes.kernel, ← hsize]
    cases hreleased with
    | unneeded => rfl
    | unlocked => exact Kernel.size_released _ _ _
    | gone => rfl

end Parts

/-! ## Instructions -/

namespace Step

variable {p : Program} {t : ThreadId} {i : Instruction} {w w' : Work}

/-- An instruction that may take a monitor or wait gives none back. -/
theorem execute_others {flow : Flow} (h : execute p t i w = .ok flow w') :
    stays flow ∧ w.kernel.Takes t w'.kernel ∨ w.kernel.Gives t w'.kernel := by
  have hgives : ∀ {a : Step Flow} {P : Flow → Prop}, execute p t i = a →
      Leaving (Work.On (Kernel.Gives t)) P a → w.kernel.Gives t w'.kernel := by
    intro a P he ha
    rw [he] at h
    exact ha.keeps h
  cases kind p t i with
  | plain hplain => exact .inr (hgives rfl (hplain _).toMeets)
  | waits hwaits =>
    -- frames are left behind an exception, but then no monitor has been taken in front of it
    by_cases hraise : ∃ r, flow = .raise r
    · obtain ⟨r, rfl⟩ := hraise
      exact .inr (hwaits.raises (Work.On (Kernel.Gives t)) h)
    · have hstays : stays flow :=
        ⟨(hwaits.within Work.Any).gives h, fun r hr => hraise ⟨r, hr⟩⟩
      exact .inl ⟨hstays, (hwaits.within (Work.On (Kernel.Takes t))).keeps h⟩
  | monitorExit _ he => exact .inr (hgives he (Waiting.within_monitorExit i).toMeets)
  | threadStart _ he => exact .inr (hgives he (Waiting.within_threadStart i).toMeets)
  | putField _ he => exact .inr (hgives he (Memory.within_putField i).toMeets)
  | putStatic _ he => exact .inr (hgives he (Memory.within_putStatic i).toMeets)
  | storeElement _ he => exact .inr (hgives he (Memory.within_storeElement i).toMeets)
  | returns _ he => exact .inr (hgives he (Call.leaving_doReturn i))
  | leaves _ he => exact .inr (hgives he Call.leaving_stubReturn)

/-- **What an instruction does to other threads.** Either it leaves them alone, and its thread goes
on; or it wakes those that wait for a monitor that its thread has given back for the last time. -/
theorem perform_others {out : Outcome} (h : perform p t i w = .ok out w') :
    out = .running ∧ w.kernel.Takes t w'.kernel ∨ w.kernel.Gives t w'.kernel := by
  obtain ⟨flow, w₁, hexecute, hfollow⟩ := bind_eq_ok.mp h
  rcases execute_others hexecute with ⟨⟨hgoes, hraises⟩, htakes⟩ | hgives
  · obtain ⟨hrunning, hfollowed⟩ :=
      follow_of_stays (R := Work.On (Kernel.Takes t)) hgoes hraises hfollow
    exact .inl ⟨hrunning, htakes.trans hfollowed⟩
  · exact .inr (hgives.trans ((leaving_follow (R := Work.On (Kernel.Gives t)) flow).keeps hfollow))

theorem ne_finished_of_goesOn {flow : Flow} {out : Outcome} (hgoes : goesOn flow)
    (h : follow p t flow w = .ok out w') : out ≠ .finished := by
  cases flow with
  | raise r =>
    obtain ⟨u, w₁, -, h⟩ := bind_eq_ok.mp h
    cases u with
    | handled => simp [(pure_eq_ok.mp h).1]
    | escaped record => simp [(pure_eq_ok.mp h).1]
  | goto index => simp [(follow_of_stays (R := Work.Any) hgoes (by simp) h).1]
  | called => simp [(follow_of_stays (R := Work.Any) hgoes (by simp) h).1]
  | returned => simp [(follow_of_stays (R := Work.Any) hgoes (by simp) h).1]
  | again => simp [(follow_of_stays (R := Work.Any) hgoes (by simp) h).1]
  | finish => exact absurd rfl hgoes

/-- At most one thread is added, and only by the instruction for it, which is not the last one of
its thread. -/
theorem size_perform {out : Outcome} (h : perform p t i w = .ok out w') :
    w'.kernel.threads.size = w.kernel.threads.size ∨ i.op = .threadStart ∧ out ≠ .finished ∧
      w'.kernel.threads.size = w.kernel.threads.size + 1 := by
  by_cases hop : i.op = .threadStart
  · obtain ⟨flow, w₁, hexecute, hfollow⟩ := bind_eq_ok.mp h
    have hfollowed : w'.kernel.threads.size = w₁.kernel.threads.size :=
      (leaving_follow (R := Work.On Kernel.SameSize) flow).keeps hfollow
    have hstart : execute p t i = Waiting.threadStart p t i := by
      unfold execute
      rw [hop]
    rw [hstart] at hexecute
    obtain ⟨hgoes, hplain | ⟨w₀, r, f, hchecked, hstarted⟩⟩ := Waiting.threadStart_eq_ok hexecute
    · have hsize : w₁.kernel.threads.size = w.kernel.threads.size :=
        hplain (Work.On Kernel.SameSize)
      exact .inl (hfollowed.trans hsize)
    · have hsize : w₀.kernel.threads.size = w.kernel.threads.size :=
        hchecked (Work.On Kernel.SameSize)
      refine .inr ⟨hop, ne_finished_of_goesOn hgoes hfollow, ?_⟩
      rw [hfollowed, hstarted]
      show (Kernel.modifyThread _ _ _).threads.size = _
      rw [Kernel.size_modifyThread, ← hsize]
      simp [Kernel.addThread, Kernel.markShared, Kernel.modifyObject]
  · exact .inl ((leaving_perform (R := Work.On Kernel.SameSize) fun h => absurd h hop).keeps h)

end Step

end Interleave

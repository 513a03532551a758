import Interleave.Proofs.Machine.Sound
import Interleave.Proofs.Programs

/-!
# No wake-up is lost

A thread that waits stands in front of the instruction that made it wait, with the operands of the
instruction in place, so that it can try again. What it waits for is there: a monitor that another
thread owns, or a thread that has not ended.

`Kernel.Waiting` says this of all threads. A turn of one thread leaves the frames of the others
alone; if it makes a monitor free or ends the thread, those that wait for it are woken. The thread
itself may come to wait in one of the ways that `Kernel.Stall` lists.
-/

namespace Interleave

open Relation

namespace Program

/-- The initializers of classes are static. -/
def HasStaticInitializers (p : Program) : Prop :=
  ∀ m, p.Declares m → m.uniqueName = "<clinit>()V" → m.isStatic = true

instance (p : Program) : Decidable p.HasStaticInitializers :=
  decidable_of_iff' _ forall_declares_iff

end Program

namespace Kernel

/-! ## Ways to wait -/

/-- A thread stands in front of an instruction by which it tries to get the monitor of an object,
with the operands of the instruction in place. -/
inductive TriesMonitor (p : Program) (k : Kernel) (t : ThreadId) (r : ObjRef) : Prop where
  /-- It takes the monitor of the object on top of the stack. -/
  | enter {f : Frame} {i : Instruction} (top : k.topFrame t = .ok f)
    (instruction : f.instruction = .ok i) (op : i.op = .monitorEnter)
    (operand : f.peekRef 0 = .ok r)
  /-- It calls a synchronized method whose lock target is the object. -/
  | call {f : Frame} {i : Instruction} {m : Method} {receiver : ObjRef}
    (top : k.topFrame t = .ok f) (instruction : f.instruction = .ok i)
    (op : i.op.isInvoke = true) (callee : p.callTarget k f i = .ok (some m))
    (synchronized : m.isSynchronized = true) (operand : Call.Receiver f m receiver)
    (target : k.lockTarget m receiver = .ok r)
  /-- It calls the initializer of the class whose class object is the object. -/
  | initializer {f : Frame} {i : Instruction} {name : String} {c : Class}
    (top : k.topFrame t = .ok f) (instruction : f.instruction = .ok i)
    (op : i.op = .invokeClinit) (operand : i.className = .ok name)
    (found : p.resolveClass name = .ok c) (object : k.classObject c.id = .ok r)

/-- A thread stands in front of an instruction by which it waits for the end of another one, with
the object of that thread in place. -/
structure TriesJoin (k : Kernel) (t u : ThreadId) : Prop where
  stands : ∃ f i r, k.topFrame t = .ok f ∧ f.instruction = .ok i ∧ i.op = .threadJoin ∧
    f.peekRef 0 = .ok r ∧ ∃ th, k.threads[u.index]? = some th ∧ th.object = r

/-- A thread waits for the monitor of an object, and has reason to. -/
structure WaitsForMonitor (p : Program) (k : Kernel) (t : ThreadId) (r : ObjRef) : Prop where
  /-- Another thread owns the monitor. -/
  owned : ∃ o u th, k.heap.get? r = some o ∧ o.monitor.owner? = some u ∧ u ≠ t ∧
    k.threads[u.index]? = some th
  /-- The thread will try again to get it. -/
  tries : k.TriesMonitor p t r

/-- A thread waits for the end of another one, and has reason to. -/
structure WaitsForEnd (k : Kernel) (t u : ThreadId) : Prop where
  alive : ∃ th, k.threads[u.index]? = some th ∧ th.isAlive = true
  /-- The thread will try again to go on. -/
  tries : k.TriesJoin t u

/-- Whoever waits has reason to, and will try again. -/
structure Waiting (p : Program) (k : Kernel) : Prop where
  /-- Those that wait for a monitor. -/
  blocked : ∀ (t : ThreadId) th r, k.threads[t.index]? = some th → th.status = .blocked r →
    k.WaitsForMonitor p t r
  /-- Those that wait for the end of a thread. -/
  joining : ∀ (t : ThreadId) th u, k.threads[t.index]? = some th → th.status = .joining u →
    k.WaitsForEnd t u

/-! ## What those that wait rely on -/

/-- A change leaves alone what a thread relies on when it tries an instruction again. -/
structure Spares (t : ThreadId) (k k' : Kernel) : Prop where
  frame : ∀ f, k.topFrame t = .ok f → k'.topFrame t = .ok f
  classObjects : k'.classObjects = k.classObjects
  objects : ∀ r o, k.heap.get? r = some o → ∃ o', k'.heap.get? r = some o' ∧ o'.classId = o.classId
  threads : ∀ (u : ThreadId) th, k.threads[u.index]? = some th →
    ∃ th', k'.threads[u.index]? = some th' ∧ th'.object = th.object

variable {p : Program} {k k' : Kernel} {t u : ThreadId} {r : ObjRef} {s : ThreadStatus}

namespace Spares

theorem triesMonitor (h : Spares t k k') (ht : k.TriesMonitor p t r) : k'.TriesMonitor p t r := by
  cases ht with
  | enter top instruction op operand => exact .enter (h.frame _ top) instruction op operand
  | call top instruction op callee synchronized receiver target =>
    exact .call (h.frame _ top) instruction op (callTarget_of_objects h.objects callee) synchronized
      receiver ((lockTarget_congr h.classObjects).mpr target)
  | initializer top instruction op operand found object =>
    refine .initializer (h.frame _ top) instruction op operand found ?_
    rw [classObject_eq_ok] at object ⊢
    rw [h.classObjects, object]

theorem triesJoin (h : Spares t k k') (ht : k.TriesJoin t u) : k'.TriesJoin t u := by
  obtain ⟨f, i, r, htop, hi, hop, hpeek, th, hth, hobject⟩ := ht.stands
  obtain ⟨th', hth', he⟩ := h.threads u th hth
  exact ⟨f, i, r, h.frame f htop, hi, hop, hpeek, th', hth', he.trans hobject⟩

/-- Moves of one thread spare the others. -/
theorem of_advance (h : Advance p t k k') (hu : u ≠ t) : Spares u k k' where
  frame f hf := by
    obtain ⟨th, rest, hth, hframes⟩ := topFrame_eq_ok.mp hf
    obtain ⟨th', hth', hthread⟩ := h.old u th hth
    exact topFrame_eq_ok.mpr ⟨th', rest, hth', (hthread.frames hu).trans hframes⟩
  classObjects := h.classObjects
  objects := h.objects
  threads v th hth := by
    obtain ⟨th', hth', hthread⟩ := h.old v th hth
    exact ⟨th', hth', hthread.object⟩

/-- A change of the status of a thread spares all threads. -/
theorem setStatus (t u : ThreadId) (s : ThreadStatus) : Spares u k (k.setStatus t s) where
  frame f hf := by
    obtain ⟨th, rest, hth, hframes⟩ := topFrame_eq_ok.mp hf
    refine topFrame_eq_ok.mpr ⟨if t = u then { th with status := s } else th, rest, ?_, ?_⟩
    · unfold Kernel.setStatus
      rw [getElem?_modifyThread, hth]
      split <;> rfl
    · split <;> exact hframes
  classObjects := rfl
  objects r o ho := ⟨o, ho, rfl⟩
  threads v th hth := by
    unfold Kernel.setStatus
    rw [getElem?_modifyThread, hth]
    split
    · exact ⟨_, rfl, rfl⟩
    · exact ⟨_, rfl, rfl⟩

/-- The end of a thread spares the others. -/
theorem ended (hu : u ≠ t) : Spares u k (k.ended t) where
  frame f hf := by
    obtain ⟨th, rest, hth, hframes⟩ := topFrame_eq_ok.mp hf
    refine topFrame_eq_ok.mpr
      ⟨if th.status = .joining t then { th with status := .runnable } else th, rest, ?_, ?_⟩
    · rw [getElem?_ended, hth]
      simp only [Option.map_some, if_neg (Ne.symm hu)]
    · split <;> exact hframes
  classObjects := rfl
  objects r o ho := ⟨o, ho, rfl⟩
  threads v th hth := by
    rw [getElem?_ended, hth]
    refine ⟨_, rfl, ?_⟩
    dsimp only
    split
    · rfl
    · split <;> rfl

end Spares
/-! ## The invariant -/

namespace Waiting

variable {th : Thread}

/-- Moves of a thread that can run keep those waiting that are not woken. -/
theorem advance (hw : k.Waiting p) (runs : k.Runs t) (h : Advance p t k k') :
    k'.Waiting p := by
  -- a thread that waits after the moves is not the one that moves, and waited before
  have hbefore : ∀ (u : ThreadId) th', k'.threads[u.index]? = some th' → th'.status ≠ .runnable →
      u ≠ t ∧ ∃ th, k.threads[u.index]? = some th ∧ th'.status = th.status := by
    intro u th' hth' hne
    constructor
    · rintro rfl
      obtain ⟨th'', hth'', hrun⟩ := runs.advance h
      rw [hth'] at hth''
      cases hth''
      exact hne (by simpa [Thread.isRunnable] using hrun)
    · obtain ⟨th, hth, he, -⟩ := h.waited hth' hne
      exact ⟨th, hth, he⟩
  constructor
  · intro u th' r hth' hstatus
    obtain ⟨hu, th, hth, he⟩ := hbefore u th' hth' (by simp [hstatus])
    obtain ⟨⟨o, v, thv, ho, howner, hv, hthv⟩, htries⟩ := hw.blocked u th r hth (he ▸ hstatus)
    refine ⟨?_, (Spares.of_advance h hu).triesMonitor htries⟩
    obtain ⟨o', v', ho', howner', rfl | rfl⟩ := h.owned ho howner hth' hstatus
    · obtain ⟨thv', hthv', -⟩ := h.old v' thv hthv
      exact ⟨o', v', thv', ho', howner', hv, hthv'⟩
    · obtain ⟨tht, htht⟩ := runs.exists
      obtain ⟨tht', htht', -⟩ := h.old v' tht htht
      exact ⟨o', v', tht', ho', howner', Ne.symm hu, htht'⟩
  · intro u th' v hth' hstatus
    obtain ⟨hu, th, hth, he⟩ := hbefore u th' hth' (by simp [hstatus])
    obtain ⟨⟨thv, hthv, halive⟩, htries⟩ := hw.joining u th v hth (he ▸ hstatus)
    refine ⟨?_, (Spares.of_advance h hu).triesJoin htries⟩
    obtain ⟨thv', hthv', hthread⟩ := h.old v thv hthv
    refine ⟨thv', hthv', ?_⟩
    rcases hthread.status with he | ⟨-, hr⟩
    · simpa [Thread.isAlive, Thread.isTerminated, he] using halive
    · simp [Thread.isAlive, Thread.isTerminated, hr]

/-- A thread comes to wait in front of an instruction that it will try again. -/
theorem stall (hp : p.WellFormed) (hinit : p.HasStaticInitializers) (hs : k.Sound p)
    (h : k.Stall p t s) :
    (∀ r, s = .blocked r → k.WaitsForMonitor p t r) ∧ (∀ u, s = .joining u → k.WaitsForEnd t u) := by
  have howned : ∀ r, (∃ o, k.heap.get? r = some o ∧ o.monitor.lock t = none) →
      ∃ o u th, k.heap.get? r = some o ∧ o.monitor.owner? = some u ∧ u ≠ t ∧
        k.threads[u.index]? = some th := by
    rintro r ⟨o, ho, hlock⟩
    obtain ⟨u, howner, hu⟩ := Monitor.lock_eq_none_iff.mp hlock
    obtain ⟨th, hth⟩ := hs.owners r o u ho howner
    exact ⟨o, u, th, ho, howner, hu, hth⟩
  cases h with
  | monitor top instruction op operand owned =>
    refine ⟨fun r hr => ?_, fun u hu => by cases hu⟩
    cases hr
    exact ⟨howned _ owned, .enter top instruction op operand⟩
  | call top instruction op callee refused =>
    refine ⟨fun r hr => ?_, fun u hu => by cases hu⟩
    cases hr
    obtain ⟨receiver, hreceiver, htarget⟩ := refused.target _ top
    exact ⟨howned _ refused.owned,
      .call top instruction op callee refused.synchronized hreceiver htarget⟩
  | @initializer f i name c m r₀ top instruction op operand found init refused =>
    refine ⟨fun r hr => ?_, fun u hu => by cases hu⟩
    cases hr
    refine ⟨howned _ refused.owned, .initializer top instruction op operand found ?_⟩
    -- the initializer is static, so its lock target is the class object of its class
    obtain ⟨j, hj⟩ := p.class?_of_resolveClass found
    have hmem : m ∈ c.methods := List.mem_of_find?_eq_some init
    have hstatic : m.isStatic = true := by
      refine hinit m ⟨j, c, hj, hmem⟩ ?_
      simpa using List.find?_some init
    obtain ⟨receiver, -, htarget⟩ := refused.target _ top
    rw [lockTarget_eq_ok, if_pos hstatic, hp.owners j c hj m hmem] at htarget
    obtain ⟨_, hc, hobject⟩ := htarget
    cases hc
    rw [classObject_eq_ok, hp.ids j c hj, hobject]
  | join top instruction op operand known thread alive =>
    refine ⟨fun r hr => (by cases hr), fun u hu => ?_⟩
    cases hu
    refine ⟨⟨_, thread, alive⟩, _, _, _, top, instruction, op, operand, _, thread, ?_⟩
    obtain ⟨th, hfind, hid⟩ := Option.map_eq_some_iff.mp known
    obtain ⟨n, hn⟩ := Array.getElem?_of_mem (Array.mem_of_find?_eq_some hfind)
    have hth := hs.ids ⟨n⟩ th hn
    rw [hid] at hth
    subst hth
    rw [thread] at hn
    cases hn
    simpa using Array.find?_some hfind

/-- Waiting is kept when a thread comes to wait. -/
theorem setStatus (hw : k.Waiting p) (hs : s ≠ .terminated)
    (hblocked : ∀ r, s = .blocked r → k.WaitsForMonitor p t r)
    (hjoining : ∀ u, s = .joining u → k.WaitsForEnd t u) : (k.setStatus t s).Waiting p := by
  have hthread : ∀ (u : ThreadId) th', (k.setStatus t s).threads[u.index]? = some th' →
      (u = t ∧ th'.status = s) ∨ k.threads[u.index]? = some th' := by
    intro u th' hth'
    unfold Kernel.setStatus at hth'
    rw [getElem?_modifyThread] at hth'
    split at hth'
    · rename_i hu
      obtain ⟨th, -, rfl⟩ := Option.map_eq_some_iff.mp hth'
      exact .inl ⟨hu.symm, rfl⟩
    · exact .inr hth'
  have hstays : ∀ (u : ThreadId) th, k.threads[u.index]? = some th → ∃ th',
      (k.setStatus t s).threads[u.index]? = some th' ∧ (th.isAlive = true → th'.isAlive = true) := by
    intro u th hth
    unfold Kernel.setStatus
    rw [getElem?_modifyThread, hth]
    split
    · exact ⟨_, rfl, fun _ => by simpa [Thread.isAlive, Thread.isTerminated] using hs⟩
    · exact ⟨th, rfl, id⟩
  have hmonitor : ∀ u r, k.WaitsForMonitor p u r → (k.setStatus t s).WaitsForMonitor p u r := by
    rintro u r ⟨⟨o, v, thv, ho, howner, hv, hthv⟩, htries⟩
    obtain ⟨thv', hthv', -⟩ := hstays v thv hthv
    exact ⟨⟨o, v, thv', ho, howner, hv, hthv'⟩, (Spares.setStatus t u s).triesMonitor htries⟩
  have hend : ∀ u v, k.WaitsForEnd u v → (k.setStatus t s).WaitsForEnd u v := by
    rintro u v ⟨⟨thv, hthv, halive⟩, htries⟩
    obtain ⟨thv', hthv', halive'⟩ := hstays v thv hthv
    exact ⟨⟨thv', hthv', halive' halive⟩, (Spares.setStatus t u s).triesJoin htries⟩
  constructor
  · intro u th' r hth' hstatus
    rcases hthread u th' hth' with ⟨rfl, he⟩ | hth
    · exact hmonitor u r (hblocked r (he.symm.trans hstatus))
    · exact hmonitor u r (hw.blocked u th' r hth hstatus)
  · intro u th' v hth' hstatus
    rcases hthread u th' hth' with ⟨rfl, he⟩ | hth
    · exact hend u v (hjoining v (he.symm.trans hstatus))
    · exact hend u v (hw.joining u th' v hth hstatus)

/-- Those that wait for a thread that ends are woken. -/
theorem ended (hw : k.Waiting p) : (k.ended t).Waiting p := by
  -- a thread that waits after the end is another one, waited before, and not for the end
  have hbefore : ∀ (u : ThreadId) th', (k.ended t).threads[u.index]? = some th' →
      th'.status ≠ .runnable → th'.status ≠ .terminated →
      u ≠ t ∧ th'.status ≠ .joining t ∧ k.threads[u.index]? = some th' := by
    intro u th' hth' hrun hterm
    rw [getElem?_ended] at hth'
    obtain ⟨th, hth, rfl⟩ := Option.map_eq_some_iff.mp hth'
    split at hterm
    · exact absurd rfl hterm
    · rename_i hu
      rw [if_neg hu] at hrun ⊢
      split at hrun
      · exact absurd rfl hrun
      · rename_i hne
        rw [if_neg hne]
        exact ⟨Ne.symm hu, hne, hth⟩
  have hstays : ∀ (u : ThreadId) th, k.threads[u.index]? = some th → ∃ th',
      (k.ended t).threads[u.index]? = some th' ∧
        (u ≠ t → th.isAlive = true → th'.isAlive = true) := by
    intro u th hth
    rw [getElem?_ended, hth]
    refine ⟨_, rfl, fun hu halive => ?_⟩
    dsimp only
    rw [if_neg (Ne.symm hu)]
    split
    · rfl
    · exact halive
  constructor
  · intro u th' r hth' hstatus
    obtain ⟨hu, -, hth⟩ := hbefore u th' hth' (by simp [hstatus]) (by simp [hstatus])
    obtain ⟨⟨o, v, thv, ho, howner, hv, hthv⟩, htries⟩ := hw.blocked u th' r hth hstatus
    obtain ⟨thv', hthv', -⟩ := hstays v thv hthv
    exact ⟨⟨o, v, thv', ho, howner, hv, hthv'⟩, (Spares.ended hu).triesMonitor htries⟩
  · intro u th' v hth' hstatus
    obtain ⟨hu, hne, hth⟩ := hbefore u th' hth' (by simp [hstatus]) (by simp [hstatus])
    obtain ⟨⟨thv, hthv, halive⟩, htries⟩ := hw.joining u th' v hth hstatus
    have hv : v ≠ t := by
      rintro rfl
      exact hne hstatus
    obtain ⟨thv', hthv', halive'⟩ := hstays v thv hthv
    exact ⟨⟨thv', hthv', halive' hv halive⟩, (Spares.ended hu).triesJoin htries⟩

/-- A turn of a thread loses no wake-up. -/
theorem turn (hp : p.WellFormed) (hinit : p.HasStaticInitializers) (hw : k.Waiting p)
    (hs : k.Sound p) (h : Turn p k k') : k'.Waiting p := by
  cases h with
  | ran runs moves => exact hw.advance runs (.of_moves moves)
  | @stalled t k₁ s runs moves hstall =>
    have hadvance := Advance.of_moves moves
    obtain ⟨hblocked, hjoining⟩ := stall hp hinit (hs.advance runs.exists hadvance) hstall
    refine (hw.advance runs hadvance).setStatus ?_ hblocked hjoining
    cases hstall <;> exact nofun
  | ended runs moves => exact (hw.advance runs (.of_moves moves)).ended

/-- Nobody waits in the first state. -/
theorem start (h : Started p k) : k.Waiting p := by
  obtain ⟨⟨th, f, hthreads, -, hrunnable, -⟩, -⟩ := h.inv
  have honly : ∀ (u : ThreadId) th', k.threads[u.index]? = some th' → th'.status = .runnable := by
    rintro ⟨i⟩ th' hth'
    rw [hthreads] at hth'
    cases i with
    | zero =>
      obtain rfl : th = th' := by simpa using hth'
      exact hrunnable
    | succ i => simp at hth'
  constructor
  · intro t th r hth hstatus
    rw [honly t th hth] at hstatus
    cases hstatus
  · intro t th u hth hstatus
    rw [honly t th hth] at hstatus
    cases hstatus

end Waiting

end Kernel

namespace Machine

variable {p : Program} {config : Config} {m : Machine}

/-- **No wake-up is lost.** If initializers of classes are static, then in every state that a
machine reaches, a thread that is blocked on an object finds its monitor owned by another thread,
and stands in front of the instruction by which it tries to get it; and a thread that waits for the
end of another one finds it alive, and stands in front of the instruction by which it waits. So
when a transition ends in a deadlock, every live thread waits in one of these ways. -/
theorem Driven.waiting (hp : p.Built) (hinit : p.HasStaticInitializers)
    (h : m.Driven p config) :
    (∀ (t : ThreadId) th, m.kernel.threads[t.index]? = some th →
      (∀ r, th.status = .blocked r → m.kernel.WaitsForMonitor p t r) ∧
        ∀ u, th.status = .joining u → m.kernel.WaitsForEnd t u) ∧
    ∀ g m', m.transition g = .ok .deadlock m' →
      ∀ (t : ThreadId) th, m'.kernel.threads[t.index]? = some th → th.isAlive = true →
        (∃ r, th.status = .blocked r ∧ m'.kernel.WaitsForMonitor p t r) ∨
          ∃ u, th.status = .joining u ∧ m'.kernel.WaitsForEnd t u := by
  have hwaiting : ∀ {n : Machine}, n.Driven p config → n.kernel.Waiting p := by
    intro n hn
    exact (hn.sound_induction (fun _ => .start)
      fun _ _ hsound hwaiting => hwaiting.turn hp.wellFormed hinit hsound).2
  refine ⟨fun t th hth => ⟨fun r => (hwaiting h).blocked t th r hth,
    fun u => (hwaiting h).joining t th u hth⟩, fun g m' hm t th hth halive => ?_⟩
  have hwait := hwaiting (h.transition hm)
  -- no thread can run in a deadlock
  have hidle : m'.kernel.runnable = [] := by
    refine transition_induction (I := fun _ => True)
      (Q := fun e n => e = .deadlock → n.kernel.runnable = []) h.isReady.hostCall ?_ ?_ ?_ hm rfl
    · exact fun _ _ _ _ _ => trivial
    · exact fun _ _ _ _ _ _ _ => trivial
    · intro n n' steps e _ _ hrounded he
      cases hrounded with
      | finished idle => exact idle
      | blocked => cases he
      | broken => cases he
      | asked => cases he
      | escaped => cases he
  cases hstatus : th.status with
  | runnable =>
    have hmem : th.id ∈ m'.kernel.runnable := by
      refine List.mem_map_of_mem (List.mem_filter.mpr ⟨?_, ?_⟩)
      · exact Array.mem_toList_iff.mpr (Array.mem_of_getElem? hth)
      · simp [Thread.isRunnable, hstatus]
    rw [hidle] at hmem
    cases hmem
  | blocked r => exact .inl ⟨r, rfl, hwait.blocked t th r hth hstatus⟩
  | joining u => exact .inr ⟨u, rfl, hwait.joining t th u hth hstatus⟩
  | terminated => simp [Thread.isAlive, Thread.isTerminated, hstatus] at halive

/-- In the program whose threads take two locks in opposite order, each of them can get one lock.
Then the transition that follows ends in a deadlock, in which the first one waits for the lock of
the other, and the main thread for the end of the first one. -/
theorem Driven.waiting_deadlock : ∃ p m g m',
    Demo.deadlock.run (Program.base .plain) = .ok ((), p) ∧ p.Built ∧ p.HasStaticInitializers ∧
      Driven p {} m ∧ m.transition g = .ok .deadlock m' ∧
      m'.kernel.WaitsForMonitor p ⟨1⟩ ⟨22⟩ ∧ m'.kernel.WaitsForEnd ⟨0⟩ ⟨1⟩ := by
  obtain ⟨p, m, hbuild, hdriven, htest⟩ := Driven.exists_of_demo Demo.deadlock
    [0, 0, 0, 0, 0, 1, 1, 1, 1, 0, 0]
    (fun p m => decide p.HasStaticInitializers && m.pending.any fun g =>
      Effect.gives (Machine.transition (g.selectCyclic 0)) m fun e m' => e == .deadlock &&
        (m'.kernel.threads[0]?.any (·.status == .joining ⟨1⟩) &&
          m'.kernel.threads[1]?.any (·.status == .blocked ⟨22⟩))) (by decide +kernel)
  simp only [Bool.and_eq_true, decide_eq_true_eq, Option.any_eq_true] at htest
  obtain ⟨hinit, g, -, hgives⟩ := htest
  obtain ⟨e, m', hm, hend⟩ := Effect.gives_iff.mp hgives
  simp only [Bool.and_eq_true, Option.any_eq_true, beq_iff_eq] at hend
  obtain ⟨rfl, ⟨th, hth, hjoins⟩, tu, htu, hblocked⟩ := hend
  have hp : p.Built := Demo.keepsBuilt_deadlock (.base .plain) hbuild
  have hwaiting := (hdriven.transition hm).waiting hp hinit
  obtain ⟨r, hr, hwaits⟩ | ⟨u, hu, hwaits⟩ :=
    (hdriven.waiting hp hinit).2 (g.selectCyclic 0) m' hm ⟨1⟩ tu htu
      (by simp [Thread.isAlive, Thread.isTerminated, hblocked])
  · rw [hblocked] at hr
    cases hr
    exact ⟨p, m, g.selectCyclic 0, m', hbuild, hp, hinit, hdriven, hm, hwaits,
      (hwaiting.1 ⟨0⟩ th hth).2 ⟨1⟩ hjoins⟩
  · rw [hblocked] at hu
    cases hu

end Machine

end Interleave

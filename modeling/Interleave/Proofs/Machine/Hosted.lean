import Interleave.Proofs.Machine.HostCalls

/-!
# Machines that are used from outside

Whatever is done to a machine from outside, its state stays orderly: threads hold what their
activations need. So what a call from outside leaves behind when it is given up are the monitors of
the frames that it drops, and no others.
-/

namespace Interleave

open Effect Relation

/-- How often each thread holds a monitor says all about it. -/
theorem Monitor.eq_of_heldBy {m m' : Monitor} (h : ∀ u, m'.heldBy u = m.heldBy u) : m' = m := by
  cases m with
  | free =>
    cases m' with
    | free => rfl
    | held v n =>
      have hv := h v
      simp [heldBy, owner?, count] at hv
  | held u n =>
    have hu := h u
    cases m' with
    | free => simp [heldBy, owner?, count] at hu
    | held v n' =>
      by_cases huv : v = u
      · simpa [heldBy, owner?, count, huv] using hu
      · simp [heldBy, owner?, count, huv] at hu

namespace Kernel

variable {p : Program} {k k' : Kernel} {t : ThreadId} {f : Frame}

namespace Orderly

/-- Only the frames of one thread have changed, and these add no code that works on monitors. -/
theorem of_mine (h : k.Orderly) (hsurplus : SameSurplus k k')
    (hmine : ∀ g ∈ k'.frames t, g.method.HasNoMonitorCode)
    (hothers : ∀ u, u ≠ t → k'.frames u = k.frames u) : k'.Orderly := by
  refine h.of_surplus hsurplus fun u g hg => ?_
  by_cases hu : u = t
  · exact hmine g (hu ▸ hg)
  · exact h.code u g (hothers u hu ▸ hg)

/-- The code of the frame on top, when it has been worked on, and of those below. -/
theorem code_of_top (h : k.Orderly) {f' : Frame} {rest : List Frame}
    (hframes : k.frames t = f :: rest) (hsame : f.SameCall f') :
    ∀ g ∈ f' :: rest, g.method.HasNoMonitorCode := by
  refine List.forall_mem_cons.mpr ⟨?_, fun g hg => ?_⟩
  · rw [hsame.method]
    exact h.code t f (hframes ▸ List.mem_cons_self)
  · exact h.code t g (hframes ▸ List.mem_cons_of_mem _ hg)

theorem pushed (h : k.Orderly) (hfree : f.method.isSynchronized = false)
    (hcode : f.method.HasNoMonitorCode) (hheld : ∀ r u, k'.heap.heldBy r u = k.heap.heldBy r u)
    (hobjects : k'.classObjects = k.classObjects) (hmine : k'.frames t = f :: k.frames t)
    (hothers : ∀ u, u ≠ t → k'.frames u = k.frames u) : SameSurplus k k' ∧ k'.Orderly := by
  have hsurplus : SameSurplus k k' := .of_pushed hfree hheld hobjects hmine hothers
  refine ⟨hsurplus, h.of_mine hsurplus ?_ hothers⟩
  rw [hmine]
  exact List.forall_mem_cons.mpr ⟨hcode, h.code t⟩

theorem pushFrame {th : Thread} (h : k.Orderly) (hth : k.threads[t.index]? = some th)
    (hfree : f.method.isSynchronized = false) (hcode : f.method.HasNoMonitorCode) :
    SameSurplus k (k.modifyThread t (·.pushFrame f)) ∧
      (k.modifyThread t (·.pushFrame f)).Orderly := by
  refine h.pushed (t := t) hfree hcode (fun _ _ => rfl) rfl ?_ fun u hu =>
    frames_modifyThread_of_ne (Ne.symm hu) _
  rw [frames_modifyThread hth, frames_of_getElem? hth]
  rfl

theorem spawned (h : k.Orderly) {heap : Heap} (r : ObjRef) (hextends : k.heap.Extends heap)
    (hfree : f.method.isSynchronized = false) (hcode : f.method.HasNoMonitorCode) :
    ((({ k with heap } : Kernel).addThread r).2.modifyThread ⟨k.threads.size⟩
      (·.pushFrame f)).Orderly := by
  have hadded : (({ k with heap } : Kernel).addThread r).2.threads[k.threads.size]? =
      some { id := ⟨k.threads.size⟩, object := r } := by simp [addThread]
  have hmine : ((({ k with heap } : Kernel).addThread r).2.modifyThread ⟨k.threads.size⟩
      (·.pushFrame f)).frames ⟨k.threads.size⟩ = f :: k.frames ⟨k.threads.size⟩ := by
    rw [frames_modifyThread (t := ⟨k.threads.size⟩) hadded]
    simp [Thread.pushFrame, frames]
  refine And.right (h.pushed hfree hcode (fun r u => ?_) rfl hmine fun u hu => ?_)
  · exact hextends.heldBy r u
  · rw [frames_modifyThread_of_ne (Ne.symm hu)]
    exact ({ k with heap } : Kernel).frames_addThread r u

theorem pushOperand {v : Slot} (h : k.Orderly) (htop : k.topFrame t = .ok f) :
    (k.modifyThread t fun th =>
      { th with frames := th.frames.modifyHead (·.pushed v) }).Orderly := by
  obtain ⟨th, rest, hth, hframes⟩ := topFrame_eq_ok.mp htop
  have hbefore : k.frames t = f :: rest := (frames_of_getElem? hth).trans hframes
  have hsame : f.SameCall (f.pushed v) := ⟨rfl, rfl⟩
  have hafter : (k.modifyThread t fun th =>
      { th with frames := th.frames.modifyHead (·.pushed v) }).frames t = f.pushed v :: rest := by
    rw [frames_modifyThread hth]
    simp [hframes]
  have hothers : ∀ u, u ≠ t → (k.modifyThread t fun th =>
      { th with frames := th.frames.modifyHead (·.pushed v) }).frames u = k.frames u :=
    fun u hu => frames_modifyThread_of_ne (Ne.symm hu) _
  refine h.of_mine (.of_top hsame rfl rfl hbefore hafter hothers) ?_ hothers
  rw [hafter]
  exact h.code_of_top hbefore hsame

/-- A method may be entered from outside, or the thread is blocked in front of it. -/
theorem enter {m : Method} {e : Entry} {w w' : Work} (h : w.kernel.Orderly)
    (hm : m.HasNoMonitorCode) (henter : Call.enter t m w = .ok e w') : w'.kernel.Orderly := by
  rcases Call.enter_changes henter with
    ⟨-, f, f', g, heap, cs, htop, hsame, rfl, hacquired, hmarks, hbecomes⟩ | ⟨r, -, -, hbecomes⟩
  · obtain ⟨rest, hbefore, hafter, hothers⟩ := frames_entered htop f' g heap cs
    rw [hbecomes.kernel]
    refine h.of_mine (.enter htop hsame hacquired (objects_of_marks hmarks)) ?_ hothers
    rw [hafter]
    exact List.forall_mem_cons.mpr ⟨hm, h.code_of_top hbefore hsame⟩
  · have hframes : ∀ u, (w.kernel.setStatus t (.blocked r)).frames u = w.kernel.frames u :=
      frames_modifyThread_of_eq fun _ => rfl
    rw [hbecomes.kernel]
    exact h.of_sublist rfl rfl fun u => (hframes u).symm ▸ .refl _

end Orderly

end Kernel

namespace Machine

variable {p : Program} {m m' : Machine} {t : ThreadId}

/-- A machine that was made for a program and then used in any way, by a search or from outside. -/
inductive Hosted (p : Program) : Machine → Prop where
  | new {config : Config} {listening : Bool} : Hosted p (Machine.new p config listening)
  | started {m m' : Machine} {name : String} (hosted : Hosted p m)
    (h : Machine.start name m = .ok () m') : Hosted p m'
  | transition {m m' : Machine} {g : Generator} {e : TransitionEnd} (hosted : Hosted p m)
    (h : Machine.transition g m = .ok e m') : Hosted p m'
  /-- The pending generator was taken. -/
  | taken {m : Machine} (hosted : Hosted p m) : Hosted p m.takePending.2
  /-- A snapshot was restored. -/
  | restored {m n : Machine} (hosted : Hosted p m) (saved : Hosted p n) :
    Hosted p (m.restore n.snapshot)
  | attached {m m' : Machine} {t : ThreadId} (hosted : Hosted p m)
    (h : Machine.attach m = .ok t m') : Hosted p m'
  | pushed {m m' : Machine} {t : ThreadId} {v : Slot} (hosted : Hosted p m)
    (h : Machine.pushOperand t v m = .ok () m') : Hosted p m'
  | allocated {m m' : Machine} {t : ThreadId} {name : String} {r : ObjRef} (hosted : Hosted p m)
    (h : Machine.newObject t name m = .ok r m') : Hosted p m'
  | entered {m m' : Machine} {t : ThreadId} {method : Method} {e : Entry} (hosted : Hosted p m)
    (declared : p.Declares method) (h : Machine.enterMethod t method m = .ok e m') : Hosted p m'
  | left {m m' : Machine} {t : ThreadId} (hosted : Hosted p m)
    (h : Machine.leaveMethod t m = .ok () m') : Hosted p m'
  /-- A direct call has come back or was given up. -/
  | calledDirect {m m' : Machine} {t : ThreadId} {method : Method} {args : List Slot}
    (hosted : Hosted p m) (h : IsLeftBy m' (Machine.callDirect t method args m)) : Hosted p m'
  /-- So has a reflective call. -/
  | calledReflective {m m' : Machine} {t : ThreadId} {method : Method} {args : List Slot}
    (hosted : Hosted p m) (h : IsLeftBy m' (Machine.callReflective t method args m)) : Hosted p m'

/-! ## Calls that are given up -/

/-- A stub needs nothing, and contains no code that works on monitors. -/
theorem free_of_stub {method stub : Method} {id : MethodId} {name : String} {stamp : Stamp}
    (h : method.stub id name stamp = .ok stub) :
    stub.isSynchronized = false ∧ stub.HasNoMonitorCode := by
  obtain ⟨-, -, hfree, -, -, hcode⟩ := Method.shape_of_stub h
  exact ⟨hfree, Method.hasNoMonitorCode_of_stub hcode⟩

/-- What a call leaves behind: frames that it has added were dropped, and what they needed is still
held. -/
structure Drops (m : Machine) (t : ThreadId) (stub : Method) (dropped : List Frame)
    (m' : Machine) : Prop where
  /-- By performing instructions, the thread has put these frames above those of the caller. -/
  added : ∃ f k, f.method = stub ∧
    ReflTransGen (Kernel.Performs m.program t) (m.kernel.modifyThread t (·.pushFrame f)) k ∧
    k.frames t = dropped ++ m.kernel.frames t
  /-- The caller has the frames that it had before. -/
  frames : m'.kernel.frames t = m.kernel.frames t
  /-- Its thread holds a monitor once more for each dropped frame that needed it; what others hold
  is as before. -/
  counts : ∀ r u, m'.kernel.heap.heldBy r u =
    m.kernel.heap.heldBy r u + if u = t then dropped.countP (Frame.needs m.kernel r) else 0
  /-- A monitor that no dropped frame needed is exactly as before. -/
  monitors : ∀ r o, m.kernel.heap.get? r = some o → dropped.countP (Frame.needs m.kernel r) = 0 →
    ∃ o', m'.kernel.heap.get? r = some o' ∧ o'.monitor = o.monitor

namespace Called

variable {method stub : Method} {id : MethodId} {name : String} {stamp : Stamp}

theorem orderly (hp : m.program.HasNoMonitorCode) (hk : m.kernel.Orderly)
    (hstub : method.stub id name stamp = .ok stub) (h : Called m t stub m') :
    m'.kernel.Orderly := by
  obtain ⟨th, f, k, dropped, hth, rfl, hperforms, -, hdropped⟩ := h.runs
  obtain ⟨hfree, hcode⟩ := free_of_stub hstub
  exact hdropped.orderly (((hk.pushFrame hth hfree hcode).2.performs hp hperforms).2)

/-- A call leaves behind what the frames needed that it drops, and nothing else. -/
theorem exists_drops (hp : m.program.HasNoMonitorCode) (hk : m.kernel.Orderly)
    (hstub : method.stub id name stamp = .ok stub) (h : Called m t stub m') :
    ∃ dropped, Drops m t stub dropped m' := by
  obtain ⟨th, f, k, dropped, hth, rfl, hperforms, hframes, hdropped⟩ := h.runs
  obtain ⟨hfree, hcode⟩ := free_of_stub hstub
  obtain ⟨hpushed, horderly⟩ := hk.pushFrame hth hfree hcode
  -- up to the point where frames are dropped, the surplus of each thread is the same
  have hsurplus := hpushed.trans (horderly.performs hp hperforms).1
  have hcounts : ∀ r u, m'.kernel.heap.heldBy r u = m.kernel.heap.heldBy r u +
      if u = t then dropped.countP (Frame.needs m.kernel r) else 0 := by
    intro r u
    rw [hdropped.heap]
    by_cases hu : u = t
    · subst hu
      have hheld := hsurplus.counts r u
      have hactive : k.activations r u =
          dropped.countP (Frame.needs m.kernel r) + m.kernel.activations r u := by
        unfold Kernel.activations
        rw [hframes, List.countP_append, Frame.needs_congr hsurplus.objects]
      rw [if_pos rfl]
      omega
    · rw [if_neg hu, Kernel.heldBy_of_performs hperforms hu]
      rfl
  refine ⟨dropped, ⟨f, k, rfl, hperforms, hframes⟩, hdropped.frames_eq hframes, hcounts, ?_⟩
  intro r o ho hnone
  obtain ⟨o', ho'⟩ := Kernel.exists_object_of_performs hperforms ho
  rw [← hdropped.heap] at ho'
  refine ⟨o', ho', Monitor.eq_of_heldBy fun u => ?_⟩
  have hheld := hcounts r u
  simpa only [Heap.heldBy, ho, ho', hnone, ite_self, Nat.add_zero] using hheld

end Called

namespace Hosted

/-- Work that consists of moves keeps the state of a machine orderly. -/
theorem inv_of_moved {α : Type} {a : Step α} {v : α} (hp : p.HasNoMonitorCode)
    (hm : m.program = p ∧ m.hostCall = none ∧ m.kernel.Orderly) (ha : Keeps (Work.Moved p t) a)
    (h : Action.step t a m = .ok v m') :
    m'.program = p ∧ m'.hostCall = none ∧ m'.kernel.Orderly := by
  obtain ⟨w', hw', hprogram, -, hhost, hkernel, -⟩ := Action.step_eq_ok h
  refine ⟨hprogram.trans hm.1, hhost.trans hm.2.1, ?_⟩
  rw [hkernel]
  exact (hm.2.2.moves hp (ha hw').moves).2

/-- Whatever is done to a machine, its state stays orderly. -/
theorem inv (hp : p.HasNoMonitorCode) (h : Hosted p m) :
    m.program = p ∧ m.hostCall = none ∧ m.kernel.Orderly := by
  induction h with
  | new =>
    refine ⟨rfl, rfl, fun u f hf => ?_, fun r u => Nat.zero_le _⟩
    cases hf
  | started _ h ih =>
    obtain ⟨rfl, hhost, hk⟩ := ih
    obtain ⟨c, main, stub, f, r, heap, -, -, hstub, rfl, -, hextends, -, -, hsame⟩ := start_spawns h
    obtain ⟨hfree, hcode⟩ := free_of_stub hstub
    refine ⟨hsame.program, hsame.hostCall.trans hhost, ?_⟩
    rw [hsame.kernel]
    exact hk.spawned r hextends hfree hcode
  | transition _ h ih =>
    obtain ⟨rfl, hhost, hk⟩ := ih
    obtain ⟨hprogram, -, hhost'⟩ := (transition_turns hhost h).1
    exact ⟨hprogram, hhost', kernel_of_transition hhost h (fun _ _ hk => hk.turn hp) hk⟩
  | taken _ ih => exact ih
  | restored _ _ ih ih' => exact ⟨ih.1, ih.2.1, ih'.2.2⟩
  | attached _ h ih =>
    obtain ⟨rfl, hhost, hk⟩ := ih
    obtain ⟨r, heap, hextends, -, -, rfl, rfl⟩ := spawn_eq_ok h
    exact ⟨rfl, hhost, hk.spawned r hextends rfl fun i hi => by cases hi⟩
  | pushed _ h ih =>
    obtain ⟨rfl, hhost, hk⟩ := ih
    simp only [pushOperand, get_bind, Action.lift_bind_eq_ok, modify_eq_ok] at h
    obtain ⟨f, htop, rfl⟩ := h
    exact ⟨rfl, hhost, hk.pushOperand htop⟩
  | allocated _ h ih =>
    simp only [newObject, get_bind, Action.lift_bind_eq_ok] at h
    obtain ⟨c, -, h⟩ := h
    rw [ih.1] at h
    exact inv_of_moved hp ih (Step.keeps_newInstance _) h
  | entered _ declared h ih =>
    obtain ⟨rfl, hhost, hk⟩ := ih
    obtain ⟨e, m₁, hstep, h⟩ := bind_eq_ok.mp h
    simp only [modify_bind, pure_eq_ok] at h
    obtain ⟨rfl, rfl⟩ := h
    obtain ⟨w', henter, hprogram, -, hhost', hkernel, -⟩ := Action.step_eq_ok hstep
    have hsame := SameState.deliver m₁
    refine ⟨hsame.program.trans hprogram, (hsame.hostCall.trans hhost').trans hhost, ?_⟩
    rw [hsame.kernel, hkernel]
    exact Kernel.Orderly.enter hk (hp _ declared) henter
  | left _ h ih =>
    obtain ⟨f, m₁, hstep, h⟩ := bind_eq_ok.mp h
    obtain rfl := (modify_eq_ok.mp h).symm
    have hsame := SameState.deliver m₁
    obtain ⟨hprogram, hhost, hk⟩ := inv_of_moved hp ih Call.keeps_leave hstep
    refine ⟨hsame.program.trans hprogram, hsame.hostCall.trans hhost, ?_⟩
    rw [hsame.kernel]
    exact hk
  | calledDirect _ h ih =>
    obtain ⟨rfl, hhost, hk⟩ := ih
    obtain ⟨stub, hstub, hcalled⟩ := called_of_callDirect h
    exact ⟨hcalled.program, hcalled.hostCall.trans hhost, hcalled.orderly hp hk hstub⟩
  | calledReflective _ h ih =>
    obtain ⟨rfl, hhost, hk⟩ := ih
    obtain ⟨stub, hstub, hcalled⟩ := called_of_callReflective h
    exact ⟨hcalled.program, hcalled.hostCall.trans hhost, hcalled.orderly hp hk hstub⟩

end Hosted

/-- **What monitors are held for.** Let no method of a program take or give back monitors by
instructions. Along a run, monitors are held for activations, and for the frames with which threads
have ended because an exception left a firewall above. When a call from outside is given up, other
threads hold what they held before, and the thread of the call still holds what the frames needed
that were dropped. So a monitor is left behind exactly if such a frame needed it. -/
theorem monitors_held_for (hp : p.HasNoMonitorCode) :
    (∀ config xs m, Recorded p config xs m → HeldFor p xs m.kernel) ∧
    ∀ m t method args e m', Hosted p m → e.givesUp = true →
      (callDirect t method args m = .error e m' → ∃ stub dropped,
        method.directCallStub "[direct]" p.stamp = .ok stub ∧ Drops m t stub dropped m') ∧
      (callReflective t method args m = .error e m' → ∃ stub dropped,
        method.reflectiveCallStub p.stamp = .ok stub ∧ Drops m t stub dropped m') := by
  refine ⟨fun config xs m h => h.heldFor hp, fun m t method args e m' hm he => ?_⟩
  obtain ⟨rfl, -, hk⟩ := hm.inv hp
  constructor
  · intro h
    obtain ⟨stub, hstub, hcalled⟩ := called_of_callDirect (.of_error he h)
    obtain ⟨dropped, hdrops⟩ := hcalled.exists_drops hp hk hstub
    exact ⟨stub, dropped, hstub, hdrops⟩
  · intro h
    obtain ⟨stub, hstub, hcalled⟩ := called_of_callReflective (.of_error he h)
    obtain ⟨dropped, hdrops⟩ := hcalled.exists_drops hp hk hstub
    exact ⟨stub, dropped, hstub, hdrops⟩

/-! ## An example -/

/-- A synchronized method uses a class whose initializer divides by zero. -/
def carelessInitializer : Demo.Build Unit := do
  let lazy ← Demo.declare { name := "demo/Lazy" }
  Demo.define lazy "<clinit>" .static 0 fun a =>
    ((((a.iconst 1).iconst 0).emit .iDiv).emit .pop).emit .voidReturn
  let main ← Demo.declareMain []
  Demo.define main "use" (.static ∪ .synchronized) 0 fun a =>
    ((a.onClass .new "demo/Lazy").emit .pop).emit .voidReturn
  Demo.define main "main" Demo.mainModifiers 0 fun a =>
    (a.invoke .invokeStatic Demo.mainClass "use" "()V").emit .voidReturn

/-- Is the monitor of an object owned by a thread? -/
def isOwned (m : Machine) (r : ObjRef) (owner : Option ThreadId) : Bool :=
  (m.kernel.heap.get? r).any (·.monitor.owner? == owner)

theorem isOwned_iff {r : ObjRef} {owner : Option ThreadId} : m.isOwned r owner = true ↔
    ∃ o, m.kernel.heap.get? r = some o ∧ o.monitor.owner? = owner := by
  simp [isOwned, Option.any_eq_true]

/-- The exception ends the main thread, or a call from outside, while the class object of the main
class is locked. -/
theorem exists_carelessInitializer : ∃ p m method n e n' e' n'',
    carelessInitializer.run (Program.base .plain) = .ok ((), p) ∧ p.HasNoMonitorCode ∧
      Driven p {} m ∧ m.isOwned ⟨18⟩ (some ⟨0⟩) = true ∧
      (m.kernel.threads[0]?.any fun th => !th.isAlive) = true ∧
      Hosted p n ∧ n.isOwned ⟨18⟩ none = true ∧
      (callDirect ⟨0⟩ method [] n = .error e n' ∧ e.givesUp = true ∧
        n'.isOwned ⟨18⟩ (some ⟨0⟩) = true) ∧
      callReflective ⟨0⟩ method [] n = .error e' n'' ∧ e'.givesUp = true ∧
        n''.isOwned ⟨18⟩ (some ⟨0⟩) = true := by
  obtain ⟨p, m₀, hbuild, hstart, htest⟩ := exists_start_of_demo carelessInitializer
    (fun p m₀ => decide p.HasNoMonitorCode &&
      gives (follow [0]) m₀ (fun _ m => m.isOwned ⟨18⟩ (some ⟨0⟩) &&
        m.kernel.threads[0]?.any fun th => !th.isAlive) &&
      (p.findMethod? ⟨17⟩ "use()V").any fun method =>
        gives attach (Machine.new p {} false) fun t n =>
          n.isOwned ⟨18⟩ none &&
          fails (callDirect ⟨0⟩ method []) n (fun e n' =>
            e.givesUp && n'.isOwned ⟨18⟩ (some ⟨0⟩)) &&
          fails (callReflective ⟨0⟩ method []) n fun e n' =>
            e.givesUp && n'.isOwned ⟨18⟩ (some ⟨0⟩))
    (by decide +kernel)
  simp only [Bool.and_eq_true, decide_eq_true_eq, gives_iff, fails_iff, Option.any_eq_true]
    at htest
  obtain ⟨⟨hmonitors, _, m, hfollow, howned, hended⟩, method, -, t, n, hattach,
    ⟨hfree, e, n', hdirect⟩, e', n'', hreflective⟩ := htest
  have hdriven := Driven.start hstart
  exact ⟨p, m, method, n, e, n', e', n'', hbuild, hmonitors,
    hdriven.reaches (hdriven.isReady.reaches_follow hfollow), howned,
    (Option.any_eq_true _ _).mpr hended, .attached .new hattach, hfree, hdirect, hreflective⟩

/-- There the thread holds the monitor for a frame with which it has ended, and the calls leave it
behind for a frame that they drop. -/
theorem monitors_held_for_carelessInitializer : ∃ p xs m method n e n' e' n'' stub dropped,
    carelessInitializer.run (Program.base .plain) = .ok ((), p) ∧ p.HasNoMonitorCode ∧
      Recorded p {} xs m ∧ HeldFor p xs m.kernel ∧
      (∃ f ∈ leftBy xs ⟨0⟩, f.needs m.kernel ⟨18⟩ = true) ∧
      Hosted p n ∧ e.givesUp = true ∧ callDirect ⟨0⟩ method [] n = .error e n' ∧
      Drops n ⟨0⟩ stub dropped n' ∧ (∃ f ∈ dropped, f.needs n.kernel ⟨18⟩ = true) ∧
      e'.givesUp = true ∧ callReflective ⟨0⟩ method [] n = .error e' n'' ∧
      ∃ stub dropped, Drops n ⟨0⟩ stub dropped n'' := by
  obtain ⟨p, m, method, n, e, n', e', n'', hbuild, hp, hdriven, howned, hended, hhosted, hfree,
    ⟨hdirect, he, hheld⟩, hreflective, he', -⟩ := exists_carelessInitializer
  obtain ⟨xs, hrecorded⟩ := hdriven.exists_recorded
  have hheldFor := (monitors_held_for hp).1 {} xs m hrecorded
  obtain ⟨stub, dropped, -, hdrops⟩ :=
    ((monitors_held_for hp).2 n ⟨0⟩ method [] e n' hhosted he).1 hdirect
  obtain ⟨stub', dropped', -, hdrops'⟩ :=
    ((monitors_held_for hp).2 n ⟨0⟩ method [] e' n'' hhosted he').2 hreflective
  refine ⟨p, xs, m, method, n, e, n', e', n'', stub, dropped, hbuild, hp, hrecorded, hheldFor, ?_,
    hhosted, he, hdirect, hdrops, ?_, he', hreflective, stub', dropped', hdrops'⟩
  · -- the owner has ended
    obtain ⟨o, ho, howner⟩ := isOwned_iff.mp howned
    refine (hheldFor.owners ⟨18⟩ o ⟨0⟩ ho howner).resolve_left ?_
    rintro ⟨th, hth, halive⟩
    rw [show m.kernel.threads[0]? = some th from hth] at hended
    simp [halive] at hended
  · -- otherwise the monitor would be as free as before the call
    obtain ⟨o, ho, howner⟩ := isOwned_iff.mp hfree
    obtain ⟨o', ho', howner'⟩ := isOwned_iff.mp hheld
    by_contra hnone
    obtain ⟨o'', ho'', hmonitor⟩ := hdrops.monitors ⟨18⟩ o ho
      (List.countP_eq_zero.mpr fun f hf hneeds => hnone ⟨f, hf, hneeds⟩)
    rw [ho'] at ho''
    cases ho''
    rw [hmonitor, howner] at howner'
    cases howner'

/-- So a monitor may be held by a thread that has ended, and by a thread that a call from outside
has left without a frame that needs it. -/
theorem exists_monitor_left_behind : ∃ p,
    carelessInitializer.run (Program.base .plain) = .ok ((), p) ∧ p.HasNoMonitorCode ∧
      (∃ m r o u th, Driven p {} m ∧ m.kernel.heap.get? r = some o ∧
        o.monitor.owner? = some u ∧ m.kernel.threads[u.index]? = some th ∧ th.isAlive = false) ∧
      ∃ m t method e m' r o o', Hosted p m ∧ callDirect t method [] m = .error e m' ∧
        e.givesUp = true ∧ m.kernel.heap.get? r = some o ∧ m'.kernel.heap.get? r = some o' ∧
        o'.monitor.owner? ≠ o.monitor.owner? := by
  obtain ⟨p, m, method, n, e, n', -, -, hbuild, hp, hdriven, howned, hended, hhosted, hfree,
    ⟨hdirect, he, hheld⟩, -⟩ := exists_carelessInitializer
  obtain ⟨o, ho, howner⟩ := isOwned_iff.mp howned
  obtain ⟨th, hth, hdead⟩ := (Option.any_eq_true _ _).mp hended
  obtain ⟨o₁, ho₁, hfree⟩ := isOwned_iff.mp hfree
  obtain ⟨o₂, ho₂, hheld⟩ := isOwned_iff.mp hheld
  refine ⟨p, hbuild, hp, ⟨m, ⟨18⟩, o, ⟨0⟩, th, hdriven, ho, howner, hth, by simpa using hdead⟩, n,
    ⟨0⟩, method, e, n', ⟨18⟩, o₁, o₂, hhosted, hdirect, he, ho₁, ho₂, ?_⟩
  rw [hheld, hfree]
  simp

end Machine

end Interleave

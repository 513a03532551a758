import Interleave.Proofs.Step.Calls
import Interleave.Step.Execute

/-!
# One instruction

An instruction that succeeds has made some moves, perhaps with the waiting choice consumed. If it
has to be run again, it may end in a pause: the thread has been blocked in front of it, or a
generator has been left behind.

`Kernel.Stall` lists the ways in which a thread can come to wait.
-/

namespace Interleave

open Effect

namespace Program

variable {p : Program}

theorem class?_of_resolveClass {name : String} {c : Class} (h : p.resolveClass name = .ok c) :
    ∃ i, p.class? i = some c := by
  unfold resolveClass at h
  split at h
  · rename_i hc
    cases h
    obtain ⟨i, -, hi⟩ := Option.bind_eq_some_iff.mp hc
    exact ⟨i, hi⟩
  · cases h

/-- What a class has under a unique name is a method of the program. -/
theorem method?_eq_some {i : ClassId} {c : Class} {name : String} {m : Method}
    (hc : p.class? i = some c) (hm : c.method? name = some m) :
    p.Declares m ∧ m.uniqueName = name :=
  ⟨⟨i, c, hc, List.mem_of_find?_eq_some hm⟩, by simpa using List.find?_some hm⟩

theorem findMethod?_eq_some {c : ClassId} {name : String} {m : Method}
    (h : p.findMethod? c name = some m) : p.Declares m ∧ m.uniqueName = name := by
  obtain ⟨i, -, hi⟩ := List.exists_of_findSome?_eq_some h
  obtain ⟨k, hk, hm⟩ := Option.bind_eq_some_iff.mp hi
  exact method?_eq_some hk hm

theorem resolveMethod_eq_ok {r : MethodRef} {m : Method} (h : p.resolveMethod r = .ok m) :
    p.Declares m ∧ m.uniqueName = r.uniqueName := by
  unfold resolveMethod at h
  split at h
  · cases h
  · split at h
    · rename_i hm
      cases h
      exact findMethod?_eq_some hm
    · cases h

/-- A call lands in a method of the program that has the name of its operand. -/
theorem callTarget_eq_some {k : Kernel} {f : Frame} {i : Instruction} {m : Method}
    (h : p.callTarget k f i = .ok (some m)) :
    ∃ r, i.methodRef = .ok r ∧ p.Declares m ∧ m.uniqueName = r.uniqueName := by
  unfold callTarget at h
  simp only [bind, Except.bind] at h
  split at h
  · cases h
  · rename_i r hr
    refine ⟨r, hr, ?_⟩
    split at h
    · cases h
    · rename_i declared hdeclared
      have hd := resolveMethod_eq_ok hdeclared
      split at h
      · cases h
        exact hd
      · split at h
        · cases h
        · split at h
          · cases h
          · split at h
            · cases h
              exact hd
            · split at h
              · cases h
              · rename_i o ho
                simp only [Except.ok.injEq, Option.some.injEq] at h
                cases hm : p.findMethod? o.classId declared.uniqueName with
                | none => rw [hm] at h; exact h ▸ hd
                | some m' =>
                  rw [hm] at h
                  obtain ⟨hfound, hname⟩ := findMethod?_eq_some hm
                  exact h ▸ ⟨hfound, hname.trans hd.2⟩

end Program

namespace Kernel

/-- A thread enters methods of the program. -/
theorem Calls.declares {p : Program} {k : Kernel} {t : ThreadId} {m : Method}
    (h : k.Calls p t m) : p.Declares m := by
  cases h with
  | method _ _ _ callee =>
    obtain ⟨-, -, hdeclares, -⟩ := Program.callTarget_eq_some callee
    exact hdeclares
  | initializer found init => exact (Program.method?_eq_some found init).1

/-- The ways in which a thread comes to wait in front of an instruction. -/
inductive Stall (p : Program) (t : ThreadId) (k : Kernel) : ThreadStatus → Prop where
  /-- It cannot have the monitor of its operand. -/
  | monitor {f : Frame} {i : Instruction} {r : ObjRef} (top : k.topFrame t = .ok f)
    (instruction : f.instruction = .ok i) (op : i.op = .monitorEnter)
    (operand : f.peekRef 0 = .ok r)
    (owned : ∃ o, k.heap.get? r = some o ∧ o.monitor.lock t = none) : Stall p t k (.blocked r)
  /-- It cannot enter the method that it calls. -/
  | call {f : Frame} {i : Instruction} {m : Method} {r : ObjRef} (top : k.topFrame t = .ok f)
    (instruction : f.instruction = .ok i) (op : i.op.isInvoke = true)
    (callee : p.callTarget k f i = .ok (some m)) (refused : Call.Refused k t m r) :
    Stall p t k (.blocked r)
  /-- It cannot enter the initializer that its stub calls. -/
  | initializer {f : Frame} {i : Instruction} {name : String} {c : Class} {m : Method} {r : ObjRef}
    (top : k.topFrame t = .ok f) (instruction : f.instruction = .ok i)
    (op : i.op = .invokeClinit) (operand : i.className = .ok name)
    (found : p.resolveClass name = .ok c) (init : c.classInit? = some m)
    (refused : Call.Refused k t m r) : Stall p t k (.blocked r)
  /-- The thread of its operand has not ended. -/
  | join {f : Frame} {i : Instruction} {r : ObjRef} {u : ThreadId} {th : Thread}
    (top : k.topFrame t = .ok f) (instruction : f.instruction = .ok i)
    (op : i.op = .threadJoin) (operand : f.peekRef 0 = .ok r) (known : k.threadOf? r = some u)
    (thread : k.threads[u.index]? = some th) (alive : th.isAlive = true) :
    Stall p t k (.joining u)

/-- A thread is about to call a source of values. -/
structure AtSource (p : Program) (k : Kernel) (f : Frame) (i : Instruction) (m : Method)
    (s : ValueSource) : Prop where
  /-- It is about to call a method. -/
  op : i.op.isInvoke = true
  /-- The call lands there. -/
  callee : p.callTarget k f i = .ok (some m)
  body : m.isAbstract = false
  native : m.isNative = true
  source : m.source? = some s

/-- A thread may run a call right away: it may use the class that a static call names, and all
superclasses. -/
def MayCall (p : Program) (k : Kernel) (t : ThreadId) (i : Instruction) : Prop :=
  i.op = .invokeStatic → ∃ r c, i.methodRef = .ok r ∧ p.resolveClass r.className = .ok c ∧
    ∀ d ∈ p.chain c.id, k.Usable t d

end Kernel

namespace Work

variable {p : Program} {t : ThreadId} {w w₁ w' : Work}

/-- An instruction has been run. -/
inductive Ran (p : Program) (t : ThreadId) (w w' : Work) : Prop where
  /-- It has made some moves. -/
  | moved (h : Moved p t w w')
  /-- It has consumed the choice besides. -/
  | consumed {c : Choice} (choice : w.choice = some c)
    (h : Moved p t { w with choice := none } w')

theorem Ran.moves (h : Ran p t w w') :
    Relation.ReflTransGen (Kernel.Move p t) w.kernel w'.kernel := by
  cases h with
  | moved h => exact h.moves
  | consumed _ h => exact h.moves

theorem Ran.trans_moved (h : Ran p t w w₁) (h' : Moved p t w₁ w') : Ran p t w w' := by
  cases h with
  | moved h => exact .moved (IsTrans.trans _ _ _ h h')
  | consumed choice h => exact .consumed choice (IsTrans.trans _ _ _ h h')

theorem Moved.trans_ran (h : Moved p t w w₁) (h' : Ran p t w₁ w') : Ran p t w w' := by
  cases h' with
  | moved h' => exact .moved (IsTrans.trans _ _ _ h h')
  | consumed choice h' =>
    refine .consumed (h.choice ▸ choice) (IsTrans.trans _ _ _ ?_ h')
    exact ⟨h.moves, rfl, h.pending⟩

/-- An instruction has to be run again. -/
inductive Paused (p : Program) (t : ThreadId) (w w' : Work) : Prop where
  /-- The thread waits. -/
  | stalled {w₁ : Work} {s : ThreadStatus} (h : Moved p t w w₁) (stall : w₁.kernel.Stall p t s)
    (status : w₁.Becomes (w₁.kernel.setStatus t s) w')
  /-- A generator for the result of a call has been left behind. -/
  | asked {f : Frame} {i : Instruction} {m : Method} {s : ValueSource} {d : Domain}
    (top : w'.kernel.topFrame t = .ok f) (instruction : f.instruction = .ok i)
    (source : w'.kernel.AtSource p f i m s) (domain : Call.sourceDomain m s f = .ok d)
    (h : Moved p t w { w' with pending := w.pending }) (unmade : w.choice = none)
    (pending : w'.pending = some { id := "nondet." ++ m.name, domain := d })
    (may : w'.kernel.MayCall p t i)

theorem Moved.trans_paused (h : Moved p t w w₁) (h' : Paused p t w₁ w') : Paused p t w w' := by
  cases h' with
  | stalled h' stall status => exact .stalled (IsTrans.trans _ _ _ h h') stall status
  | asked top instruction source domain h' unmade pending may =>
    refine .asked top instruction source domain ?_ (h.choice ▸ unmade) pending may
    exact ⟨h.moves.trans h'.moves, h'.choice.trans h.choice, rfl⟩

end Work

namespace Waiting

variable {p : Program} {t : ThreadId} {i : Instruction} {w w' : Work} {flow : Flow}

/-- Taking a monitor. -/
theorem monitorEnter_eq_ok (hi : w.kernel.At t i) (hop : i.op = .monitorEnter)
    (h : monitorEnter p t i w = .ok flow w') :
    Work.Moved p t w w' ∨ (flow = .again ∧ Work.Paused p t w w') := by
  obtain ⟨f, hf, hinstruction⟩ := hi
  unfold monitorEnter at h
  simp only [bind_eq_ok, Step.frame_eq_ok, Step.lift_eq_ok] at h
  obtain ⟨_, w₀, ⟨hf', rfl⟩, r, _, ⟨hr, rfl⟩, h⟩ := h
  rw [hf] at hf'
  cases hf'
  split at h
  · exact .inl ((Step.keeps_onFrame Frame.keeps_pop).bind (fun _ => Step.keeps_raise _ _) h)
  · simp only [bind_eq_ok, Step.lock_eq_ok] at h
    obtain ⟨b, w₁, ⟨o, ho, hlock⟩, h⟩ := h
    rcases hlock with ⟨rfl, hnone, rfl⟩ | ⟨l, rfl, hl, rfl⟩
    · simp only [Bool.false_eq_true, if_false, bind_eq_ok, Step.modifyThread_eq_ok,
        pure_eq_ok] at h
      obtain ⟨_, _, ⟨-, rfl⟩, rfl, rfl⟩ := h
      refine .inr ⟨rfl, .stalled (refl _) (.monitor hf hinstruction hop hr ⟨o, ho, hnone⟩) ?_⟩
      exact ⟨rfl, rfl, rfl⟩
    · have hmove := Work.Moved.single (Kernel.Move.lock (p := p) ⟨f, hf, hinstruction⟩ hop ho hl)
      simp only [if_true] at h
      refine .inl (IsTrans.trans _ _ _ hmove ?_)
      exact (Step.keeps_onFrame Frame.keeps_pop).bind
        (fun _ => (Step.keeps_emit _).bind fun _ => .pure _) h

/-- Giving back a monitor. -/
theorem monitorExit_eq_ok (hi : w.kernel.At t i) (hop : i.op = .monitorExit)
    (h : monitorExit p t i w = .ok flow w') : Work.Moved p t w w' := by
  obtain ⟨f, hf, hinstruction⟩ := hi
  unfold monitorExit at h
  obtain ⟨r, w₁, hpop, h⟩ := bind_eq_ok.mp h
  have hpopped : Work.Moved p t w w₁ := Step.keeps_onFrame Frame.keeps_popRef hpop
  -- the frame is still in front of the same instruction
  have hat : w₁.kernel.At t i := by
    simp only [Step.onFrame_eq_ok, Frame.popRef, bind_eq_ok, Frame.pop_eq_ok, pure_eq_ok] at hpop
    obtain ⟨f₀, _, hf₀, ⟨_, _, ⟨rest, -, rfl⟩, -, rfl⟩, rfl⟩ := hpop
    rw [hf] at hf₀
    cases hf₀
    refine ⟨{ f with operands := rest }, ?_, hinstruction⟩
    obtain ⟨th, fs, hth, -⟩ := Kernel.topFrame_eq_ok.mp hf
    refine Kernel.topFrame_eq_ok.mpr ⟨th.setTop { f with operands := rest }, th.frames.tail, ?_, rfl⟩
    rw [Kernel.getElem?_modifyThread, if_pos rfl, hth]
    rfl
  refine IsTrans.trans _ _ _ hpopped ?_
  split at h
  · exact Step.keeps_raise _ _ h
  · simp only [bind_eq_ok, Step.unlock_eq_ok] at h
    obtain ⟨b, w₂, ⟨o, ho, hunlock⟩, h⟩ := h
    rcases hunlock with ⟨rfl, -, rfl⟩ | ⟨l, rfl, hl, rfl⟩
    · exact Step.keeps_raise _ _ h
    · refine IsTrans.trans _ _ _ (.single (.unlock hat hop ho hl)) ?_
      exact (Step.keeps_emit _).bind (fun _ => .pure _) h

/-- Starting a thread. -/
theorem keeps_threadStart (i : Instruction) : Keeps (Work.Moved p t) (threadStart p t i) := by
  refine (Step.keeps_onFrame Frame.keeps_popRef).bind fun r => ?_
  split
  · exact Step.keeps_raise _ _
  · intro w flow w' h
    simp only [bind_eq_ok, Step.kernel_eq_ok] at h
    obtain ⟨_, w₀, ⟨rfl, rfl⟩, h⟩ := h
    split at h
    · exact Step.keeps_raise _ _ h
    · rename_i hnew
      simp only [bind_eq_ok, Step.object_eq_ok] at h
      obtain ⟨o, _, ⟨ho, rfl⟩, h⟩ := h
      cases hrun : p.findMethod? o.classId "run()V" with
      | none => simp [hrun] at h
      | some run =>
        simp only [hrun, bind_eq_ok, Step.lift_eq_ok, Step.kernel_eq_ok, Step.setKernel_eq_ok,
          Step.pushFrame_eq_ok, Step.emit_eq_ok, pure_eq_ok] at h
        obtain ⟨stub, _, ⟨hstub, rfl⟩, _, _, ⟨rfl, rfl⟩, _, _, rfl, _, _, ⟨-, rfl⟩, _, _, rfl, rfl,
          rfl⟩ := h
        refine .of_becomes (.start ?_ ho hrun hstub) ⟨rfl, rfl, rfl⟩
        simpa using hnew

/-- Waiting for the end of a thread. -/
theorem threadJoin_eq_ok (hi : w.kernel.At t i) (hop : i.op = .threadJoin)
    (h : threadJoin p t i w = .ok flow w') :
    Work.Moved p t w w' ∨ (flow = .again ∧ Work.Paused p t w w') := by
  obtain ⟨f, hf, hinstruction⟩ := hi
  have hgo : Keeps (Work.Moved p t)
      (do
        let _ ← Step.onFrame t Frame.pop
        return Flow.goto i.nextIndex) :=
    (Step.keeps_onFrame Frame.keeps_pop).bind fun _ => .pure _
  unfold threadJoin at h
  simp only [Step.frame_bind_eq_ok, Step.lift_bind_eq_ok, hf, Except.ok.injEq] at h
  obtain ⟨_, rfl, r, hr, h⟩ := h
  split at h
  · exact .inl ((Step.keeps_onFrame Frame.keeps_pop).bind (fun _ => Step.keeps_raise _ _) h)
  · rw [Step.kernel_bind_eq_ok] at h
    cases hu : w.kernel.threadOf? r with
    | none =>
      simp only [hu] at h
      exact .inl (hgo h)
    | some u =>
      simp only [hu, Step.lift_bind_eq_ok] at h
      obtain ⟨other, hother, h⟩ := h
      split at h
      · rename_i halive
        simp only [bind_eq_ok, Step.modifyThread_eq_ok, pure_eq_ok] at h
        obtain ⟨_, _, ⟨-, rfl⟩, rfl, rfl⟩ := h
        have hstall : w.kernel.Stall p t (.joining u) :=
          .join hf hinstruction hop hr hu (Kernel.thread_eq_ok.mp hother) halive
        exact .inr ⟨rfl, .stalled (refl _) hstall ⟨rfl, rfl, rfl⟩⟩
      · exact .inl (hgo h)

end Waiting

namespace Call

variable {p : Program} {t : ThreadId} {i : Instruction} {w w' : Work} {flow : Flow}

/-- The flow after an attempt to enter a method. -/
theorem enterFlow_eq_ok {m : Method} (hm : w.kernel.Calls p t m)
    (h : enterFlow t m w = .ok flow w') :
    Work.Moved p t w w' ∨ ∃ r, flow = .again ∧ Refused w.kernel t m r ∧
      w.Becomes (w.kernel.setStatus t (.blocked r)) w' := by
  unfold enterFlow at h
  obtain ⟨e, w₁, henter, h⟩ := bind_eq_ok.mp h
  rcases enter_eq_ok hm henter with ⟨rfl, hmoved⟩ | ⟨r, rfl, hrefused, hbecomes⟩
  · obtain ⟨-, rfl⟩ := pure_eq_ok.mp h
    exact .inl hmoved
  · obtain ⟨rfl, rfl⟩ := pure_eq_ok.mp h
    exact .inr ⟨r, rfl, hrefused, hbecomes⟩

/-- The attempt to run the initializer of a class, once its superclasses may be used. -/
def runClassInit (t : ThreadId) (i : Instruction) (c : Class) : Step Flow :=
  match c.classInit? with
  | none => do
    Step.setClassStatus c.id .initialized
    pure (.goto i.nextIndex)
  | some m => enterFlow t m

theorem runClassInit_eq_ok {f : Frame} {name : String} {c : Class} {status : ClassStatus}
    (hf : w.kernel.topFrame t = .ok f) (hinstruction : f.instruction = .ok i)
    (hop : i.op = .invokeClinit) (hname : i.className = .ok name)
    (hc : p.resolveClass name = .ok c) (hstatus : w.kernel.classStatus c.id = .ok status)
    (hdue : ¬ (status = .initialized ∨ status = .initializing t)) {w₁ : Work}
    (hmoved : Work.Moved p t w w₁) (hsettles : Settles p w.kernel w₁.kernel)
    (habove : ∀ s, c.superclass = some s → ∀ d ∈ p.chain s, w₁.kernel.Usable t d)
    (h : runClassInit t i c w₁ = .ok flow w') :
    Work.Moved p t w w' ∨ (flow = .again ∧ Work.Paused p t w w') := by
  unfold runClassInit at h
  cases hm : c.classInit? with
  | none =>
    simp only [hm] at h
    have hset := (Step.keeps_settle c.id).bind
      (fun _ => Keeps.pure (R := Work.Moved p t) (Flow.goto i.nextIndex)) h
    exact .inl (IsTrans.trans _ _ _ hmoved hset)
  | some m =>
    simp only [hm] at h
    obtain ⟨j, hj⟩ := p.class?_of_resolveClass hc
    have hcalls : w₁.kernel.Calls p t m := by
      refine .initializer hj hm (fun hid husable => ?_) habove
      have hkept := hsettles.kept j m (by rw [hj]; exact hm)
      unfold Kernel.Usable at husable
      rw [hkept, ← hid, hstatus] at husable
      exact hdue (husable.imp Except.ok.inj Except.ok.inj)
    rcases enterFlow_eq_ok hcalls h with hent | ⟨r, rfl, hrefused, hbecomes⟩
    · exact .inl (IsTrans.trans _ _ _ hmoved hent)
    · rw [← Kernel.topFrame_congr hsettles.threads] at hf
      exact .inr ⟨rfl, .stalled hmoved
        (.initializer hf hinstruction hop hname hc hm hrefused) hbecomes⟩

/-- Running the initializer of a class. -/
theorem invokeClassInit_eq_ok (hi : w.kernel.At t i) (hop : i.op = .invokeClinit)
    (h : invokeClassInit p t i w = .ok flow w') :
    Work.Moved p t w w' ∨ (flow = .again ∧ Work.Paused p t w w') := by
  obtain ⟨f, hf, hinstruction⟩ := hi
  unfold invokeClassInit at h
  simp only [Step.lift_bind_eq_ok, Step.kernel_bind_eq_ok] at h
  obtain ⟨name, hname, c, hc, status, hstatus, h⟩ := h
  split at h
  · obtain ⟨-, rfl⟩ := pure_eq_ok.mp h
    exact .inl (refl _)
  · rename_i hdue
    cases hs : c.superclass with
    | none =>
      simp only [hs] at h
      exact runClassInit_eq_ok hf hinstruction hop hname hc hstatus hdue (refl _) (.refl _)
        (by simp [hs]) h
    | some s =>
      simp only [hs, bind_eq_ok (x := initializeClass? p t s)] at h
      obtain ⟨pushed, w₁, hinit, h⟩ := h
      have hmoved : Work.Moved p t w w₁ := by
        refine moved_of_initializeClass? ⟨f, hf, hinstruction⟩ (fun d hd => ?_) hinit
        exact .above hop hname hc hs hd
      cases pushed with
      | true =>
        simp only [if_true] at h
        obtain ⟨rfl, rfl⟩ := pure_eq_ok.mp h
        exact .inl hmoved
      | false =>
        simp only [Bool.false_eq_true, if_false] at h
        obtain ⟨hsettles, habove⟩ := initializeClass?_eq_ok_false hinit
        refine runClassInit_eq_ok hf hinstruction hop hname hc hstatus hdue hmoved hsettles ?_ h
        intro s' hs'
        rw [hs] at hs'
        cases hs'
        exact habove

/-- Calling a native method. -/
theorem invokeNative_eq_ok {m : Method} {f : Frame} (hf : w.kernel.topFrame t = .ok f)
    (hinstruction : f.instruction = .ok i) (hop : i.op.isInvoke = true)
    (hcallee : p.callTarget w.kernel f i = .ok (some m)) (hbody : m.isAbstract = false)
    (hnative : m.isNative = true) (hmay : w.kernel.MayCall p t i)
    (h : invokeNative p t i m w = .ok flow w') :
    Work.Ran p t w w' ∨ (flow = .again ∧ Work.Paused p t w w') := by
  unfold invokeNative at h
  cases hs : m.source? with
  | none =>
    simp only [hs] at h
    exact .inl (.moved (Step.keeps_raise _ _ h))
  | some s =>
    simp only [hs, get_bind] at h
    cases hc : w.choice with
    | some c =>
      simp only [hc, bind_eq_ok (x := modify _), modify_eq_ok] at h
      obtain ⟨_, _, rfl, h⟩ := h
      have hframe : Keeps Frame.SameCall
          (do
            let _ ← Frame.popSlots m.argSlots
            if 0 < m.resultSlots then
              modify fun f => { f with operands := c.toSlots.reverse ++ f.operands } :
            Frame.Action Unit) := by
        refine (Frame.keeps_popSlots _).bind fun _ => ?_
        split
        · exact Frame.keeps_modify fun _ => ⟨rfl, rfl⟩
        · exact .pure _
      exact .inl (.consumed hc ((Step.keeps_onFrame hframe).bind (fun _ => .pure _) h))
    | none =>
      simp only [hc, Step.frame_bind_eq_ok, Step.lift_bind_eq_ok, hf, Except.ok.injEq] at h
      obtain ⟨_, rfl, d, hd, h⟩ := h
      simp only [bind_eq_ok, modify_eq_ok, pure_eq_ok] at h
      obtain ⟨_, _, rfl, rfl, rfl⟩ := h
      exact .inr ⟨rfl, .asked hf hinstruction ⟨hop, hcallee, hbody, hnative, hs⟩ hd
        ⟨.refl, rfl, rfl⟩ hc rfl hmay⟩

/-- The call itself, when the class of the method may be used. -/
def callMethod (p : Program) (t : ThreadId) (i : Instruction) : Step Flow := do
  let f ← Step.frame t
  match ← Step.lift (p.callTarget (← Step.kernel) f i) with
  | none =>
    let r ← Step.lift i.methodRef
    Step.raise p t Builtin.nullPointer (some ("invoking " ++ r.name ++ " on null"))
  | some m =>
    Step.note fun n => { n with callee := some m.id }
    if m.isAbstract then Step.raise p t Builtin.abstractMethod (some m.fullName)
    else if m.isNative then invokeNative p t i m
    else enterFlow t m

theorem callMethod_eq_ok {f : Frame} (hf : w.kernel.topFrame t = .ok f)
    (hinstruction : f.instruction = .ok i) (hop : i.op.isInvoke = true)
    (hmay : w.kernel.MayCall p t i) (h : callMethod p t i w = .ok flow w') :
    Work.Ran p t w w' ∨ (flow = .again ∧ Work.Paused p t w w') := by
  unfold callMethod at h
  simp only [Step.frame_bind_eq_ok, Step.kernel_bind_eq_ok, Step.lift_bind_eq_ok, hf,
    Except.ok.injEq] at h
  obtain ⟨_, rfl, target, htarget, h⟩ := h
  cases target with
  | none => exact .inl (.moved ((Step.keeps_lift _).bind (fun _ => Step.keeps_raise _ _) h))
  | some m =>
    simp only [bind_eq_ok (x := Step.note _), Step.note_eq_ok] at h
    obtain ⟨_, w₁, hw₁, h⟩ := h
    have hk : w₁.kernel = w.kernel := by rw [hw₁]
    have hnoted : Work.Moved p t w w₁ := ⟨hk ▸ .refl, by rw [hw₁], by rw [hw₁]⟩
    rw [← hk] at hf htarget hmay
    cases habs : m.isAbstract with
    | true =>
      simp only [habs, if_true] at h
      exact .inl (.moved (IsTrans.trans _ _ _ hnoted (Step.keeps_raise _ _ h)))
    | false =>
      cases hnat : m.isNative with
      | true =>
        simp only [habs, hnat, Bool.false_eq_true, if_false, if_true] at h
        rcases invokeNative_eq_ok hf hinstruction hop htarget habs hnat hmay h with
          hran | ⟨hflow, hpaused⟩
        · exact .inl (hnoted.trans_ran hran)
        · exact .inr ⟨hflow, hnoted.trans_paused hpaused⟩
      | false =>
        simp only [habs, hnat, Bool.false_eq_true, if_false] at h
        have hcalls : w₁.kernel.Calls p t m := .method hf hinstruction hop htarget
        rcases enterFlow_eq_ok hcalls h with hent | ⟨r, hflow, hrefused, hbecomes⟩
        · exact .inl (.moved (IsTrans.trans _ _ _ hnoted hent))
        · exact .inr ⟨hflow, .stalled hnoted (.call hf hinstruction hop htarget hrefused)
            hbecomes⟩

/-- Calling a static method: the class is checked, and then the thread tries again or calls. -/
theorem invokeStatic_eq_ok (hi : w.kernel.At t i) (hop : i.op = .invokeStatic)
    (h : invoke p t i w = .ok flow w') :
    ∃ r c pushed w₁, i.methodRef = .ok r ∧ p.resolveClass r.className = .ok c ∧
      initializeClass? p t c.id w = .ok pushed w₁ ∧
      (pushed = true → flow = .again ∧ w' = w₁) ∧
      (pushed = false → Work.Ran p t w₁ w' ∨ (flow = .again ∧ Work.Paused p t w₁ w')) := by
  obtain ⟨f, hf, hinstruction⟩ := hi
  unfold invoke at h
  simp only [hop, if_true, Step.lift_bind_eq_ok] at h
  obtain ⟨r, hr, c, hc, h⟩ := h
  rw [bind_eq_ok] at h
  obtain ⟨pushed, w₁, hinit, h⟩ := h
  refine ⟨r, c, pushed, w₁, hr, hc, hinit, ?_, ?_⟩
  · rintro rfl
    simp only [if_true] at h
    exact pure_eq_ok.mp h
  · rintro rfl
    simp only [Bool.false_eq_true, if_false] at h
    obtain ⟨hsettles, husable⟩ := initializeClass?_eq_ok_false hinit
    have hmay : w₁.kernel.MayCall p t i := fun _ => ⟨r, c, hr, hc, husable⟩
    exact callMethod_eq_ok ((Kernel.topFrame_congr hsettles.threads t).trans hf) hinstruction
      (by rw [hop]; rfl) hmay h

/-- Calling a method. -/
theorem invoke_eq_ok (hi : w.kernel.At t i) (hop : i.op.isInvoke = true)
    (h : invoke p t i w = .ok flow w') :
    Work.Ran p t w w' ∨ (flow = .again ∧ Work.Paused p t w w') := by
  by_cases hstatic : i.op = .invokeStatic
  · obtain ⟨r, c, pushed, w₁, hr, hc, hinit, htrue, hfalse⟩ := invokeStatic_eq_ok hi hstatic h
    have hnamed : p.checkedClass i = .ok c.id := by
      simp [Program.checkedClass, hstatic, hr, hc, bind, Except.bind, pure, Except.pure]
    have hmoved : Work.Moved p t w w₁ :=
      moved_of_initializeClass? hi (fun _ => .checked (by rw [hstatic]; rfl) hnamed) hinit
    cases pushed with
    | true =>
      obtain ⟨-, rfl⟩ := htrue rfl
      exact .inl (.moved hmoved)
    | false =>
      rcases hfalse rfl with hran | ⟨hflow, hpaused⟩
      · exact .inl (hmoved.trans_ran hran)
      · exact .inr ⟨hflow, hmoved.trans_paused hpaused⟩
  · obtain ⟨f, hf, hinstruction⟩ := hi
    unfold invoke at h
    simp only [hstatic, if_false] at h
    exact callMethod_eq_ok hf hinstruction hop (fun h => absurd h hstatic) h

end Call

namespace Step

variable {p : Program} {t : ThreadId} {i : Instruction} {w w' : Work}

/-- Running an instruction. -/
theorem execute_eq_ok {flow : Flow} (hi : w.kernel.At t i) (h : execute p t i w = .ok flow w') :
    Work.Ran p t w w' ∨ (flow = .again ∧ Work.Paused p t w w') := by
  have hmoves : ∀ {a : Step Flow}, Keeps (Work.Moved p t) a → a w = .ok flow w' →
      Work.Ran p t w w' ∨ (flow = .again ∧ Work.Paused p t w w') :=
    fun ha h => .inl (.moved (ha h))
  generalize ha : execute p t i = a at h
  unfold execute at ha
  split at ha <;> subst ha
  · exact .inl (.moved (Memory.moved_of_new hi ‹_› h))
  · exact hmoves (Memory.keeps_getField i) h
  · exact hmoves (Memory.keeps_putField i) h
  · exact .inl (.moved (Memory.moved_of_getStatic hi ‹_› h))
  · exact .inl (.moved (Memory.moved_of_putStatic hi ‹_› h))
  · exact hmoves (Memory.keeps_newArray i) h
  · exact hmoves (Memory.keeps_newArray i) h
  · exact hmoves (Memory.keeps_arrayLength i) h
  · exact hmoves (Memory.keeps_loadElement i) h
  · exact hmoves (Memory.keeps_loadElement i) h
  · exact hmoves (Memory.keeps_storeElement i) h
  · exact hmoves (Memory.keeps_storeElement i) h
  · exact Call.invoke_eq_ok hi (by simp [*, Opcode.isInvoke]) h
  · exact Call.invoke_eq_ok hi (by simp [*, Opcode.isInvoke]) h
  · exact Call.invoke_eq_ok hi (by simp [*, Opcode.isInvoke]) h
  · exact (Call.invokeClassInit_eq_ok hi ‹_› h).imp_left .moved
  · exact hmoves Call.keeps_stubReturn h
  · exact hmoves (Call.keeps_doReturn i) h
  · exact hmoves (Call.keeps_doReturn i) h
  · exact hmoves (Call.keeps_doReturn i) h
  · exact hmoves (Call.keeps_doReturn i) h
  · exact hmoves (Call.keeps_doReturn i) h
  · exact (Waiting.monitorEnter_eq_ok hi ‹_› h).imp_left .moved
  · exact .inl (.moved (Waiting.monitorExit_eq_ok hi ‹_› h))
  · exact hmoves (Waiting.keeps_threadStart i) h
  · exact (Waiting.threadJoin_eq_ok hi ‹_› h).imp_left .moved
  · exact hmoves (Local.keeps_run i) h

/-- Running a call. -/
theorem execute_of_isInvoke (hop : i.op.isInvoke = true) : execute p t i = Call.invoke p t i := by
  unfold execute
  split <;> simp_all [Opcode.isInvoke]

/-- Carrying out a flow. -/
theorem keeps_follow (flow : Flow) : Keeps (Work.Moved p t) (follow p t flow) := by
  cases flow with
  | goto index =>
    refine (keeps_onFrame (Frame.keeps_modify ?_)).bind fun _ => .pure _
    exact fun f => ⟨rfl, rfl⟩
  | raise r =>
    refine (Unwound.keeps_unwind r).bind fun u => ?_
    cases u with
    | handled => exact .pure _
    | escaped record => exact .pure _
  | called => exact .pure _
  | returned => exact .pure _
  | again => exact .pure _
  | finish => exact .pure _

/-- An exception escapes the thread in which it was thrown. -/
theorem thread_of_escaped {r : Uncaught} (h : perform p t i w = .ok (.escaped r) w') :
    r.thread = t := by
  have hsearch : ∀ (x : ObjRef) (c : ClassId) (fs : List Frame) (w w' : Work),
      Unwound.search p t x c fs w = .ok (.escaped r) w' → r.thread = t := by
    intro x c fs
    induction fs with
    | nil => exact fun w w' h => by simp [Unwound.search] at h
    | cons f rest ih =>
      intro w w' h
      unfold Unwound.search at h
      rw [lift_bind_eq_ok] at h
      obtain ⟨handler, -, h⟩ := h
      cases handler with
      | some handler =>
        simp only [bind_eq_ok, pure_eq_ok] at h
        obtain ⟨target, _, -, _, _, -, h, -⟩ := h
        cases h
      | none =>
        simp only [bind_eq_ok (x := Call.leave t)] at h
        obtain ⟨_, w₁, -, h⟩ := h
        split at h
        · simp only [bind_eq_ok, pure_eq_ok] at h
          obtain ⟨o, _, -, h, -⟩ := h
          cases h
          rfl
        · exact ih w₁ w' h
  unfold perform at h
  obtain ⟨flow, w₁, -, hfollow⟩ := bind_eq_ok.mp h
  cases flow with
  | raise x =>
    unfold follow at hfollow
    simp only [bind_eq_ok (x := Unwound.unwind p t x)] at hfollow
    obtain ⟨u, w₂, hunwind, hfollow⟩ := hfollow
    cases u with
    | handled => simp at hfollow
    | escaped r' =>
      simp only [pure_eq_ok, Outcome.escaped.injEq] at hfollow
      obtain ⟨rfl, rfl⟩ := hfollow
      unfold Unwound.unwind at hunwind
      simp only [bind_eq_ok] at hunwind
      obtain ⟨_, _, -, o, _, -, k, _, -, th, _, -, hunwind⟩ := hunwind
      exact hsearch _ _ _ _ _ hunwind
  | goto index =>
    obtain ⟨_, _, -, hrunning⟩ := bind_eq_ok.mp hfollow
    simp at hrunning
  | called => simp [follow] at hfollow
  | returned => simp [follow] at hfollow
  | again => simp [follow] at hfollow
  | finish => simp [follow] at hfollow

/-- **What an instruction does.** When a thread runs the instruction that it stands in front of, it
makes some moves, perhaps consuming the waiting choice; or, after some moves, it pauses in front of
that instruction. -/
theorem perform_eq_ok {out : Outcome} (hi : w.kernel.At t i) (h : perform p t i w = .ok out w') :
    Work.Ran p t w w' ∨ (out = .running ∧ Work.Paused p t w w') := by
  unfold perform at h
  obtain ⟨flow, w₁, hexecute, hfollow⟩ := bind_eq_ok.mp h
  rcases execute_eq_ok hi hexecute with hran | ⟨rfl, hpaused⟩
  · exact .inl (hran.trans_moved (keeps_follow flow hfollow))
  · obtain ⟨rfl, rfl⟩ := pure_eq_ok.mp hfollow
    exact .inr ⟨rfl, hpaused⟩

/-- Apart from the status of the thread, an instruction is a sequence of moves. -/
theorem perform_moves {out : Outcome} (hi : w.kernel.At t i) (h : perform p t i w = .ok out w') :
    ∃ k, Relation.ReflTransGen (Kernel.Move p t) w.kernel k ∧
      (w'.kernel = k ∨ ∃ s, w'.kernel = k.setStatus t s) := by
  rcases perform_eq_ok hi h with hran | ⟨-, hpaused⟩
  · exact ⟨_, hran.moves, .inl rfl⟩
  · cases hpaused with
    | stalled hmoved _ status => exact ⟨_, hmoved.moves, .inr ⟨_, status.kernel⟩⟩
    | asked _ _ _ _ hmoved => exact ⟨_, hmoved.moves, .inl rfl⟩

end Step

end Interleave

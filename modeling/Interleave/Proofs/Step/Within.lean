import Interleave.Proofs.Step.Parts
import Interleave.Proofs.Step.Perform

/-!
# What the parts of instructions have in common

An instruction is gone through once here, for all relations that admit its parts. The relations
differ in what they admit, and the instructions in the parts that they have: most of them have
simple parts only, and the others fall into a few kinds.
-/

namespace Interleave

open Effect

namespace Local

variable {p : Program} {t : ThreadId} {R : Work → Work → Prop} [Work.Admits R]
  [Work.AdmitsFrames t R]

theorem within_run (i : Instruction) : Step.Within t R Step.goesOn (run p t i) := by
  refine (Step.within_onFrame (keeps_execute i) (seeks_execute i)).bind fun flow _ => ?_
  cases flow with
  | goto index => exact Step.within_goto index
  | raise className message => exact Step.within_raise className message
  | rethrow r => exact .pure (by simp)

end Local

/-! ## Calling -/

namespace Call

variable {p : Program} {t : ThreadId} {R : Work → Work → Prop} [Work.Admits R]

theorem within_receiver (m : Method) : Step.Within t R (fun _ => True) (receiver t m) := by
  unfold receiver
  split
  · exact .pure trivial
  · exact Step.within_frame.bind fun f _ =>
      (Step.within_lift (f.sought_peekRef _)).mono fun _ _ => trivial

theorem within_acquire [Work.AdmitsLocks p t R] (m : Method) (receiver : ObjRef) :
    Step.Within t R (fun _ => True) (acquire t m receiver) := by
  unfold acquire
  split
  · exact .pure trivial
  · refine Step.within_kernel.bind fun k _ =>
      (Step.within_lift (k.sought_lockTarget m receiver)).bind fun target _ =>
        Step.within_lock (p := p) rfl (Step.reports_emit _) (fun _ => ?_) (.pure trivial)
    split
    · split
      · exact (Step.within_setClassStatus _ _).bind fun _ _ => .pure trivial
      · exact .pure trivial
    · exact .pure trivial

variable [Work.AdmitsFrames t R]

theorem within_moveIn [Work.AdmitsLocks p t R] {m : Method} (hm : p.Declares m)
    (receiver : ObjRef) : Step.Within t R (fun _ => True) (moveIn t m receiver) :=
  (Step.within_onFrame (Frame.keeps_popSlots _) (Frame.seeks_popSlots _)).bind fun args _ =>
    (Step.within_note _).bind fun _ _ => Step.within_enterFrame (p := p)
      (f := { Frame.enter m receiver with
        locals := args.toArray ++ Array.replicate (m.maxLocals - args.length) 0 }) hm

theorem within_enter [Work.AdmitsLocks p t R] {m : Method} (hm : p.Declares m) :
    Step.Within t R (fun _ => True) (enter t m) := by
  refine (within_receiver m).bind fun receiver _ =>
    (within_acquire (p := p) m receiver).bind fun r _ => ?_
  split
  · exact (Step.within_setStatus (p := p) (by simp)).bind fun _ _ =>
      (Step.within_note _).bind fun _ _ => .pure trivial
  · exact (within_moveIn hm receiver).bind fun _ _ => .pure trivial

theorem within_enterFlow [Work.AdmitsLocks p t R] {m : Method} (hm : p.Declares m) :
    Step.Within t R Step.stays (enterFlow t m) := by
  refine (within_enter hm).bind fun e _ => ?_
  split
  · exact .pure ⟨by simp, by simp⟩
  · exact .pure ⟨by simp, by simp⟩

theorem within_initialize? (cs : List ClassId) :
    Step.Within t R (fun _ => True) (initialize? p t cs) := by
  induction cs with
  | nil => exact .pure trivial
  | cons c cs ih =>
    unfold initialize?
    refine Step.within_kernel.bind fun k _ =>
      (Step.within_lift (k.sought_classStatus c)).bind fun status _ => ?_
    split
    · exact ih
    · split
      · exact (Step.within_setClassStatus _ _).bind fun _ _ => ih
      · exact (Step.within_lift (Method.sought_directCallStub _ _ _)).bind fun stub hstub =>
          (Step.within_pushStub (Method.isStub_of_directCallStub hstub)).bind fun _ _ =>
            .pure trivial

theorem within_initializeClass? (c : ClassId) :
    Step.Within t R (fun _ => True) (initializeClass? p t c) :=
  within_initialize? _

theorem waits_runClassInit (i : Instruction) {c : Class} (hc : ∃ j, p.class? j = some c) :
    Step.Waits p t (runClassInit t i c) := by
  unfold runClassInit
  split
  · exact .of_plain fun _ _ _ =>
      (Step.within_setClassStatus _ _).bind fun _ _ => Step.within_goto _
  · rename_i m hm
    obtain ⟨j, hj⟩ := hc
    exact .of_stays fun _ _ _ _ => within_enterFlow (p := p) (Program.method?_eq_some hj hm).1

theorem waits_invokeClassInit (i : Instruction) : Step.Waits p t (invokeClassInit p t i) := by
  refine .bind (fun _ _ _ => Step.within_lift i.sought_className) fun name _ =>
    .bind (fun _ _ _ => Step.within_lift (p.sought_resolveClass name)) fun c hc =>
      .bind (fun _ _ _ => Step.within_kernel) fun k _ =>
        .bind (fun _ _ _ => Step.within_lift (k.sought_classStatus c.id)) fun status _ => ?_
  have hinit : Step.Waits p t (runClassInit t i c) :=
    waits_runClassInit i (Program.class?_of_resolveClass hc)
  dsimp only
  split
  · exact .of_plain fun _ _ _ => Step.within_goto _
  · split
    · refine .bind (fun _ _ _ => within_initializeClass? _) fun pushed _ => ?_
      split
      · exact .of_plain fun _ _ _ => Step.within_again
      · exact hinit
    · exact hinit

theorem within_invokeNative (i : Instruction) (m : Method) :
    Step.Within t R Step.goesOn (invokeNative p t i m) := by
  unfold invokeNative
  split
  · exact Step.within_raise _ _
  · rename_i s hs
    have hget : Step.Within t R (fun _ => True) (get : Step Work) :=
      Step.within_of_same .get .get fun w v w' h => by
        obtain ⟨-, rfl⟩ := get_eq_ok.mp h
        exact ⟨rfl, rfl, trivial⟩
    have hmodify : ∀ f : Work → Work, (∀ w, (f w).kernel = w.kernel ∧ (f w).events = w.events) →
        Step.Within t R (fun _ => True) (modify f) :=
      fun f hf => Step.within_of_same (.modify f)
        (.modify fun w => congrArg Kernel.threads (hf w).1) fun w v w' h => by
          rw [modify_eq_ok.mp h, (hf w).1]
          exact ⟨rfl, (hf w).2, trivial⟩
    refine hget.bind fun w _ => ?_
    split
    · rename_i c hc
      refine Step.Within.bind (hmodify _ fun _ => ⟨rfl, rfl⟩) fun _ _ => ?_
      refine (Step.within_onFrame ?_ ?_).bind fun _ _ => Step.within_goto _
      · refine (Frame.keeps_popSlots _).bind fun _ => ?_
        split
        · exact Frame.keeps_modify fun _ => ⟨rfl, rfl⟩
        · exact .pure _
      · refine (Frame.seeks_popSlots _).bind fun _ => ?_
        split
        · exact .modify _
        · exact .pure _
    · refine Step.within_frame.bind fun f _ =>
        (Step.within_lift (sought_sourceDomain m s f)).bind fun d _ => ?_
      exact Step.Within.bind (hmodify _ fun _ => ⟨rfl, rfl⟩) fun _ _ => Step.within_again

theorem waits_callMethod (i : Instruction) : Step.Waits p t (callMethod p t i) := by
  refine .bind (fun _ _ _ => Step.within_frame) fun f _ =>
    .bind (fun _ _ _ => Step.within_kernel) fun k _ =>
      .bind (fun _ _ _ => Step.within_lift (p.sought_callTarget k f i)) fun target htarget => ?_
  split
  · exact .of_plain fun _ _ _ =>
      (Step.within_lift i.sought_methodRef).bind fun r _ => Step.within_raise _ _
  · obtain ⟨-, -, hm, -⟩ := Program.callTarget_eq_some htarget
    refine .bind (fun _ _ _ => Step.within_note _) fun _ _ => ?_
    split
    · exact .of_plain fun _ _ _ => Step.within_raise _ _
    · split
      · exact .of_plain fun _ _ _ => within_invokeNative i _
      · exact .of_stays fun _ _ _ _ => within_enterFlow hm

theorem waits_invoke (i : Instruction) : Step.Waits p t (invoke p t i) := by
  unfold invoke
  dsimp only
  split
  · refine .bind (fun _ _ _ => Step.within_lift i.sought_methodRef) fun r _ =>
      .bind (fun _ _ _ => Step.within_lift (p.sought_resolveClass _)) fun c _ =>
        .bind (fun _ _ _ => within_initializeClass? c.id) fun pushed _ => ?_
    split
    · exact .of_plain fun _ _ _ => Step.within_again
    · exact waits_callMethod i
  · exact waits_callMethod i

end Call

/-! ## Objects, fields and arrays -/

namespace Memory

variable {p : Program} {t : ThreadId} {R : Work → Work → Prop}

theorem seeks_popValue (code : TypeCode) : Seeks (popValue code) := by
  unfold popValue
  split
  · exact Frame.seeks_popWide
  · exact Frame.seeks_pop

theorem seeks_pushValue (code : TypeCode) (v : Slot) : Seeks (pushValue code v) := by
  unfold pushValue
  split
  · exact Frame.seeks_pushWide v
  · exact Frame.seeks_push v

section Frames

variable [Work.AdmitsFrames t R]

theorem within_pushValue (code : TypeCode) (v : Slot) :
    Step.Within t R (fun _ => True) (Step.onFrame t (pushValue code v)) :=
  Step.within_onFrame (keeps_pushValue code v) (seeks_pushValue code v)

theorem within_popValue (code : TypeCode) :
    Step.Within t R (fun _ => True) (Step.onFrame t (popValue code)) :=
  Step.within_onFrame (keeps_popValue code) (seeks_popValue code)

theorem within_popRef : Step.Within t R (fun _ => True) (Step.onFrame t Frame.popRef) :=
  Step.within_onFrame Frame.keeps_popRef Frame.seeks_popRef

theorem within_pushRef (r : ObjRef) :
    Step.Within t R (fun _ => True) (Step.onFrame t (Frame.pushRef r)) :=
  Step.within_onFrame (Frame.keeps_pushRef r) (Frame.seeks_pushRef r)

theorem within_popInt : Step.Within t R (fun _ => True) (Step.onFrame t Frame.popInt) :=
  Step.within_onFrame Frame.keeps_popInt Frame.seeks_popInt

theorem within_pop : Step.Within t R (fun _ => True) (Step.onFrame t Frame.pop) :=
  Step.within_onFrame Frame.keeps_pop Frame.seeks_pop

end Frames

/-- Writing a slot changes nothing else of an object. -/
theorem within_setSlot [Work.AdmitsWrites R] (r : ObjRef) (slot : Nat) (v : Slot) :
    Step.Within t R (fun _ => True)
      (Step.modifyKernel fun k => k.modifyObject r (·.setSlot slot v)) where
  keeps w u w' h := by
    rw [Step.modifyKernel_eq_ok] at h
    subst h
    exact Work.AdmitsWrites.write r slot v
  gives _ _ _ _ := trivial
  faults := (Step.seeks_modifyKernel _).inwardly
  grounded := .of_faults (fun w u w' hw h => hw.of_threads (Step.modifyKernel_eq_ok.mp h ▸ rfl))
    (Step.seeks_modifyKernel _)
  covering := .of_spares (Step.spares_modifyKernel fun _ => rfl)

variable [Work.Admits R]

theorem within_publish (v : Slot) : Step.Within t R (fun _ => True) (publish v) :=
  Step.within_markShared _

theorem within_elements (r : ObjRef) : Step.Within t R (fun _ => True) (elements r) := by
  refine (Step.within_object r).bind fun o _ => ?_
  split
  · exact .pure trivial
  · exact .throw rfl

variable [Work.AdmitsFrames t R]

theorem within_staticSlot (r : FieldRef) : Step.Within t R (fun _ => True) (staticSlot p t r) := by
  refine (Step.within_lift (sought_staticField p r)).bind fun cf _ =>
    (Call.within_initializeClass? cf.1).bind fun pushed _ => ?_
  split
  · exact .pure trivial
  · exact Step.within_kernel.bind fun k _ =>
      (Step.within_lift (k.sought_classObject _)).bind fun _ _ => .pure trivial

theorem within_new (i : Instruction) : Step.Within t R Step.goesOn (new p t i) := by
  refine (Step.within_lift i.sought_className).bind fun name _ =>
    (Step.within_lift (p.sought_resolveClass name)).bind fun c _ =>
      (Call.within_initializeClass? c.id).bind fun pushed _ => ?_
  split
  · exact Step.within_again
  · exact (Step.within_newInstance c.id).bind fun r _ =>
      (within_pushRef r).bind fun _ _ => Step.within_goto _

theorem within_getField (i : Instruction) : Step.Within t R Step.goesOn (getField p t i) := by
  refine (Step.within_lift i.sought_fieldRef).bind fun r _ =>
    (Step.within_lift (sought_instanceField p r)).bind fun f _ => within_popRef.bind fun obj _ => ?_
  split
  · exact Step.within_raise _ _
  · exact (Step.within_touch obj).bind fun _ _ => (Step.within_object obj).bind fun o _ =>
      (Step.within_lift (sought_readField _ _ _ _)).bind fun v _ =>
        (within_pushValue f.code v).bind fun _ _ => Step.within_goto _

theorem within_getStatic (i : Instruction) : Step.Within t R Step.goesOn (getStatic p t i) := by
  refine (Step.within_lift i.sought_fieldRef).bind fun r _ =>
    (within_staticSlot r).bind fun slot _ => ?_
  split
  · exact Step.within_again
  · exact (Step.within_object _).bind fun o _ =>
      (Step.within_lift (sought_readField _ _ _ _)).bind fun v _ =>
        (within_pushValue _ v).bind fun _ _ => Step.within_goto _

theorem within_newArray (i : Instruction) : Step.Within t R Step.goesOn (newArray p t i) := by
  refine (Step.within_lift (sought_elementCode p i)).bind fun code _ =>
    within_popInt.bind fun length _ => ?_
  split
  · exact Step.within_raise _ _
  · exact (Step.within_lift (p.sought_resolveClass _)).bind fun c _ =>
      (Step.within_newArray _ _ _).bind fun r _ => (within_pushRef r).bind fun _ _ =>
        Step.within_goto _

theorem within_arrayLength (i : Instruction) : Step.Within t R Step.goesOn (arrayLength p t i) := by
  refine within_popRef.bind fun r _ => ?_
  split
  · exact Step.within_raise _ _
  · exact (within_elements r).bind fun es _ =>
      (Step.within_onFrame (Frame.keeps_pushInt _) (Frame.seeks_pushInt _)).bind fun _ _ =>
        Step.within_goto _

theorem within_loadElement (i : Instruction) : Step.Within t R Step.goesOn (loadElement p t i) := by
  refine within_popInt.bind fun index _ => within_popRef.bind fun r _ => ?_
  split
  · exact Step.within_raise _ _
  · refine (within_elements r).bind fun es _ => ?_
    split
    · exact Step.within_raise _ _
    · exact (Step.within_touch r).bind fun _ _ =>
        (Step.within_onFrame (Frame.keeps_push _) (Frame.seeks_push _)).bind fun _ _ =>
          Step.within_goto _

/-! ### Writing slots -/

omit [Work.AdmitsFrames t R] in
/-- What comes behind a store that may have to publish its value. -/
theorem within_published {b : Bool} (v : Slot) (index : Nat) :
    Step.Within t R Step.goesOn (do
      if b then publish v
      pure (Flow.goto index)) := by
  dsimp only
  split
  · exact (within_publish v).bind fun _ _ => Step.within_goto _
  · exact Step.within_goto _

section Writes

variable [Work.AdmitsWrites R]

omit [Work.AdmitsFrames t R] in
theorem within_writeField (r : ObjRef) (slot : Nat) (v : Slot) (form : ObjectForm) :
    Step.Within t R (fun _ => True) (writeField r slot v form) :=
  (Step.within_object r).bind fun _ _ =>
    (Step.within_lift (sought_readField _ _ _ _)).bind fun _ _ => within_setSlot r slot v

theorem within_putField (i : Instruction) : Step.Within t R Step.goesOn (putField p t i) := by
  refine (Step.within_lift i.sought_fieldRef).bind fun r _ =>
    (Step.within_lift (sought_instanceField p r)).bind fun f _ =>
      (within_popValue f.code).bind fun v _ => within_popRef.bind fun obj _ => ?_
  split
  · exact Step.within_raise _ _
  · exact (Step.within_touch obj).bind fun _ _ =>
      (within_writeField obj f.slot v _).bind fun _ _ =>
        (Step.within_object obj).bind fun o _ => within_published v _

theorem within_putStatic (i : Instruction) : Step.Within t R Step.goesOn (putStatic p t i) := by
  refine (Step.within_lift i.sought_fieldRef).bind fun r _ =>
    (within_staticSlot r).bind fun slot _ => ?_
  split
  · exact Step.within_again
  · exact (within_popValue _).bind fun v _ =>
      (within_writeField _ _ v _).bind fun _ _ => within_published v _

theorem within_storeElement (i : Instruction) : Step.Within t R Step.goesOn (storeElement p t i) := by
  refine within_pop.bind fun v _ =>
    within_popInt.bind fun index _ => within_popRef.bind fun r _ => ?_
  split
  · exact Step.within_raise _ _
  · refine (within_elements r).bind fun es _ => ?_
    split
    · exact Step.within_raise _ _
    · exact (Step.within_touch r).bind fun _ _ => (within_setSlot r _ v).bind fun _ _ =>
        (Step.within_object r).bind fun o _ => within_published v _

end Writes

end Memory

/-! ## Monitors and threads -/

namespace Waiting

variable {p : Program} {t : ThreadId} {R : Work → Work → Prop} [Work.Admits R]
  [Work.AdmitsFrames t R]

theorem waits_monitorEnter (i : Instruction) : Step.Waits p t (monitorEnter p t i) := by
  refine .bind (fun _ _ _ => Step.within_frame) fun f _ =>
    .bind (fun _ _ _ => Step.within_lift (f.sought_peekRef 0)) fun r _ => ?_
  split
  · exact .of_plain fun _ _ _ => Memory.within_pop.bind fun _ _ => Step.within_raise _ _
  · refine .of_stays fun _ _ _ _ => Step.within_lock (p := p)
      (g := fun _ => pure (.goto i.nextIndex)) (by simp only [if_true, bind_assoc])
      (Step.reports_onFrame _ Frame.keeps_pop Frame.seeks_pop) (fun _ => ?_) ?_
    · exact .pure ⟨by simp, by simp⟩
    · exact (Step.within_setStatus (p := p) (by simp)).bind fun _ _ => .pure ⟨by simp, by simp⟩

theorem waits_threadJoin (i : Instruction) : Step.Waits p t (threadJoin p t i) := by
  have hgo : Step.Waits p t (do
      let _ ← Step.onFrame t Frame.pop
      return Flow.goto i.nextIndex) :=
    .of_plain fun _ _ _ => Memory.within_pop.bind fun _ _ => Step.within_goto _
  refine .bind (fun _ _ _ => Step.within_frame) fun f _ =>
    .bind (fun _ _ _ => Step.within_lift (f.sought_peekRef 0)) fun r _ => ?_
  split
  · exact .of_plain fun _ _ _ => Memory.within_pop.bind fun _ _ => Step.within_raise _ _
  · refine .kernel fun k => ?_
    dsimp only
    split
    · rename_i u hu
      cases hth : k.threads[u.index]? with
      | none =>
        -- threads bear the numbers of their places, so there is a thread that bears this one
        refine .inr ⟨fun hready => ?_, .noSuchThread u, rfl, ?_⟩
        · obtain ⟨th, hth'⟩ := hready.exists_threadOf hu
          rw [hth] at hth'
          cases hth'
        · simp only [Kernel.thread, hth]
          rfl
      | some other =>
        rw [Step.lift_thread hth, pure_bind]
        refine .inl ?_
        split
        · exact .of_stays fun _ _ _ _ => (Step.within_setStatus (p := p) (by simp)).bind
            fun _ _ => .pure ⟨by simp, by simp⟩
        · exact hgo
    · exact .inl hgo

theorem within_monitorExit [Work.AdmitsUnlocks t R] (i : Instruction) :
    Step.Within t R Step.goesOn (monitorExit p t i) := by
  refine Memory.within_popRef.bind fun r _ => ?_
  split
  · exact Step.within_raise _ _
  · exact Step.within_unlock rfl (Step.reports_emit _) (fun _ => Step.within_goto _)
      (Step.within_raise _ _)

/-- Starting a thread adds at most one, once all checks have been passed. -/
theorem threadStart_eq_ok {i : Instruction} {w w' : Work} {flow : Flow}
    (h : threadStart p t i w = .ok flow w') : Step.goesOn flow ∧
      ((∀ (R : Work → Work → Prop) [Work.Admits R] [Work.AdmitsFrames t R], R w w') ∨
        ∃ w₁ r f, (∀ (R : Work → Work → Prop) [Work.Admits R] [Work.AdmitsFrames t R], R w w₁) ∧
          w' = w₁.started r f) := by
  unfold threadStart at h
  obtain ⟨r, w₁, hpop, h⟩ := bind_eq_ok.mp h
  have hpopped : ∀ (R : Work → Work → Prop) [Work.Admits R] [Work.AdmitsFrames t R], R w w₁ :=
    fun R _ _ => Memory.within_popRef.keeps hpop
  have hraised : ∀ {name : String} {message : Option String},
      Step.raise p t name message w₁ = .ok flow w' → Step.goesOn flow ∧
        ∀ (R : Work → Work → Prop) [Work.Admits R] [Work.AdmitsFrames t R], R w w' :=
    fun hraise => ⟨(Step.within_raise (R := Work.Any) _ _).gives hraise, fun R _ _ =>
      IsTrans.trans _ _ _ (hpopped R) ((Step.within_raise _ _).keeps hraise)⟩
  split at h
  · exact (hraised h).imp_right .inl
  · rw [Step.kernel_bind_eq_ok] at h
    split at h
    · exact (hraised h).imp_right .inl
    · simp only [bind_eq_ok (x := Step.object r), Step.object_eq_ok] at h
      obtain ⟨o, _, ⟨-, rfl⟩, h⟩ := h
      cases hrun : p.findMethod? o.classId "run()V" with
      | none => simp [hrun] at h
      | some run =>
        simp only [hrun, Step.lift_bind_eq_ok] at h
        obtain ⟨stub, -, h⟩ := h
        obtain ⟨rfl, rfl⟩ := (Step.added_eq _ _ _ _).symm.trans h |> EStateM.Result.ok.inj
        exact ⟨by simp, .inr ⟨_, r, _, hpopped, rfl⟩⟩

theorem within_threadStart [Work.AdmitsStarts R] (i : Instruction) :
    Step.Within t R Step.goesOn (threadStart p t i) := by
  refine Memory.within_popRef.bind fun r _ => ?_
  split
  · exact Step.within_raise _ _
  · refine Step.within_kernel.bind fun k _ => ?_
    split
    · exact Step.within_raise _ _
    · refine (Step.within_object r).bind fun o _ => ?_
      split
      · exact .throw rfl
      · refine (Step.within_lift (Method.sought_directCallStub _ _ _)).bind fun stub hstub => ?_
        refine (Step.within_added (f := (Frame.enter stub r).pushed r.toSlot)
          (Method.isStub_of_directCallStub hstub)).mono fun flow hflow => ?_
        simp [hflow]

end Waiting

/-! ## Leaving frames -/

namespace Call

variable {t : ThreadId}

theorem seeks_releaseMonitor (f : Frame) : Seeks (releaseMonitor t f) := by
  refine Step.seeks_kernel.bind fun k =>
    (Step.seeks_lift (k.sought_lockTarget _ _)).bind fun target =>
      (Step.seeks_object target).bind fun o => ?_
  split
  · exact (Step.seeks_unlock target t).bind fun _ => .modify _
  · exact .pure _

theorem seeks_recordExit (m : Method) : Seeks (recordExit t m) := by
  have hemit : Seeks (if !m.isMachineOwned then Step.emit (.methodExited t m) else pure ()) := by
    split
    · exact .modify _
    · exact .pure _
  unfold recordExit
  dsimp only
  split
  · split
    · exact (Step.seeks_setClassStatus _ _).bind fun _ => hemit
    · exact hemit
  · exact hemit

/-- What is done with the frame on top when it is left. -/
theorem seeks_leaveFrame (f : Frame) (rest : List Frame) : Seeks (do
    Step.modifyKernel fun k => k.modifyThread t fun th => { th with frames := rest }
    if f.method.isSynchronized then releaseMonitor t f
    recordExit t f.method
    pure f) := by
  refine (Step.seeks_modifyKernel _).bind fun _ => ?_
  dsimp only
  split
  · exact (seeks_releaseMonitor _).bind fun _ => (seeks_recordExit _).bind fun _ => .pure _
  · exact (seeks_recordExit _).bind fun _ => .pure _

theorem inwardly_leave : Inwardly (leave t) := by
  refine Step.seeks_kernel.inwardly.bind fun k =>
    (Step.inwardly_lift (k.inner_thread t)).bind fun th => ?_
  split
  · exact .throw rfl
  · exact (seeks_leaveFrame _ _).inwardly

variable {R : Work → Work → Prop} [Work.AdmitsLeaving t R]

theorem leaving_leave : Step.Leaving R (fun _ => True) (leave t) where
  keeps := Work.AdmitsLeaving.leave
  gives _ _ _ _ := trivial
  faults := inwardly_leave

variable [Work.Admits R]

theorem leaving_stubReturn : Step.Leaving R (fun _ => True) (stubReturn t) :=
  leaving_leave.bind fun _ _ => (Step.within_note (t := t) _).toMeets.bind fun _ _ =>
    Step.leaving_thread t fun _ => .pure trivial

theorem leaving_doReturn [Work.AdmitsFrames t R] (i : Instruction) :
    Step.Leaving R (fun _ => True) (doReturn t i) := by
  refine (Step.within_onFrame (Frame.keeps_popSlots _) (Frame.seeks_popSlots _)).toMeets.bind
    fun result _ => leaving_leave.bind fun _ _ => Step.leaving_thread t fun th => ?_
  split
  · exact .pure trivial
  · refine (Step.within_onFrame (Frame.keeps_modify ?_) (.modify _)).toMeets.bind
      fun _ _ => .pure trivial
    exact fun _ => ⟨rfl, rfl⟩

end Call

namespace Unwound

variable {p : Program} {t : ThreadId} {R : Work → Work → Prop} [Work.Admits R]
  [Work.AdmitsFrames t R] [Work.AdmitsLeaving t R]

theorem leaving_search (r : ObjRef) (c : ClassId) (fs : List Frame) :
    Step.Leaving R (fun _ => True) (search p t r c fs) := by
  induction fs with
  | nil => exact .throw rfl
  | cons f rest ih =>
    refine (Step.within_lift (t := t) (sought_handlerFor p c f)).toMeets.bind fun handler _ => ?_
    split
    · refine Step.Within.toMeets (t := t) <| (Step.within_lift (f.method.sought_instructionAt _)).bind
        fun _ _ => (Step.within_onFrame (Frame.keeps_modify ?_) (.modify _)).bind
          fun _ _ => .pure trivial
      exact fun _ => ⟨rfl, rfl⟩
    · refine Call.leaving_leave.bind fun _ _ => ?_
      split
      · exact (Step.within_object (t := t) r).toMeets.bind fun _ _ => .pure trivial
      · exact ih

theorem leaving_unwind (r : ObjRef) : Step.Leaving R (fun _ => True) (unwind p t r) :=
  (Step.within_thrown r).toMeets.bind fun _ _ => (Step.within_object (t := t) r).toMeets.bind
    fun o _ => Step.leaving_thread t fun th => leaving_search r o.classId th.frames

end Unwound

/-! ## All instructions -/

namespace Step

variable {p : Program} {t : ThreadId} {R : Work → Work → Prop} [Work.Admits R]
  [Work.AdmitsFrames t R]

/-- The ways in which instructions run. -/
inductive Kind (p : Program) (t : ThreadId) (i : Instruction) : Prop where
  /-- It has simple parts only. -/
  | plain (h : Plain t goesOn (execute p t i))
  /-- It may take a monitor, or come to wait. -/
  | waits (h : Waits p t (execute p t i))
  /-- It gives back a monitor. -/
  | monitorExit (op : i.op = .monitorExit) (h : execute p t i = Waiting.monitorExit p t i)
  /-- It starts a thread. -/
  | threadStart (op : i.op = .threadStart) (h : execute p t i = Waiting.threadStart p t i)
  | putField (op : i.op = .putField) (h : execute p t i = Memory.putField p t i)
  | putStatic (op : i.op = .putStatic) (h : execute p t i = Memory.putStatic p t i)
  | storeElement (op : i.op = .iAStore ∨ i.op = .aAStore)
    (h : execute p t i = Memory.storeElement p t i)
  /-- It returns to the caller. -/
  | returns (op : i.op.isReturn = true) (h : execute p t i = Call.doReturn t i)
  /-- It leaves a stub. -/
  | leaves (op : i.op = .directCallReturn) (h : execute p t i = Call.stubReturn t)

theorem kind (p : Program) (t : ThreadId) (i : Instruction) : Kind p t i := by
  have hplain : ∀ {a : Step Flow}, execute p t i = a → Plain t goesOn a → Kind p t i :=
    fun he ha => .plain (he ▸ ha)
  have hwaits : ∀ {a : Step Flow}, execute p t i = a → Waits p t a → Kind p t i :=
    fun he ha => .waits (he ▸ ha)
  generalize he : execute p t i = a
  have hexecute := he
  unfold execute at he
  split at he <;> subst he
  · exact hplain hexecute fun _ _ _ => Memory.within_new i
  · exact hplain hexecute fun _ _ _ => Memory.within_getField i
  · exact .putField ‹_› hexecute
  · exact hplain hexecute fun _ _ _ => Memory.within_getStatic i
  · exact .putStatic ‹_› hexecute
  · exact hplain hexecute fun _ _ _ => Memory.within_newArray i
  · exact hplain hexecute fun _ _ _ => Memory.within_newArray i
  · exact hplain hexecute fun _ _ _ => Memory.within_arrayLength i
  · exact hplain hexecute fun _ _ _ => Memory.within_loadElement i
  · exact hplain hexecute fun _ _ _ => Memory.within_loadElement i
  · exact .storeElement (.inl ‹_›) hexecute
  · exact .storeElement (.inr ‹_›) hexecute
  · exact hwaits hexecute (Call.waits_invoke i)
  · exact hwaits hexecute (Call.waits_invoke i)
  · exact hwaits hexecute (Call.waits_invoke i)
  · exact hwaits hexecute (Call.waits_invokeClassInit i)
  · exact .leaves ‹_› hexecute
  · exact .returns (by simp [*, Opcode.isReturn]) hexecute
  · exact .returns (by simp [*, Opcode.isReturn]) hexecute
  · exact .returns (by simp [*, Opcode.isReturn]) hexecute
  · exact .returns (by simp [*, Opcode.isReturn]) hexecute
  · exact .returns (by simp [*, Opcode.isReturn]) hexecute
  · exact hwaits hexecute (Waiting.waits_monitorEnter i)
  · exact .monitorExit ‹_› hexecute
  · exact .threadStart ‹_› hexecute
  · exact hwaits hexecute (Waiting.waits_threadJoin i)
  · exact hplain hexecute fun _ _ _ => Local.within_run i

/-- A flow that raises no exception is followed without leaving a frame. -/
theorem follow_of_stays {flow : Flow} {out : Outcome} {w w' : Work} (hgoes : goesOn flow)
    (hraises : ∀ r, flow ≠ .raise r) (h : follow p t flow w = .ok out w') :
    out = .running ∧ R w w' := by
  cases flow with
  | goto index =>
    obtain ⟨u, w₁, hgoto, h⟩ := bind_eq_ok.mp h
    obtain ⟨rfl, rfl⟩ := pure_eq_ok.mp h
    refine ⟨rfl, (within_onFrame (Frame.keeps_modify ?_) (.modify _)).keeps hgoto⟩
    exact fun _ => ⟨rfl, rfl⟩
  | raise r => exact absurd rfl (hraises r)
  | finish => exact absurd rfl hgoes
  | called =>
    obtain ⟨rfl, rfl⟩ := pure_eq_ok.mp h
    exact ⟨rfl, refl _⟩
  | returned =>
    obtain ⟨rfl, rfl⟩ := pure_eq_ok.mp h
    exact ⟨rfl, refl _⟩
  | again =>
    obtain ⟨rfl, rfl⟩ := pure_eq_ok.mp h
    exact ⟨rfl, refl _⟩

section Leaving

variable [Work.AdmitsLeaving t R]

theorem leaving_follow (flow : Flow) : Leaving R (fun _ => True) (follow p t flow) := by
  cases flow with
  | goto index =>
    refine (within_onFrame (Frame.keeps_modify ?_) (.modify _)).toMeets.bind fun _ _ =>
      .pure trivial
    exact fun _ => ⟨rfl, rfl⟩
  | raise r =>
    refine (Unwound.leaving_unwind r).bind fun u _ => ?_
    cases u with
    | handled => exact .pure trivial
    | escaped record => exact .pure trivial
  | called => exact .pure trivial
  | returned => exact .pure trivial
  | again => exact .pure trivial
  | finish => exact .pure trivial

variable [Work.AdmitsWrites R] [Work.AdmitsLocks p t R] [Work.AdmitsUnlocks t R]

/-- What all parts of instructions keep, but for starting a thread. -/
theorem leaving_execute {i : Instruction}
    (hstart : i.op = .threadStart → Leaving R (fun _ => True) (Waiting.threadStart p t i)) :
    Leaving R (fun _ => True) (execute p t i) := by
  have hwithin : ∀ {a : Step Flow}, execute p t i = a → Within t R goesOn a →
      Leaving R (fun _ => True) (execute p t i) :=
    fun he ha => he ▸ ha.toMeets.mono fun _ _ => trivial
  cases kind p t i with
  | plain h => exact hwithin rfl (h R)
  | waits h => exact hwithin rfl (h.within R)
  | monitorExit _ h => exact hwithin h (Waiting.within_monitorExit i)
  | threadStart op h => exact h ▸ hstart op
  | putField _ h => exact hwithin h (Memory.within_putField i)
  | putStatic _ h => exact hwithin h (Memory.within_putStatic i)
  | storeElement _ h => exact hwithin h (Memory.within_storeElement i)
  | returns _ h => exact h ▸ Call.leaving_doReturn i
  | leaves _ h => exact h ▸ Call.leaving_stubReturn

theorem leaving_perform {i : Instruction}
    (hstart : i.op = .threadStart → Leaving R (fun _ => True) (Waiting.threadStart p t i)) :
    Leaving R (fun _ => True) (perform p t i) :=
  (leaving_execute hstart).bind fun flow _ => leaving_follow flow

end Leaving

theorem inwardly_perform (i : Instruction) : Inwardly (perform p t i) :=
  (leaving_perform (R := Work.Any) fun _ =>
    (Waiting.within_threadStart i).toMeets.mono fun _ _ => trivial).faults

end Step

end Interleave

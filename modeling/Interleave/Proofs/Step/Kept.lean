import Interleave.Proofs.Step.Frames
import Interleave.Step.Memory

/-!
# Steps as moves

The parts of a step that neither enter nor leave a method, nor wait: whenever one of them succeeds,
it has made some moves, and has left the choice and the generator of the step alone.
-/

namespace Interleave

open Effect

namespace Step

variable {α : Type} {p : Program} {t : ThreadId}

/-- A computation that does not touch the state, nor the choice and the generator. -/
theorem keeps_of_same {a : Step α}
    (h : ∀ w v w', a w = .ok v w' →
      w'.kernel = w.kernel ∧ w'.choice = w.choice ∧ w'.pending = w.pending) :
    Keeps (Work.Moved p t) a := by
  intro w v w' hw
  obtain ⟨hk, hc, hp⟩ := h w v w' hw
  exact ⟨hk ▸ .refl, hc, hp⟩

/-- A change of the state that is one move. -/
theorem keeps_modifyKernel {f : Kernel → Kernel} (h : ∀ k, Kernel.Move p t k (f k)) :
    Keeps (Work.Moved p t) (modifyKernel f) := by
  intro w u w' hw
  rw [modifyKernel_eq_ok] at hw
  exact hw ▸ .single (h w.kernel)

theorem keeps_lift (e : Except Fault α) : Keeps (Work.Moved p t) (lift e) :=
  keeps_of_same fun _ _ _ h => by simp only [lift_eq_ok] at h; simp [h.2]

theorem keeps_kernel : Keeps (Work.Moved p t) kernel :=
  keeps_of_same fun _ _ _ h => by simp only [kernel_eq_ok] at h; simp [h.2]

theorem keeps_emit (e : Event) : Keeps (Work.Moved p t) (emit e) :=
  keeps_of_same fun _ _ _ h => by simp only [emit_eq_ok] at h; simp [h]

theorem keeps_note (f : Transient → Transient) : Keeps (Work.Moved p t) (note f) :=
  keeps_of_same fun _ _ _ h => by simp only [note_eq_ok] at h; simp [h]

theorem keeps_object (r : ObjRef) : Keeps (Work.Moved p t) (object r) :=
  keeps_of_same fun _ _ _ h => by simp only [object_eq_ok] at h; simp [h.2]

/-- Work on the top frame that stays in its call. -/
theorem keeps_onFrame {a : Frame.Action α} (ha : Keeps Frame.SameCall a) :
    Keeps (Work.Moved p t) (onFrame t a) := by
  intro w v w' h
  obtain ⟨f, f', htop, hf, rfl⟩ := onFrame_eq_ok.mp h
  exact .single (.frame htop (ha hf))

/-- A class may be recorded as initialized. -/
theorem keeps_settle (c : ClassId) : Keeps (Work.Moved p t) (setClassStatus c .initialized) := by
  intro w u w' h
  obtain ⟨k, hk, rfl⟩ := setClassStatus_eq_ok.mp h
  obtain ⟨-, rfl⟩ := Kernel.setClassStatus_eq_ok.mp hk
  exact .single (.settle c)

/-- Data of an object may change. -/
theorem keeps_modifyObject (r : ObjRef) {f : Object → Object}
    (hf : ∀ o, (f o).classId = o.classId ∧ (f o).monitor = o.monitor) :
    Keeps (Work.Moved p t) (modifyKernel fun k => k.modifyObject r f) :=
  keeps_modifyKernel fun k => .heap (Heap.Extends.modify k.heap r hf)

theorem keeps_newInstance (c : ClassId) : Keeps (Work.Moved p t) (newInstance p t c) := by
  unfold newInstance
  split
  · exact .throw _
  · intro w r w' h
    obtain ⟨-, rfl⟩ := modifyGet_eq_ok.mp h
    exact .single (.heap (Heap.Extends.push w.kernel.heap rfl))

theorem keeps_newArray (c : ClassId) (code : TypeCode) (length : Nat) :
    Keeps (Work.Moved p t) (newArray t c code length) := by
  intro w r w' h
  obtain ⟨-, rfl⟩ := modifyGet_eq_ok.mp h
  exact .single (.heap (Heap.Extends.push w.kernel.heap rfl))

theorem keeps_raise (className : String) (message : Option String) :
    Keeps (Work.Moved p t) (raise p t className message) := by
  refine (keeps_lift _).bind fun c => (keeps_newInstance c.id).bind fun r => ?_
  refine Keeps.bind (keeps_modifyObject r ?_) fun _ => .pure _
  exact fun _ => ⟨rfl, rfl⟩

theorem keeps_touch (r : ObjRef) : Keeps (Work.Moved p t) (touch t r) := by
  refine (keeps_object r).bind fun o => ?_
  split
  · exact keeps_modifyObject r fun _ => ⟨rfl, rfl⟩
  · exact .pure _

end Step

namespace Local

variable {p : Program} {t : ThreadId}

/-- Instructions on one frame. -/
theorem keeps_run (i : Instruction) : Keeps (Work.Moved p t) (run p t i) := by
  refine (Step.keeps_onFrame (keeps_execute i)).bind fun flow => ?_
  cases flow with
  | goto index => exact .pure _
  | raise className message => exact Step.keeps_raise className message
  | rethrow r => exact .pure _

end Local

namespace Call

variable {p : Program} {t : ThreadId}

/-- Making sure that classes are initialized which the instruction needs. -/
theorem moved_of_initialize? {i : Instruction} {cs : List ClassId} {b : Bool} {w w' : Work}
    (hi : w.kernel.At t i) (hneeds : ∀ c ∈ cs, p.Needs i c) (h : initialize? p t cs w = .ok b w') :
    Work.Moved p t w w' := by
  induction cs generalizing w with
  | nil => exact Keeps.pure _ h
  | cons c cs ih =>
    obtain ⟨hc, hcs⟩ := List.forall_mem_cons.mp hneeds
    unfold initialize? at h
    simp only [Step.kernel_bind_eq_ok, Step.lift_bind_eq_ok] at h
    obtain ⟨status, -, h⟩ := h
    split at h
    · exact ih hi hcs h
    · cases hm : (p.class? c).bind Class.classInit? with
      | none =>
        simp only [hm] at h
        obtain ⟨_, w₁, hset, h⟩ := bind_eq_ok.mp h
        have hsettled : Work.Moved p t w w₁ := Step.keeps_settle c hset
        obtain ⟨k, hk, rfl⟩ := Step.setClassStatus_eq_ok.mp hset
        obtain ⟨-, rfl⟩ := Kernel.setClassStatus_eq_ok.mp hk
        exact IsTrans.trans _ _ _ hsettled (ih hi hcs h)
      | some m =>
        obtain ⟨k, hk, hinit⟩ := Option.bind_eq_some_iff.mp hm
        simp only [hm, bind_eq_ok, Step.lift_eq_ok, Step.pushFrame_eq_ok, pure_eq_ok] at h
        obtain ⟨stub, _, ⟨hstub, rfl⟩, _, _, ⟨-, rfl⟩, -, rfl⟩ := h
        exact .single (.initializer hk hinit hstub hi hc)

theorem moved_of_initializeClass? {i : Instruction} {c : ClassId} {b : Bool} {w w' : Work}
    (hi : w.kernel.At t i) (hneeds : ∀ d ∈ p.chain c, p.Needs i d)
    (h : initializeClass? p t c w = .ok b w') : Work.Moved p t w w' :=
  moved_of_initialize? hi (fun d hd => hneeds d (List.mem_reverse.mp hd)) h

end Call

namespace Memory

variable {p : Program} {t : ThreadId}

theorem keeps_popValue (code : TypeCode) : Keeps Frame.SameCall (popValue code) := by
  unfold popValue
  split
  · exact Frame.keeps_popWide
  · exact Frame.keeps_pop

theorem keeps_pushValue (code : TypeCode) (v : Slot) :
    Keeps Frame.SameCall (pushValue code v) := by
  unfold pushValue
  split
  · exact Frame.keeps_pushWide v
  · exact Frame.keeps_push v

theorem keeps_writeField (r : ObjRef) (slot : Nat) (v : Slot) (form : ObjectForm) :
    Keeps (Work.Moved p t) (writeField r slot v form) :=
  (Step.keeps_object r).bind fun _ => (Step.keeps_lift _).bind fun _ =>
    Step.keeps_modifyObject r fun _ => ⟨rfl, rfl⟩

theorem keeps_publish (v : Slot) : Keeps (Work.Moved p t) (publish v) :=
  Step.keeps_modifyObject _ fun _ => ⟨rfl, rfl⟩

theorem keeps_elements (r : ObjRef) : Keeps (Work.Moved p t) (elements r) := by
  refine (Step.keeps_object r).bind fun o => ?_
  split
  · exact .pure _
  · exact .throw _

/-- Creating an instance. -/
theorem moved_of_new {i : Instruction} {flow : Flow} {w w' : Work} (hi : w.kernel.At t i)
    (hop : i.op = .new) (h : new p t i w = .ok flow w') : Work.Moved p t w w' := by
  unfold new at h
  simp only [Step.lift_bind_eq_ok] at h
  obtain ⟨name, hname, c, hc, h⟩ := h
  rw [bind_eq_ok] at h
  obtain ⟨pushed, w₁, hinit, h⟩ := h
  have hnamed : p.checkedClass i = .ok c.id := by
    simp [Program.checkedClass, hop, hname, hc, bind, Except.bind, pure, Except.pure]
  have hchecked : Work.Moved p t w w₁ :=
    Call.moved_of_initializeClass? hi (fun _ => .checked (by rw [hop]; rfl) hnamed) hinit
  refine IsTrans.trans _ _ _ hchecked ?_
  split at h
  · exact Keeps.pure _ h
  · exact ((Step.keeps_newInstance _).bind fun r =>
      (Step.keeps_onFrame (Frame.keeps_pushRef r)).bind fun _ => .pure _) h

/-- The class object of a static field is at hand behind the check. -/
theorem staticSlot_eq_ok {r : FieldRef} {slot : Option (ObjRef × Field)}
    (h : staticSlot p t r w = .ok slot w') :
    ∃ c f pushed, staticField p r = .ok (c, f) ∧
      Call.initializeClass? p t c w = .ok pushed w' ∧ (pushed = true ↔ slot = none) := by
  unfold staticSlot at h
  simp only [Step.lift_bind_eq_ok] at h
  obtain ⟨⟨c, f⟩, hfield, h⟩ := h
  rw [bind_eq_ok] at h
  obtain ⟨pushed, w₁, hinit, h⟩ := h
  cases pushed with
  | true =>
    simp only [if_true] at h
    obtain ⟨rfl, rfl⟩ := pure_eq_ok.mp h
    exact ⟨c, f, true, hfield, hinit, by simp⟩
  | false =>
    simp only [Bool.false_eq_true, if_false, Step.kernel_bind_eq_ok, Step.lift_bind_eq_ok] at h
    obtain ⟨r, -, h⟩ := h
    obtain ⟨rfl, rfl⟩ := pure_eq_ok.mp h
    exact ⟨c, f, false, hfield, hinit, by simp⟩

/-- Reading or writing a static field. -/
theorem moved_of_static {i : Instruction} {r : FieldRef} {flow : Flow} {w w' : Work}
    {rest : Option (ObjRef × Field) → Step Flow} (hi : w.kernel.At t i)
    (hop : i.op = .getStatic ∨ i.op = .putStatic) (hr : i.fieldRef = .ok r)
    (hnone : rest none = pure .again) (hsome : ∀ slot, Keeps (Work.Moved p t) (rest (some slot)))
    (h : (staticSlot p t r >>= rest) w = .ok flow w') : Work.Moved p t w w' := by
  obtain ⟨slot, w₁, hslot, h⟩ := bind_eq_ok.mp h
  obtain ⟨c, f, pushed, hfield, hinit, -⟩ := staticSlot_eq_ok hslot
  have hnamed : i.op.checksClass = true ∧ p.checkedClass i = .ok c := by
    rcases hop with hop | hop <;>
      simp [Opcode.checksClass, Program.checkedClass, hop, hr, hfield, bind, Except.bind, pure,
        Except.pure]
  have hchecked : Work.Moved p t w w₁ :=
    Call.moved_of_initializeClass? hi (fun _ => .checked hnamed.1 hnamed.2) hinit
  refine IsTrans.trans _ _ _ hchecked ?_
  cases slot with
  | none =>
    rw [hnone] at h
    exact Keeps.pure _ h
  | some slot => exact hsome slot h

theorem keeps_getField (i : Instruction) : Keeps (Work.Moved p t) (getField p t i) := by
  refine (Step.keeps_lift _).bind fun r => (Step.keeps_lift _).bind fun f =>
    (Step.keeps_onFrame Frame.keeps_popRef).bind fun obj => ?_
  split
  · exact Step.keeps_raise _ _
  · exact (Step.keeps_touch obj).bind fun _ => (Step.keeps_object obj).bind fun _ =>
      (Step.keeps_lift _).bind fun v =>
        (Step.keeps_onFrame (keeps_pushValue f.code v)).bind fun _ => .pure _

theorem keeps_putField (i : Instruction) : Keeps (Work.Moved p t) (putField p t i) := by
  refine (Step.keeps_lift _).bind fun r => (Step.keeps_lift _).bind fun f =>
    (Step.keeps_onFrame (keeps_popValue f.code)).bind fun v =>
      (Step.keeps_onFrame Frame.keeps_popRef).bind fun obj => ?_
  split
  · exact Step.keeps_raise _ _
  · refine (Step.keeps_touch obj).bind fun _ =>
      (keeps_writeField obj f.slot v _).bind fun _ => (Step.keeps_object obj).bind fun _ => ?_
    dsimp only
    split
    · exact (keeps_publish v).bind fun _ => .pure _
    · exact .pure _

theorem moved_of_getStatic {i : Instruction} {flow : Flow} {w w' : Work} (hi : w.kernel.At t i)
    (hop : i.op = .getStatic) (h : getStatic p t i w = .ok flow w') : Work.Moved p t w w' := by
  unfold getStatic at h
  rw [Step.lift_bind_eq_ok] at h
  obtain ⟨r, hr, h⟩ := h
  refine moved_of_static hi (.inl hop) hr rfl (fun slot => ?_) h
  exact (Step.keeps_object _).bind fun _ => (Step.keeps_lift _).bind fun v =>
    (Step.keeps_onFrame (keeps_pushValue _ v)).bind fun _ => .pure _

theorem moved_of_putStatic {i : Instruction} {flow : Flow} {w w' : Work} (hi : w.kernel.At t i)
    (hop : i.op = .putStatic) (h : putStatic p t i w = .ok flow w') : Work.Moved p t w w' := by
  unfold putStatic at h
  rw [Step.lift_bind_eq_ok] at h
  obtain ⟨r, hr, h⟩ := h
  refine moved_of_static hi (.inr hop) hr rfl (fun slot => ?_) h
  refine (Step.keeps_onFrame (keeps_popValue _)).bind fun v =>
    (keeps_writeField _ _ v _).bind fun _ => ?_
  split
  · exact (keeps_publish v).bind fun _ => .pure _
  · exact .pure _

theorem keeps_newArray (i : Instruction) : Keeps (Work.Moved p t) (newArray p t i) := by
  refine (Step.keeps_lift _).bind fun code =>
    (Step.keeps_onFrame Frame.keeps_popInt).bind fun length => ?_
  split
  · exact Step.keeps_raise _ _
  · exact (Step.keeps_lift _).bind fun c => (Step.keeps_newArray _ _ _).bind fun r =>
      (Step.keeps_onFrame (Frame.keeps_pushRef r)).bind fun _ => .pure _

theorem keeps_arrayLength (i : Instruction) : Keeps (Work.Moved p t) (arrayLength p t i) := by
  refine (Step.keeps_onFrame Frame.keeps_popRef).bind fun r => ?_
  split
  · exact Step.keeps_raise _ _
  · exact (keeps_elements r).bind fun es =>
      (Step.keeps_onFrame (Frame.keeps_pushInt _)).bind fun _ => .pure _

theorem keeps_loadElement (i : Instruction) : Keeps (Work.Moved p t) (loadElement p t i) := by
  refine (Step.keeps_onFrame Frame.keeps_popInt).bind fun index =>
    (Step.keeps_onFrame Frame.keeps_popRef).bind fun r => ?_
  split
  · exact Step.keeps_raise _ _
  · refine (keeps_elements r).bind fun es => ?_
    split
    · exact Step.keeps_raise _ _
    · exact (Step.keeps_touch r).bind fun _ =>
        (Step.keeps_onFrame (Frame.keeps_push _)).bind fun _ => .pure _

theorem keeps_storeElement (i : Instruction) : Keeps (Work.Moved p t) (storeElement p t i) := by
  refine (Step.keeps_onFrame Frame.keeps_pop).bind fun v =>
    (Step.keeps_onFrame Frame.keeps_popInt).bind fun index =>
      (Step.keeps_onFrame Frame.keeps_popRef).bind fun r => ?_
  split
  · exact Step.keeps_raise _ _
  · refine (keeps_elements r).bind fun es => ?_
    split
    · exact Step.keeps_raise _ _
    · refine (Step.keeps_touch r).bind fun _ => ?_
      refine Keeps.bind (Step.keeps_modifyObject r ?_) fun _ => ?_
      · exact fun _ => ⟨rfl, rfl⟩
      · refine (Step.keeps_object r).bind fun _ => ?_
        dsimp only
        split
        · exact (keeps_publish v).bind fun _ => .pure _
        · exact .pure _

end Memory

end Interleave

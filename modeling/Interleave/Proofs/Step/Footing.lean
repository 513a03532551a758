import Interleave.Proofs.Step.Floors

/-!
# Threads that keep their footing

A thread that is about to run an instruction has a frame. The instruction may leave that frame, and
an exception may leave many; but whatever looks at the frame on top afterwards is preceded by a look
at whether there is one. So no instruction fails for want of a frame, or of its thread, and a thread
that goes on has a frame.
-/

namespace Interleave

open Effect

namespace Kernel

/-- A thread is there, and `P` holds of its frames. -/
def HasFrames (k : Kernel) (t : ThreadId) (P : List Frame → Prop) : Prop :=
  ∃ th, k.threads[t.index]? = some th ∧ P th.frames

variable {k k' : Kernel} {t : ThreadId} {P : List Frame → Prop}

theorem HasFrames.frames (h : k.HasFrames t P) : P (k.frames t) := by
  obtain ⟨th, hth, hP⟩ := h
  rw [frames_of_getElem? hth]
  exact hP

theorem HasFrames.mono {P' : List Frame → Prop} (h : k.HasFrames t P) (hP : ∀ fs, P fs → P' fs) :
    k.HasFrames t P' :=
  h.imp fun _ ⟨hth, hfs⟩ => ⟨hth, hP _ hfs⟩

theorem hasFrames_iff : k.HasFrames t (· ≠ []) ↔ k.frames t ≠ [] := by
  refine ⟨fun h => h.frames, fun h => ?_⟩
  obtain ⟨f, rest, hframes⟩ := List.exists_cons_of_ne_nil h
  obtain ⟨th, hth, hframes'⟩ := exists_of_frames hframes
  exact ⟨th, hth, hframes' ▸ List.cons_ne_nil f rest⟩

end Kernel

namespace Step

variable {α β : Type} {p : Program} {t : ThreadId} {I : List Frame → Prop}
  {J : α → List Frame → Prop} {rest : List Frame}

/-- From where a thread has frames with `I`, this part of a step comes to where it has frames with
`J`, or it fails for another reason than that a thread or a frame is not there. -/
abbrev Footed (t : ThreadId) (I : List Frame → Prop) (J : α → List Frame → Prop) (a : Step α) :
    Prop :=
  Brings (fun w => w.kernel.HasFrames t I) (fun v w => w.kernel.HasFrames t (J v))
    (fun e => e.isMishap = true) a

/-- There is one more frame on top of these. -/
abbrev OneOn (rest fs : List Frame) : Prop := ∃ f, fs = f :: rest

/-- Looking around does not move a thread. -/
theorem footed_of_seeks {a : Step α} (hseeks : Seeks a)
    (hthreads : ∀ w v w', a w = .ok v w' → w'.kernel.threads = w.kernel.threads) :
    Footed t I (fun _ => I) a := by
  refine ⟨fun w v w' ⟨th, hth, hI⟩ h => ⟨th, ?_, hI⟩, fun w e w' _ h => hseeks h⟩
  rw [hthreads w v w' h]
  exact hth

theorem footed_emit (e : Event) : Footed t I (fun _ => I) (emit e) :=
  footed_of_seeks (.modify _) fun _ _ _ h => emit_eq_ok.mp h ▸ rfl

theorem footed_note (f : Transient → Transient) : Footed t I (fun _ => I) (note f) :=
  footed_of_seeks (.modify _) fun _ _ _ h => note_eq_ok.mp h ▸ rfl

theorem footed_lift {x : Except Fault α} (hx : Fault.Sought x) : Footed t I (fun _ => I) (lift x) :=
  footed_of_seeks (seeks_lift hx) fun _ _ _ h => (lift_eq_ok.mp h).2 ▸ rfl

theorem footed_object (r : ObjRef) : Footed t I (fun _ => I) (object r) :=
  footed_of_seeks (seeks_object r) fun _ _ _ h => (object_eq_ok.mp h).2 ▸ rfl

theorem footed_pure {v : α} (h : ∀ fs, I fs → J v fs) : Footed t I J (pure v) :=
  .pure fun _ hw => hw.mono h

theorem footed_mono {I' : List Frame → Prop} {a : Step α} (h : Footed t I' J a)
    (hI : ∀ fs, I fs → I' fs) : Footed t I J a :=
  h.mono (fun _ hw => hw.mono hI) fun _ _ hw => hw

theorem footed_of_one {a : Step α} (h : ∀ rest, Footed t (OneOn rest) J a) :
    Footed t (· ≠ []) J a := by
  have hone : ∀ w : Work, w.kernel.HasFrames t (· ≠ []) →
      ∃ rest, w.kernel.HasFrames t (OneOn rest) := by
    rintro w ⟨th, hth, hne⟩
    obtain ⟨f, rest, hframes⟩ := List.exists_cons_of_ne_nil hne
    exact ⟨rest, th, hth, f, hframes⟩
  refine ⟨fun w v w' hw ha => ?_, fun w e w' hw ha => ?_⟩
  · obtain ⟨rest, hrest⟩ := hone w hw
    exact (h rest).1 hrest ha
  · obtain ⟨rest, hrest⟩ := hone w hw
    exact (h rest).2 hrest ha

theorem footed_thread {f : Thread → Step α} (hf : ∀ th, I th.frames → Footed t (· = th.frames) J (f th)) :
    Footed t I J (do f (← lift ((← kernel).thread t))) := by
  have hfound : ∀ {w : Work} {th : Thread}, w.kernel.threads[t.index]? = some th →
      (do f (← lift ((← kernel).thread t)) : Step α) w = f th w := by
    intro w th hth
    show (lift (w.kernel.thread t) >>= f) w = f th w
    rw [lift_thread hth, pure_bind]
  refine ⟨fun w v w' ⟨th, hth, hI⟩ h => ?_, fun w e w' ⟨th, hth, hI⟩ h => ?_⟩
  · rw [hfound hth] at h
    exact (hf th hI).1 ⟨th, hth, rfl⟩ h
  · rw [hfound hth] at h
    exact (hf th hI).2 ⟨th, hth, rfl⟩ h

theorem footed_onFrame {a : Frame.Action α} (ha : Seeks a) :
    Footed t (OneOn rest) (fun _ => OneOn rest) (onFrame t a) := by
  refine ⟨fun w v w' hw h => ?_, fun w e w' hw h => ?_⟩
  · obtain ⟨g, hg⟩ := hw.frames
    obtain ⟨f, f', rest', hframes, -, hframes'⟩ := onFrame_frames h
    obtain ⟨-, rfl⟩ := List.cons.inj (hg.symm.trans hframes)
    obtain ⟨th, hth, hth'⟩ := Kernel.exists_of_frames hframes'
    exact ⟨th, hth, f', hth'⟩
  · obtain ⟨f, hf⟩ := hw.frames
    have htop : w.kernel.topFrame t = .ok f := Kernel.topFrame_eq_ok_iff.mpr ⟨rest, hf⟩
    unfold onFrame at h
    rw [bind_of_ok (frame_eq_ok.mpr ⟨htop, rfl⟩)] at h
    cases hx : a f with
    | ok v f' =>
      simp only [hx] at h
      cases h
    | error e' f' =>
      simp only [hx] at h
      cases h
      exact ha hx

end Step

/-! ## Leaving frames -/

namespace Call

variable {t : ThreadId} {rest : List Frame}

theorem footed_leave : Step.Footed t (Step.OneOn rest) (fun _ fs => fs = rest) (leave t) := by
  refine ⟨fun w f w' hw h => ?_, fun w e w' hw h => ?_⟩
  · obtain ⟨g, hg⟩ := hw.frames
    obtain ⟨hframes, -⟩ := frames_of_leave h
    obtain ⟨-, hrest⟩ := List.cons.inj (hg.symm.trans hframes)
    obtain ⟨th, rest', k, cs, hth, -, hreleased, -, hbecomes⟩ := leave_eq_ok h
    -- the thread is still there
    obtain ⟨th', hth', -⟩ := (Kernel.Advance.of_released (p := {}) hreleased).old t _
      (by rw [Kernel.getElem?_modifyThread, if_pos rfl, hth]; rfl)
    have hleft : w'.kernel.threads[t.index]? = some th' := hbecomes.kernel ▸ hth'
    exact ⟨th', hleft, (Kernel.frames_of_getElem? hleft).symm.trans hrest.symm⟩
  · obtain ⟨th, hth, f, hframes⟩ := hw
    unfold leave at h
    rw [show (Step.kernel >>= fun k => Step.lift (k.thread t) >>= _) w =
      (Step.lift (w.kernel.thread t) >>= _) w from rfl, Step.lift_thread hth, pure_bind] at h
    simp only [hframes] at h
    exact seeks_leaveFrame f rest h

/-- A thread that returns has ended, or it goes on in the frame below. -/
theorem footed_doReturn (i : Instruction) : Step.Footed t (· ≠ [])
    (fun flow fs => flow ≠ .finish → fs ≠ []) (doReturn t i) := by
  refine Step.footed_of_one fun rest => ?_
  refine (Step.footed_onFrame (Frame.seeks_popSlots _)).bind fun result => footed_leave.bind
    fun _ => Step.footed_thread fun th _ => ?_
  split
  · exact Step.footed_pure fun _ _ h => absurd rfl h
  · rename_i f rest' hframes
    have hone : ∀ fs, fs = th.frames → Step.OneOn rest' fs := fun fs hfs => ⟨f, hfs.trans hframes⟩
    refine (Step.footed_mono (Step.footed_onFrame (.modify _)) hone).bind fun _ =>
      Step.footed_pure ?_
    rintro fs ⟨g, rfl⟩ -
    exact List.cons_ne_nil g rest'

theorem footed_stubReturn : Step.Footed t (· ≠ [])
    (fun flow fs => flow ≠ .finish → fs ≠ []) (stubReturn t) := by
  refine Step.footed_of_one fun rest => ?_
  refine footed_leave.bind fun f => (Step.footed_note _).bind fun _ => Step.footed_thread
    fun th _ => Step.footed_pure ?_
  rintro fs rfl hflow hnil
  simp [hnil] at hflow

end Call

namespace Unwound

variable {p : Program} {t : ThreadId}

/-- The search for a handler stops at the last frame at the latest. -/
theorem footed_search (r : ObjRef) (c : ClassId) {fs : List Frame} (hfs : fs ≠ []) :
    Step.Footed t (· = fs) (fun u fs' => u = .handled → fs' ≠ []) (search p t r c fs) := by
  induction fs with
  | nil => exact absurd rfl hfs
  | cons f rest ih =>
    have hone : ∀ fs, fs = f :: rest → Step.OneOn rest fs := fun _ hfs => ⟨f, hfs⟩
    refine Step.footed_mono ?_ hone
    refine (Step.footed_lift (sought_handlerFor p c f)).bind fun handler => ?_
    split
    · refine (Step.footed_lift (f.method.sought_instructionAt _)).bind fun target => ?_
      refine (Step.footed_onFrame (.modify _)).bind fun _ => Step.footed_pure ?_
      rintro fs ⟨g, rfl⟩ -
      exact List.cons_ne_nil g rest
    · refine Call.footed_leave.bind fun _ => ?_
      split
      · exact (Step.footed_object r).bind fun _ => Step.footed_pure fun _ _ h => nomatch h
      · rename_i hgo
        rw [Bool.or_eq_true, not_or, List.isEmpty_iff] at hgo
        exact ih hgo.2

theorem footed_unwind (r : ObjRef) : Step.Footed t (· ≠ [])
    (fun u fs => u = .handled → fs ≠ []) (unwind p t r) :=
  (Step.footed_emit _).bind fun _ => (Step.footed_object r).bind fun o =>
    Step.footed_thread fun _ hth => footed_search r o.classId hth

end Unwound

/-! ## Instructions -/

namespace Step

variable {p : Program} {t : ThreadId}

theorem footed_follow {flow : Flow} (hflow : flow ≠ .finish) : Footed t (· ≠ [])
    (fun out fs => out = .running → fs ≠ []) (follow p t flow) := by
  have hstays : Footed t (· ≠ []) (fun out fs => out = .running → fs ≠ [])
      (pure Outcome.running : Step Outcome) := footed_pure fun _ hfs _ => hfs
  cases flow with
  | goto index =>
    refine footed_of_one fun rest => (footed_onFrame (.modify _)).bind fun _ => footed_pure ?_
    rintro fs ⟨f, rfl⟩ -
    exact List.cons_ne_nil f rest
  | raise r =>
    refine (Unwound.footed_unwind r).bind fun u => ?_
    cases u with
    | handled => exact footed_pure fun _ hfs _ => hfs rfl
    | escaped record => exact footed_pure fun _ _ h => nomatch h
  | called => exact hstays
  | returned => exact hstays
  | again => exact hstays
  | finish => exact absurd rfl hflow

theorem brings_execute (i : Instruction) : Brings (fun w => w.kernel.Ready t)
    (fun flow w => w.kernel.HasFrames t fun fs => flow ≠ .finish → fs ≠ [])
    (fun e => e.isMishap = true) (execute p t i) := by
  have hready : ∀ w : Work, w.kernel.Ready t → w.kernel.HasFrames t (· ≠ []) :=
    fun w hw => Kernel.hasFrames_iff.mpr hw.frames
  rcases (kind p t i).grows with hwithin | ⟨-, he⟩ | ⟨-, he⟩
  · exact hwithin.grounded.mono (fun _ hw => hw) fun _ w hw => (hready w hw).mono fun _ h _ => h
  · exact he ▸ (Call.footed_doReturn i).mono hready fun _ _ hw => hw
  · exact he ▸ Call.footed_stubReturn.mono hready fun _ _ hw => hw

/-- **A thread keeps its footing.** If a thread has a frame, and threads bear the numbers of their
places, an instruction fails for another reason than that a thread or a frame is not there; and if
the thread goes on, it has a frame. -/
theorem brings_perform (i : Instruction) : Brings (fun w => w.kernel.Ready t)
    (fun out w => w.kernel.HasFrames t fun fs => out = .running → fs ≠ [])
    (fun e => e.isMishap = true) (perform p t i) := by
  refine (brings_execute i).bind fun flow => ?_
  by_cases hflow : flow = .finish
  · subst hflow
    exact footed_pure fun _ _ h => nomatch h
  · exact footed_mono (footed_follow hflow) fun _ h => h hflow

end Step

end Interleave

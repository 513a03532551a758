import Interleave.Proofs.Step.Floors

/-!
# What a fault leaves behind

An instruction that faults stops in the middle of its work: the frame on top may have lost some of
its operands, a stub may have been pushed, and the search for a handler may have left frames
already. But below a floor the frames are as they were, and the thread has not ended. So whoever
pushed the floor finds the frames of before under whatever has been left, and can drop the rest.
-/

namespace Interleave

open Effect

theorem Frame.StandsOver.cover {s : Frame} {below fs : List Frame} (h : s.StandsOver below fs) :
    Frame.Cover below fs := by
  obtain ⟨above, s', rfl, -⟩ := h
  cases above with
  | nil => exact .cons (List.suffix_refl below)
  | cons f above => exact .cons ((List.suffix_cons s' below).trans (List.suffix_append above _))

/-- Whether or not a floor has been left, the frames below it are there. -/
theorem Frame.below_suffix_of_left {s : Frame} {below fs : List Frame}
    (h : s.StandsOver below fs ∨ fs = below) : below <:+ fs := by
  rcases h with hover | rfl
  · exact hover.cover.below_suffix
  · exact List.suffix_refl fs

namespace Step

variable {α : Type} {t : ThreadId} {I Q : List Frame → Prop} {J : α → List Frame → Prop}
  {below : List Frame}

/-- From where a thread lives and has frames with `I`, this part of a step comes to where it lives
and has frames with `J`, or a fault leaves it alive with frames with `Q`. -/
abbrev Landing (t : ThreadId) (I : List Frame → Prop) (J : α → List Frame → Prop)
    (Q : List Frame → Prop) (a : Step α) : Prop :=
  Lands (fun w => w.kernel.AliveWith t I) (fun v w => w.kernel.AliveWith t (J v))
    (fun w => w.kernel.AliveWith t Q) a

theorem landing_pure {v : α} (h : ∀ fs, I fs → J v fs) : Landing t I J Q (pure v) :=
  .pure fun _ hw => hw.mono h

theorem landing_mono {I' Q' : List Frame → Prop} {J' : α → List Frame → Prop} {a : Step α}
    (h : Landing t I' J' Q' a) (hI : ∀ fs, I fs → I' fs) (hJ : ∀ v fs, J' v fs → J v fs)
    (hQ : ∀ fs, Q' fs → Q fs) : Landing t I J Q a :=
  h.mono (fun _ hw => hw.mono hI) (fun v _ hw => hw.mono (hJ v)) fun _ hw => hw.mono hQ

theorem landing_of_spares {a : Step α} (h : SparesThreads a) (hQ : ∀ fs, I fs → Q fs) :
    Landing t I (fun _ => I) Q a :=
  landing_mono (upholds_of_spares h) (fun _ h => h) (fun _ _ h => h) hQ

/-- What is shown for all frames one by one. -/
theorem landing_of_each {a : Step α} (h : ∀ fs, I fs → Landing t (· = fs) J Q a) :
    Landing t I J Q a := by
  rintro w ⟨th, hth, halive, hI⟩
  exact h th.frames hI ⟨th, hth, halive, rfl⟩

theorem landing_thread {f : Thread → Step α}
    (hf : ∀ th, I th.frames → Landing t (· = th.frames) J Q (f th)) :
    Landing t I J Q (do f (← lift ((← kernel).thread t))) := by
  rintro w ⟨th, hth, halive, hI⟩
  show Ends _ _ ((lift (w.kernel.thread t) >>= f) w)
  rw [lift_thread hth, pure_bind]
  exact hf th hI ⟨th, hth, halive, rfl⟩

/-- Where there is a frame, a change of it does not fault. -/
theorem landing_modifyTop {g : Frame → Frame} (hI : ∀ fs, I fs → fs ≠ []) :
    Landing t I (fun _ _ => True) Q (onFrame t (modify g)) := by
  rintro w ⟨th, hth, halive, hP⟩
  obtain ⟨f, rest, hframes⟩ := List.exists_cons_of_ne_nil (hI _ hP)
  have htop : w.kernel.topFrame t = .ok f :=
    Kernel.topFrame_eq_ok_iff.mpr ⟨rest, (Kernel.frames_of_getElem? hth).trans hframes⟩
  have hok : onFrame t (modify g) w =
      .ok ⟨⟩ { w with kernel := w.kernel.modifyThread t (·.setTop (g f)) } :=
    onFrame_eq_ok.mpr ⟨f, g f, htop, modify_eq_ok.mpr rfl, rfl⟩
  have hlives : w.kernel.AliveWith t fun _ => True := ⟨th, hth, halive, trivial⟩
  rw [hok]
  exact hlives.modifyThread t (fun _ h => h) fun _ h => h

end Step

/-! ## Leaving frames -/

namespace Call

variable {t : ThreadId} {P : List Frame → Prop} {below rest : List Frame} {f : Frame}

theorem upholds_releaseMonitor (f : Frame) :
    Upholds (fun w => w.kernel.AliveWith t P) (releaseMonitor t f) := by
  refine (Step.upholds_of_spares Step.spares_kernel).bind fun _ k _ _ =>
    (Step.upholds_of_spares (Step.spares_lift _)).bind fun _ target _ _ =>
      (Step.upholds_of_spares (Step.spares_object target)).bind fun _ o _ _ => ?_
  split
  · exact (Step.upholds_unlock target t).bind fun _ _ _ _ =>
      Step.upholds_of_spares (Step.spares_emit _)
  · exact .pure fun _ hw => hw

theorem spares_recordExit (m : Method) : Step.SparesThreads (recordExit t m) := by
  have hemit : Step.SparesThreads
      (if !m.isMachineOwned then Step.emit (.methodExited t m) else pure ()) := by
    split
    · exact Step.spares_emit _
    · exact .pure _
  unfold recordExit
  dsimp only
  split
  · split
    · exact (Step.spares_setClassStatus _ _).bind fun _ => hemit
    · exact hemit
  · exact hemit

/-- Even if the monitor of the frame on top cannot be given back, the frames below are there. -/
theorem landing_leave :
    Step.Landing t (· = f :: rest) (fun _ fs => fs = rest) (fun fs => rest <:+ fs) (leave t) := by
  refine Step.landing_thread fun th hframes => ?_
  simp only [hframes]
  -- from here on the frame on top is gone
  have hpopped : Step.Landing t (· = f :: rest) (fun _ fs => fs = rest) (fun fs => fs = rest)
      (Step.modifyKernel fun k => k.modifyThread t fun th => { th with frames := rest }) := by
    intro w hw
    have hleft : (w.kernel.modifyThread t fun th => { th with frames := rest }).AliveWith t
        (· = rest) := hw.modifyOwn (fun _ h => h) fun _ _ => rfl
    exact hleft
  have hrecorded : Upholds (fun w => w.kernel.AliveWith t (· = rest)) (do
      recordExit t f.method
      pure f) :=
    (Step.upholds_of_spares (spares_recordExit f.method)).bind fun _ _ _ _ => .pure fun _ hw => hw
  refine Step.landing_mono (hpopped.bind fun _ _ _ _ => ?_) (fun _ h => h) (fun _ _ h => h)
    fun _ hfs => hfs ▸ List.suffix_refl rest
  dsimp only
  split
  · exact (upholds_releaseMonitor f).bind fun _ _ _ _ => hrecorded
  · exact hrecorded

theorem landing_leave_of_cover :
    Step.Landing t (Frame.Cover below) (fun _ fs => below <:+ fs) (fun fs => below <:+ fs)
      (leave t) := by
  refine Step.landing_of_each fun fs hcover => ?_
  obtain ⟨f, rest, rfl⟩ := List.exists_cons_of_ne_nil hcover.top
  have hkept : below <:+ rest := hcover.kept
  exact Step.landing_mono landing_leave (fun _ h => h) (fun _ _ hfs => hfs ▸ hkept)
    fun _ => hkept.trans

theorem landing_doReturn (i : Instruction) :
    Step.Landing t (Frame.Cover below) (fun _ _ => True) (fun fs => below <:+ fs)
      (doReturn t i) := by
  have hpop : Step.Landing t (Frame.Cover below) (fun _ => Frame.Cover below)
      (fun fs => below <:+ fs) (Step.onFrame t (Frame.popSlots (returnSlots i.op))) :=
    Step.landing_mono (Step.covering_onFrame _ below) (fun _ h => h) (fun _ _ h => h)
      fun _ hcover => hcover.below_suffix
  refine hpop.bind fun _ result _ _ => landing_leave_of_cover.bind fun _ _ _ _ =>
    Step.landing_thread fun th _ => ?_
  split
  · exact Step.landing_pure fun _ _ => trivial
  · rename_i c rest hframes
    refine (Step.landing_modifyTop ?_).bind fun _ _ _ _ => Step.landing_pure fun _ _ => trivial
    rintro fs rfl
    exact hframes ▸ List.cons_ne_nil c rest

theorem landing_stubReturn :
    Step.Landing t (Frame.Cover below) (fun _ _ => True) (fun fs => below <:+ fs)
      (stubReturn t) :=
  landing_leave_of_cover.bind fun _ _ _ _ =>
    (Step.landing_of_spares (Step.spares_note _) fun _ hfs => hfs).bind fun _ _ _ _ =>
      Step.landing_thread fun _ _ => Step.landing_pure fun _ _ => trivial

end Call

namespace Unwound

variable {p : Program} {t : ThreadId} {s : Frame} {below : List Frame}

/-- The search for a handler stops at a floor, if it does not fault above it. -/
theorem landing_search (hs : s.method.attributes.firewall = true) (r : ObjRef) (c : ClassId)
    {fs : List Frame} (hfs : s.StandsOver below fs) :
    Step.Landing t (· = fs) (fun _ _ => True) (fun fs => below <:+ fs) (search p t r c fs) := by
  induction fs with
  | nil => exact absurd rfl hfs.ne_nil
  | cons f rest ih =>
    have hsuffix : ∀ fs, fs = f :: rest → below <:+ fs := by
      rintro fs rfl
      exact hfs.cover.below_suffix
    have hrest : below <:+ rest := hfs.cover.kept
    refine (Step.landing_of_spares (Step.spares_lift _) hsuffix).bind fun _ handler _ _ => ?_
    split
    · refine (Step.landing_of_spares (Step.spares_lift _) hsuffix).bind fun _ target _ _ => ?_
      refine (Step.landing_modifyTop ?_).bind fun _ _ _ _ => Step.landing_pure fun _ _ => trivial
      rintro fs rfl
      exact List.cons_ne_nil f rest
    · have hleave : Step.Landing t (· = f :: rest) (fun _ fs => fs = rest) (fun fs => below <:+ fs)
          (Call.leave t) :=
        Step.landing_mono Call.landing_leave (fun _ h => h) (fun _ _ h => h) fun _ => hrest.trans
      refine hleave.bind fun _ _ _ _ => ?_
      split
      · exact (Step.landing_of_spares (Step.spares_object r) fun fs hfs => hfs ▸ hrest).bind
          fun _ _ _ _ => Step.landing_pure fun _ _ => trivial
      · rename_i hgo
        rw [Bool.or_eq_true, not_or, Bool.not_eq_true] at hgo
        -- the frame is not the floor, which is a firewall
        rcases hfs.tail with ⟨hsame, -⟩ | hover
        · rw [← hsame.method, hgo.1] at hs
          cases hs
        · exact ih hover

theorem landing_unwind (hs : s.method.attributes.firewall = true) (r : ObjRef) :
    Step.Landing t (s.StandsOver below) (fun _ _ => True) (fun fs => below <:+ fs)
      (unwind p t r) := by
  have hsuffix : ∀ fs, s.StandsOver below fs → below <:+ fs := fun _ h => h.cover.below_suffix
  exact (Step.landing_of_spares (Step.spares_emit _) hsuffix).bind fun _ _ _ _ =>
    (Step.landing_of_spares (Step.spares_object r) hsuffix).bind fun _ o _ _ =>
      Step.landing_thread fun _ hfs => landing_search hs r o.classId hfs

end Unwound

/-! ## Instructions -/

namespace Step

variable {p : Program} {t : ThreadId} {s : Frame} {below : List Frame}

theorem landing_follow (hs : s.method.attributes.firewall = true) (flow : Flow) :
    Landing t (s.StandsOver below) (fun _ _ => True) (fun fs => below <:+ fs)
      (follow p t flow) := by
  cases flow with
  | goto index =>
    exact (landing_modifyTop fun _ h => h.ne_nil).bind fun _ _ _ _ =>
      landing_pure fun _ _ => trivial
  | raise r =>
    refine (Unwound.landing_unwind hs r).bind fun _ u _ _ => ?_
    cases u with
    | handled => exact landing_pure fun _ _ => trivial
    | escaped record => exact landing_pure fun _ _ => trivial
  | called => exact landing_pure fun _ _ => trivial
  | returned => exact landing_pure fun _ _ => trivial
  | again => exact landing_pure fun _ _ => trivial
  | finish => exact landing_pure fun _ _ => trivial

/-- A part of a step that leaves no frame leaves a floor where it is. -/
theorem Within.landing {a : Step Flow} (h : Within t (Work.Grown t) goesOn a) :
    Landing t (s.StandsOver below) (fun _ => s.StandsOver below) (fun fs => below <:+ fs) a := by
  intro w hw
  have hcovered := h.covering below (hw.mono fun _ hover => hover.cover)
  cases ha : a w with
  | ok v w' =>
    rw [ha] at hcovered
    obtain ⟨th, hth, halive, -⟩ := hcovered
    refine ⟨th, hth, halive, ?_⟩
    rw [← Kernel.frames_of_getElem? hth]
    exact hw.frames.grown (h.keeps ha)
  | error e w' =>
    rw [ha] at hcovered
    have hleft : w'.kernel.AliveWith t (Frame.Cover below) := hcovered
    exact hleft.mono fun _ hcover => hcover.below_suffix

/-- **A fault does not reach below a floor.** Whatever comes of an instruction that is run above a
firewall, the thread has not ended by it; and if it faults, the frames below the firewall are still
there, at the bottom of those that are left. -/
theorem landing_perform (hs : s.method.attributes.firewall = true) (i : Instruction) :
    Landing t (s.StandsOver below) (fun _ _ => True) (fun fs => below <:+ fs)
      (perform p t i) := by
  -- nothing remains to be done after a return, in whatever frames the thread is then
  have hreturned : ∀ flow : Flow, flow = .finish ∨ flow = .returned →
      Landing t (fun _ => True) (fun _ _ => True) (fun fs => below <:+ fs) (follow p t flow) := by
    rintro flow (rfl | rfl)
    · exact landing_pure fun _ _ => trivial
    · exact landing_pure fun _ _ => trivial
  rcases (kind p t i).grows with hgrows | ⟨-, he⟩ | ⟨-, he⟩
  · exact hgrows.landing.bind fun _ flow _ _ => landing_follow hs flow
  · unfold perform
    rw [he]
    have hlands : Landing t (s.StandsOver below) (fun _ _ => True) (fun fs => below <:+ fs)
        (Call.doReturn t i) :=
      landing_mono (Call.landing_doReturn i) (fun _ h => h.cover) (fun _ _ h => h) fun _ h => h
    refine hlands.bind fun w flow w' hreturn => ?_
    obtain ⟨f, rest, -, -, ⟨hflow, -⟩ | ⟨hflow, -⟩⟩ := Call.doReturn_frames hreturn
    · exact hreturned flow (.inl hflow)
    · exact hreturned flow (.inr hflow)
  · unfold perform
    rw [he]
    have hlands : Landing t (s.StandsOver below) (fun _ _ => True) (fun fs => below <:+ fs)
        (Call.stubReturn t) :=
      landing_mono Call.landing_stubReturn (fun _ h => h.cover) (fun _ _ h => h) fun _ h => h
    refine hlands.bind fun w flow w' hreturn => ?_
    obtain ⟨f, -, hflow, -⟩ := Call.stubReturn_frames hreturn
    refine hreturned flow ?_
    rw [hflow]
    split
    · exact .inl rfl
    · exact .inr rfl

end Step

end Interleave

import Interleave.Proofs.Machine.HostCalls
import Interleave.Proofs.Step.Faulted

/-!
# Calls from outside restore the stack

A call from outside may run any code: calls, initializers of classes, exceptions, and instructions
that fault or wait. Whatever comes of it, the frames of the caller stay untouched under the stub,
which is a floor, and when the call is over they are all that is left. A call that comes back has
left the stub by its last instruction, and its result is what the stub had on its operand stack
then.
-/

namespace Interleave

open Effect Relation

namespace Kernel

variable {k : Kernel} {t : ThreadId} {below : List Frame}

/-- A stub with these frames under it is about to return these slots. -/
structure Returns (k : Kernel) (t : ThreadId) (stub : Method) (below : List Frame)
    (slots : List Slot) : Prop where
  stands : ∃ i, k.At t i ∧ i.op = .directCallReturn
  stub : ∃ f, k.frames t = f :: below ∧ f.method = stub ∧ slots = f.operands.reverse

theorem AliveWith.lives {P : List Frame → Prop} (h : k.AliveWith t P) : k.Lives t :=
  h.imp fun _ ⟨hth, halive, _⟩ => ⟨hth, halive⟩

/-- Frames that are dropped down to those below leave these. -/
theorem AliveWith.dropTo (h : k.AliveWith t (below <:+ ·)) :
    (k.modifyThread t (·.dropTo below.length)).AliveWith t (· = below) := by
  refine h.modifyOwn (fun _ halive => halive) fun th hsuffix => ?_
  obtain ⟨dropped, hframes⟩ := hsuffix
  show th.frames.drop (th.frames.length - below.length) = below
  rw [← hframes, List.length_append, Nat.add_sub_cancel, List.drop_left]

theorem Lives.dropTo (h : k.Lives t) (n : Nat) : (k.modifyThread t (·.dropTo n)).Lives t := by
  obtain ⟨th, hth, halive⟩ := h
  refine ⟨th.dropTo n, ?_, halive⟩
  rw [getElem?_modifyThread, if_pos rfl, hth]
  rfl

end Kernel

namespace Machine

variable {m m' : Machine} {t : ThreadId}

/-! ## One instruction -/

/-- The transient data of a thread is that of the instruction that has worked for it. -/
theorem transient_worked (m : Machine) (t : ThreadId) (th : Thread) (f : Frame) (i : Instruction)
    (w : Work) : ((m.worked t th f i w).scratchOf t).transient = w.transient :=
  congrArg Scratch.transient (scratchOf_absorb _ t w)

/-- What becomes of a call from outside does not harm the thread or the machine. -/
structure Unharmed (m : Machine) (t : ThreadId) (m' : Machine) : Prop where
  lives : m.kernel.Lives t → m'.kernel.Lives t
  uncaught : m'.path.uncaught = m.path.uncaught
  /-- No exception is left behind that left the call. -/
  hostEscape : m.hostEscape = none → m'.hostEscape = none

theorem Unharmed.refl (m : Machine) (t : ThreadId) : Unharmed m t m := ⟨id, rfl, id⟩

theorem Unharmed.trans {m'' : Machine} (h : Unharmed m t m') (h' : Unharmed m' t m'') :
    Unharmed m t m'' where
  lives hlives := h'.lives (h.lives hlives)
  uncaught := h'.uncaught.trans h.uncaught
  hostEscape hnone := h'.hostEscape (h.hostEscape hnone)

/-- An instruction has been run above a floor, or has left the floor. Unless an exception has left
the floor, the instruction has been performed. -/
structure StepsAbove (m : Machine) (t : ThreadId) (s : Frame) (below : List Frame) (m' : Machine) :
    Prop where
  program : m'.program = m.program
  hostCall : m'.hostCall = m.hostCall
  uncaught : m'.path.uncaught = m.path.uncaught
  stack : m'.kernel.AliveWith t fun fs => s.StandsOver below fs ∨ fs = below
  performs : m'.hostEscape = none → Kernel.Performs m.program t m.kernel m'.kernel
  /-- If the floor has been left, then by the last instruction of a stub. -/
  returns : m'.hostEscape = none → m'.kernel.frames t = below →
    ∃ slots, (m'.scratchOf t).transient.result = some slots ∧
      m.kernel.Returns t s.method below slots

theorem hostEscape_told (m : Machine) (t : ThreadId) (th : Thread) (f : Frame) (i : Instruction) :
    (m.told t th f i).hostEscape = m.hostEscape := by
  obtain ⟨ns, htold⟩ := exists_tellExecuting
    (m.modifyScratch t fun s => { s with transient := {}, firstStep := false }) t th f i
  unfold told
  rw [htold]
  rfl

/-- Behind an instruction, once it has been settled what became of the thread, only its next point
is recorded, and listeners are told. -/
structure Concluded (n : Machine) (t : ThreadId) (m' : Machine) : Prop extends SameState n m' where
  hostEscape : m'.hostEscape = n.hostEscape
  transient : (m'.scratchOf t).transient = (n.scratchOf t).transient

theorem concluded (n : Machine) (t : ThreadId) (i : Instruction) :
    Concluded n t (((n.updateNext t).deliver).tellExecuted t i) := by
  obtain ⟨next, hnext⟩ := scratchOf_concluded n t i
  obtain ⟨ns, hdeliver⟩ := exists_deliver (n.updateNext t)
  obtain ⟨ns', htell⟩ := exists_tellExecuted (n.updateNext t).deliver t i
  refine ⟨SameState.concluded n t i, ?_, ?_⟩
  · rw [htell, hdeliver]
    rfl
  · rw [hnext]

/-- An instruction that was performed, and what is settled then. -/
theorem step_concluded {escaped : Bool} (h : step t m = .ok escaped m') :
    ∃ (i : Instruction) (out : Outcome) (w' : Work) (n : Machine), m.kernel.At t i ∧
      Step.perform m.program t i m.work = .ok out w' ∧
      n.program = m.program ∧ n.hostCall = m.hostCall ∧ n.path.uncaught = m.path.uncaught ∧
      n.kernel = w'.kernel ∧ (n.scratchOf t).transient = w'.transient ∧
      Concluded (n.settle t out).2 t m' := by
  obtain ⟨th, f, i, out, w', hth, hf, hi, hperform, -, rfl⟩ := step_eq_ok_iff.mp h
  have hat : m.kernel.At t i := by
    refine ⟨f, ?_, hi⟩
    unfold Kernel.topFrame
    rw [Kernel.thread_eq_ok.mpr hth]
    exact hf
  have htold := SameState.told m t th f i
  have hpath : (m.told t th f i).path.uncaught = m.path.uncaught := by rw [htold.path]
  exact ⟨i, out, w', m.worked t th f i w', hat, hperform, htold.program, htold.hostCall, hpath,
    rfl, transient_worked m t th f i w', concluded _ t i⟩

variable {s : Frame} {below : List Frame}

theorem step_above {escaped : Bool} (hhost : m.hostCall = some (t, below.length))
    (hs : s.method.IsFloor) (hbelow : below ≠ [])
    (hstands : m.kernel.AliveWith t (s.StandsOver below)) (h : step t m = .ok escaped m') :
    StepsAbove m t s below m' := by
  obtain ⟨i, out, w', n, hat, hperform, hprogram, hhostCall, huncaught, hkernel, htransient,
    hafter⟩ := step_concluded h
  have hover := Step.perform_standsOver (w := m.work) hs hat hstands.frames hperform
  have hlanded := @Step.landing_perform m.program t s below hs.firewall i m.work hstands
  rw [hperform] at hlanded
  obtain ⟨th', hth', halive, -⟩ := hlanded
  have hstack : n.kernel.AliveWith t fun fs => s.StandsOver below fs ∨ fs = below := by
    rw [hkernel]
    exact ⟨th', hth', halive, Kernel.frames_of_getElem? hth' ▸ hover⟩
  cases out with
  | running =>
    replace hafter : Concluded n t m' := hafter
    have hkernel' : m'.kernel = w'.kernel := hafter.kernel.trans hkernel
    refine ⟨hafter.program.trans hprogram, hafter.hostCall.trans hhostCall, ?_, ?_, fun _ => ?_,
      fun _ hleft => ?_⟩
    · rw [hafter.path, huncaught]
    · rw [hafter.kernel]
      exact hstack
    · exact ⟨i, .running, m.work, w', rfl, hat, hperform, hkernel'.symm⟩
    · rw [hkernel'] at hleft
      obtain ⟨hop, g, hframes, hsame, hresult⟩ :=
        Step.floor_left (w := m.work) hs hat hstands.frames hperform hleft
      refine ⟨g.operands.reverse, ?_, ⟨i, hat, hop⟩, g, hframes, hsame.method, rfl⟩
      rw [hafter.transient, htransient, hresult]
  | finished =>
    -- there are frames below the floor
    have hnil := Step.frames_of_finished hperform
    rcases hover with hover | hleft
    · exact absurd hnil hover.ne_nil
    · exact absurd (hleft.symm.trans hnil) hbelow
  | escaped r =>
    have hsettle : (n.settle t (.escaped r)).2 =
        { n with
          kernel := n.kernel.modifyThread t (·.dropTo below.length), hostEscape := some r } := by
      simp only [settle, hhostCall, hhost, if_true]
    rw [hsettle] at hafter
    have hsuffix : n.kernel.AliveWith t (below <:+ ·) :=
      hstack.mono fun _ => Frame.below_suffix_of_left
    have hescape : m'.hostEscape = some r := hafter.hostEscape
    refine ⟨hafter.program.trans hprogram, hafter.hostCall.trans hhostCall, ?_, ?_, ?_, ?_⟩
    · rw [hafter.path]
      exact huncaught
    · rw [hafter.kernel]
      exact hsuffix.dropTo.mono fun _ => .inr
    · intro hnone
      rw [hescape] at hnone
      cases hnone
    · intro hnone
      rw [hescape] at hnone
      cases hnone

/-- If an instruction faults above a floor, the frames below it are still there. -/
theorem step_faulted {e : Fault} (hs : s.method.IsFloor)
    (hstands : m.kernel.AliveWith t (s.StandsOver below)) (h : step t m = .error e m') :
    Unharmed m t m' ∧ below <:+ m'.kernel.frames t := by
  have hsuffix : below <:+ m.kernel.frames t := hstands.frames.cover.below_suffix
  unfold step at h
  rw [Action.thread_bind_eq_error] at h
  rcases h with ⟨-, rfl⟩ | ⟨th, hth, h⟩
  · exact ⟨.refl m' t, hsuffix⟩
  simp only [modify_bind, get_bind, Action.lift_bind_eq_error] at h
  rcases h with ⟨-, rfl⟩ | ⟨f, hf, ⟨-, rfl⟩ | ⟨i, hi, h⟩⟩
  · exact ⟨⟨id, rfl, id⟩, hsuffix⟩
  · exact ⟨⟨id, rfl, id⟩, hsuffix⟩
  change (Action.step t (Step.perform (m.told t th f i).program t i) >>= _) (m.told t th f i) = _
    at h
  rcases bind_eq_error.mp h with hstep | ⟨out, m₁, -, hrest⟩
  · obtain ⟨w', hperform, rfl⟩ := Action.step_eq_error hstep
    rw [work_told] at hperform
    have hlanded := @Step.landing_perform (m.told t th f i).program t s below hs.firewall i m.work
      hstands
    rw [hperform] at hlanded
    have hleft : w'.kernel.AliveWith t (below <:+ ·) := hlanded
    have htold := SameState.told m t th f i
    have hpath : (m.told t th f i).path.uncaught = m.path.uncaught := by rw [htold.path]
    refine ⟨⟨fun _ => hleft.lives, hpath, fun hnone => ?_⟩, hleft.frames⟩
    exact (hostEscape_told m t th f i).trans hnone
  · cases hrest

/-! ## Rounds -/

variable {p : Program} {k₀ : Kernel}

/-- The call goes on as long as the floor has not been left. -/
theorem StepsAbove.underway (habove : StepsAbove m t s below m') (h : Underway p t s below k₀ m)
    (hescape : m'.hostEscape = none) (hmore : m'.kernel.frames t ≠ below) :
    Underway p t s below k₀ m' where
  program := habove.program.trans h.program
  hostCall := habove.hostCall.trans h.hostCall
  performs := h.performs.tail (h.program ▸ habove.performs hescape)
  stands := habove.stack.frames.resolve_right hmore

/-- A round of a call goes on above the stub, or comes back from it, or leaves what is below the
stub at the bottom of the stack. -/
theorem hostRound_ends (hs : s.method.IsFloor) (hbelow : below ≠ [])
    (h : Underway p t s below k₀ m) :
    Ends (fun r m' => Unharmed m t m' ∧ Sum.elim (fun _ => Underway p t s below k₀ m')
        (fun slots => m'.kernel.frames t = below ∧ ∃ k, ReflTransGen (Kernel.Performs p t) k₀ k ∧
          k.Returns t s.method below slots) r)
      (fun m' => Unharmed m t m' ∧ below <:+ m'.kernel.frames t)
      (hostRound t below.length () m) := by
  obtain ⟨f, rest, hframes⟩ := List.exists_cons_of_ne_nil h.stands.ne_nil
  obtain ⟨th, hth, -⟩ := Kernel.exists_of_frames hframes
  have hsuffix : below <:+ m.kernel.frames t := h.stands.cover.below_suffix
  unfold hostRound
  rw [bind_of_ok (Action.thread_eq_ok.mpr ⟨hth, rfl⟩), get_bind]
  split
  · exact ⟨⟨id, rfl, id⟩, hsuffix⟩
  rename_i hgo
  rw [Bool.or_eq_true, not_or, Bool.not_eq_true', Bool.not_eq_false] at hgo
  have hlives : m.kernel.Lives t := Kernel.Runs.lives ⟨th, hth, hgo.1⟩
  have hstands : m.kernel.AliveWith t (s.StandsOver below) := by
    obtain ⟨th', hth', halive⟩ := hlives
    exact ⟨th', hth', halive, Kernel.frames_of_getElem? hth' ▸ h.stands⟩
  dsimp only
  cases hstep : step t m with
  | error e m₁ =>
    rw [bind_of_error hstep]
    exact step_faulted hs hstands hstep
  | ok escaped m₁ =>
    have habove := step_above h.hostCall hs hbelow hstands hstep
    rw [bind_of_ok hstep, get_bind]
    cases hescape : m₁.hostEscape with
    | some record =>
      exact ⟨⟨fun _ => habove.stack.lives, habove.uncaught, fun _ => rfl⟩,
        Frame.below_suffix_of_left habove.stack.frames⟩
    | none =>
      have hunharmed : Unharmed m t m₁ :=
        ⟨fun _ => habove.stack.lives, habove.uncaught, fun _ => hescape⟩
      obtain ⟨th₁, hth₁, -, hstack⟩ := habove.stack
      have hframes₁ := Kernel.frames_of_getElem? hth₁
      dsimp only
      rw [bind_of_ok (Action.thread_eq_ok.mpr ⟨hth₁, rfl⟩)]
      split
      · rename_i hfew
        rw [Thread.hasAtMost_iff] at hfew
        have hleft : m₁.kernel.frames t = below := by
          rw [hframes₁]
          exact hstack.resolve_left fun hover => absurd hover.length_lt (Nat.not_lt.mpr hfew)
        obtain ⟨slots, hresult, hreturns⟩ := habove.returns hescape hleft
        refine ⟨hunharmed, hleft, m.kernel, h.performs, ?_⟩
        rw [hresult]
        exact hreturns
      · rename_i hmany
        refine ⟨hunharmed, habove.underway h hescape fun hleft => hmany ?_⟩
        rw [Thread.hasAtMost_iff]
        exact Nat.le_of_eq (congrArg List.length (hframes₁.symm.trans hleft))

/-- What one round does, all rounds of a call do. -/
theorem hostRounds_end (hs : s.method.IsFloor) (hbelow : below ≠ [])
    (h : Underway p t s below k₀ m) (n : Nat) :
    Ends (fun slots m' => Unharmed m t m' ∧ m'.kernel.frames t = below ∧
        ∃ k, ReflTransGen (Kernel.Performs p t) k₀ k ∧ k.Returns t s.method below slots)
      (fun m' => Unharmed m t m' ∧ below <:+ m'.kernel.frames t)
      (Loop.run (hostRound t below.length) .budgetExhausted n () m) := by
  refine Loop.run_ends Fault.budgetExhausted
    (I := fun _ n => Unharmed m t n ∧ Underway p t s below k₀ n) ?_ ?_ n ⟨.refl m t, h⟩
  · rintro _ m₁ ⟨hm₁, hunderway⟩
    refine (hostRound_ends hs hbelow hunderway).mono ?_ ?_
    · rintro r m₂ ⟨hm₂, hr⟩
      cases r with
      | inl _ => exact ⟨hm₁.trans hm₂, hr⟩
      | inr slots => exact ⟨hm₁.trans hm₂, hr⟩
    · rintro m₂ ⟨hm₂, hsuffix⟩
      exact ⟨hm₁.trans hm₂, hsuffix⟩
  · rintro _ m₁ ⟨hm₁, hunderway⟩
    exact ⟨hm₁, hunderway.stands.cover.below_suffix⟩

/-! ## Whole calls -/

/-- A call from outside has left its thread as it found it. -/
structure Undisturbed (m : Machine) (t : ThreadId) (m' : Machine) : Prop extends
    Unharmed m t m' where
  /-- The frames are the same, with all that they hold. -/
  frames : m'.kernel.frames t = m.kernel.frames t
  hostCall : m'.hostCall = m.hostCall

/-- A call by way of a stub with these arguments has come back with these slots: above the frames of
the caller, instructions of the thread have led from the stub, when it was pushed, to where it
returns the slots. -/
def CameBack (m : Machine) (t : ThreadId) (stub : Method) (args slots : List Slot) : Prop :=
  ∃ k, ReflTransGen (Kernel.Performs m.program t)
    (m.kernel.modifyThread t
      (·.pushFrame { Frame.enter stub .null with operands := args.reverse })) k ∧
    k.Returns t stub (m.kernel.frames t) slots

theorem unharmed_calling (m : Machine) (t : ThreadId) (f : Frame) :
    Unharmed m t (m.calling t f) := by
  refine ⟨?_, rfl, id⟩
  rintro ⟨th, hth, halive⟩
  refine ⟨th.pushFrame f, ?_, halive⟩
  show (m.kernel.modifyThread t (·.pushFrame f)).threads[t.index]? = _
  rw [Kernel.getElem?_modifyThread, if_pos rfl, hth]
  rfl

theorem runStub_ends {stub : Method} (hs : stub.IsFloor) (hframes : m.kernel.frames t ≠ [])
    (args : List Slot) :
    Ends (fun slots m' => Undisturbed m t m' ∧ CameBack m t stub args slots) (Undisturbed m t)
      (runStub t stub args m) := by
  obtain ⟨f, rest, hcons⟩ := List.exists_cons_of_ne_nil hframes
  obtain ⟨th, hth, -⟩ := Kernel.exists_of_frames hcons
  let s : Frame := { Frame.enter stub .null with operands := args.reverse }
  have hstart : Unharmed m t (m.calling t s) := unharmed_calling m t s
  have hrun := hostRounds_end (s := s) hs hframes (underway_calling hth s) m.config.stepBudget
  rw [runStub_eq hth]
  generalize Loop.run (hostRound t (m.kernel.frames t).length) .budgetExhausted
    m.config.stepBudget () _ = r at hrun ⊢
  cases r with
  | ok slots n =>
    obtain ⟨hn, hleft, hback⟩ := hrun
    obtain ⟨hlives, huncaught, hescape⟩ := hstart.trans hn
    exact ⟨⟨⟨hlives, huncaught, hescape⟩, hleft, rfl⟩, hback⟩
  | error e n =>
    obtain ⟨hn, dropped, hsuffix⟩ := hrun
    obtain ⟨hlives, huncaught, hescape⟩ := hstart.trans hn
    -- whatever is left of the call is dropped now
    have hdropped := Kernel.DroppedTo.of_modifyThread n.kernel t (m.kernel.frames t).length
    exact ⟨⟨fun h => (hlives h).dropTo _, huncaught, hescape⟩, hdropped.frames_eq hsuffix.symm, rfl⟩

/-- The same for a call by way of a stub that is made for a method, if it can be made. -/
theorem stubCall_ends (hframes : m.kernel.frames t ≠ []) (method : Method) (id : MethodId)
    (name : String) (args : List Slot) :
    Ends (fun slots m' => Undisturbed m t m' ∧ ∃ stub,
        method.stub id name m.program.stamp = .ok stub ∧ CameBack m t stub args slots)
      (Undisturbed m t)
      ((do
        let stub ← Action.lift (method.stub id name (← get).program.stamp)
        runStub t stub args : Action (List Slot)) m) := by
  rw [get_bind]
  cases hstub : method.stub id name m.program.stamp with
  | error e => exact ⟨.refl m t, rfl, rfl⟩
  | ok stub =>
    refine (runStub_ends (isFloor_of_stub hstub) hframes args).mono ?_ fun _ h => h
    exact fun slots m' h => ⟨h.1, stub, rfl, h.2⟩

/-- **A call from outside leaves the stack of its thread as it found it.** Whatever method is called
with whatever arguments, and whether the call comes back, is given up or fails: the thread has the
frames that it had before, it has not ended, no uncaught exception is recorded, and the call is no
longer in progress. If the call comes back, its result is the operand stack that its stub returned
with. -/
theorem hostCalls_restore_stack (hframes : m.kernel.frames t ≠ []) (method : Method)
    (args : List Slot) :
    Ends (fun slots m' => Undisturbed m t m' ∧ ∃ stub,
        method.directCallStub "[direct]" m.program.stamp = .ok stub ∧
          CameBack m t stub args slots)
      (Undisturbed m t) (callDirect t method args m) ∧
    Ends (fun slots m' => Undisturbed m t m' ∧ ∃ stub,
        method.reflectiveCallStub m.program.stamp = .ok stub ∧ CameBack m t stub args slots)
      (Undisturbed m t) (callReflective t method args m) :=
  ⟨stubCall_ends hframes method _ _ args, stubCall_ends hframes method _ _ args⟩

/-- A program that divides one argument by the other. -/
def divider : Demo.Build Unit := do
  let main ← Demo.declareMain []
  let (_, p) ← (← get).defineMethod main "div" "(II)I" .static 2 4 fun a =>
    (((a.onLocal .iLoad 0).onLocal .iLoad 1).emit .iDiv).emit .iReturn
  set p
  Demo.define main "main" Demo.mainModifiers 0 fun a => a.emit .voidReturn

/-- A division comes back with its result, and a division by zero is given up. Neither has left
anything on the stack of the thread, which lives on. -/
theorem hostCalls_restore_stack_divider : ∃ p t m method slots n e n',
    divider.run (Program.base .plain) = .ok ((), p) ∧
      attach (Machine.new p {} false) = .ok t m ∧ m.kernel.frames t ≠ [] ∧ m.kernel.Lives t ∧
      callDirect t method [8, 2] m = .ok slots n ∧ slots = [4] ∧
      Undisturbed m t n ∧ n.kernel.Lives t ∧
      callReflective t method [4, 0] m = .error e n' ∧ e.givesUp = true ∧
      Undisturbed m t n' ∧ n'.kernel.Lives t := by
  obtain ⟨p, -, hbuild, -, htest⟩ := exists_start_of_demo divider
    (fun p _ => (p.findMethod? ⟨16⟩ "div(II)I").any fun method =>
      gives attach (Machine.new p {} false) fun t m => !(m.kernel.frames t).isEmpty &&
        (m.kernel.threads[t.index]?.any Thread.isAlive) &&
        gives (callDirect t method [8, 2]) m (fun slots _ => slots == [4]) &&
        fails (callReflective t method [4, 0]) m fun e _ => e.givesUp)
    (by decide +kernel)
  simp only [Option.any_eq_true, gives_iff, fails_iff, Bool.and_eq_true, beq_iff_eq] at htest
  obtain ⟨method, -, t, m, hattach, ⟨⟨hsome, th, hth, halive⟩, slots, n, hdirect, hslots⟩, e, n',
    hreflective, he⟩ := htest
  have hframes : m.kernel.frames t ≠ [] := by
    rintro hnil
    simp [hnil] at hsome
  have hlives : m.kernel.Lives t := ⟨th, hth, halive⟩
  have hback := (hostCalls_restore_stack hframes method [8, 2]).1
  have hgivenUp := (hostCalls_restore_stack hframes method [4, 0]).2
  rw [hdirect] at hback
  rw [hreflective] at hgivenUp
  exact ⟨p, t, m, method, slots, n, e, n', hbuild, hattach, hframes, hlives, hdirect, hslots,
    hback.1, hback.1.lives hlives, hreflective, he, hgivenUp, hgivenUp.lives hlives⟩

end Machine

end Interleave

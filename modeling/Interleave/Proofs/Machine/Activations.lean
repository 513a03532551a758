import Interleave.Proofs.Machine.History
import Interleave.Proofs.Machine.Isolation
import Interleave.Proofs.Step.Convention

/-!
# Callers and their callees

A caller stays on its call, with the operands that are left, until the callee has returned. It does
not matter what is run above it, nor what other threads do: initializers may be pushed, calls may be
blocked and tried again, exceptions may be handled in the callee or above it. As the activation of
the callee is on the stack exactly as long as there are more frames than the caller had, the length
of the stack tells when it has ended.
-/

namespace Interleave

open Effect

/-- When it is settled what became of a thread, frames are as they were, or the thread has ended. -/
theorem Outcome.frames_settled (out : Outcome) (k : Kernel) (u t : ThreadId) :
    (out.settled k u).frames t = k.frames t ∨ (u = t ∧ (out.settled k u).frames t = []) := by
  have hended : (k.ended u).frames t = k.frames t ∨ (u = t ∧ (k.ended u).frames t = []) := by
    rw [Kernel.frames_ended]
    by_cases hu : u = t
    · exact .inr ⟨hu, if_pos hu⟩
    · exact .inl (if_neg hu)
  cases out with
  | running => exact .inl rfl
  | finished => exact hended
  | escaped r => exact hended

/-- An instruction leaves the frames of other threads alone. -/
theorem Step.frames_of_perform_of_ne {p : Program} {t u : ThreadId} {i : Instruction} {w w' : Work}
    {out : Outcome} (hat : w.kernel.At u i) (h : perform p u i w = .ok out w') (hne : t ≠ u)
    (hthere : w.kernel.frames t ≠ []) : w'.kernel.frames t = w.kernel.frames t := by
  obtain ⟨f, rest, hfs⟩ := List.exists_cons_of_ne_nil hthere
  obtain ⟨th, hth, -⟩ := Kernel.exists_of_frames hfs
  obtain ⟨th', hth', hwoken⟩ := (touched_perform hat h).others t th hne hth
  rw [Kernel.frames_of_getElem? hth, Kernel.frames_of_getElem? hth']
  by_cases hwhy : ∃ r, th.status = .blocked r ∧ w.kernel.Frees u r w'.kernel
  · rw [hwoken.woken hwhy]
  · rw [hwoken.left hwhy]

namespace Machine

variable {p : Program} {t : ThreadId} {k k' : Kernel} {x : Performed} {xs : List Performed}
  {m' : Machine} {s g : Frame} {below rest : List Frame}

/-! ## One instruction -/

/-- After an instruction, be it of the thread or of another one, a call is still on the stack, with
the same frames below it; or the thread itself has left it. -/
theorem Performed.LeadsTo.standsOver (h : x.LeadsTo m')
    (hfs : s.StandsOver below (x.before.frames t)) : s.StandsOver below (x.after.frames t) ∨
      (x.thread = t ∧ (x.after.frames t).length ≤ below.length) := by
  rcases Outcome.frames_settled x.outcome x.work.kernel x.thread t with hsame | ⟨hown, hnil⟩
  · replace hsame : x.after.frames t = x.work.kernel.frames t := hsame
    rw [hsame]
    by_cases hown : x.thread = t
    · subst hown
      by_cases hlong : below.length < (x.work.kernel.frames x.thread).length
      · exact .inl (Step.perform_standsOver_of_lt hfs h.performed hlong)
      · exact .inr ⟨rfl, Nat.not_lt.mp hlong⟩
    · have hothers : x.work.kernel.frames t = x.before.frames t :=
        Step.frames_of_perform_of_ne h.stands h.performed (Ne.symm hown) hfs.ne_nil
      exact .inl (hothers ▸ hfs)
  · replace hnil : x.after.frames t = [] := hnil
    rw [hnil]
    exact .inr ⟨hown, Nat.zero_le _⟩

/-- A call that is left by a return gives its result to the frame below it. -/
theorem Performed.LeadsTo.returns (h : x.LeadsTo m') (hop : x.instruction.op.isReturn = true)
    (hfs : s.StandsOver (g :: rest) (x.before.frames x.thread))
    (hleft : (x.after.frames x.thread).length ≤ (g :: rest).length) :
    ∃ s', s.SameCall s' ∧ x.before.frames x.thread = s' :: g :: rest ∧
      Call.returnSlots x.instruction.op ≤ s'.operands.length ∧ x.after.frames x.thread = { g with
        operands := s'.operands.take (Call.returnSlots x.instruction.op) ++ g.operands
        pc := g.pc + 1 } :: rest := by
  obtain ⟨above, s', hframes, hsame⟩ := hfs
  have hafter : x.outcome = .running → x.after = x.work.kernel := fun hout => by
    rw [Performed.after, hout]
    rfl
  cases above with
  | nil =>
    obtain ⟨hout, henough, hreturned⟩ := Step.frames_of_returned hop hframes h.performed
    exact ⟨s', hsame, hframes, henough, hafter hout ▸ hreturned⟩
  | cons f above =>
    -- a return leaves one frame only
    exfalso
    obtain ⟨f', fs, hcons⟩ : ∃ f' fs, above ++ s' :: g :: rest = f' :: fs :=
      List.exists_cons_of_ne_nil (by simp)
    rw [List.cons_append, hcons] at hframes
    obtain ⟨hout, -, hreturned⟩ := Step.frames_of_returned hop hframes h.performed
    rw [hafter hout, hreturned] at hleft
    have hlength := congrArg List.length hcons
    simp at hlength hleft
    omega

/-! ## Runs -/

/-- In a run, a call stays on the stack, or it is left by the last instruction: it has been there as
long as there were more frames than below it. -/
theorem Succession.standsOver (h : Succession p k xs k') (hfs : s.StandsOver below (k.frames t))
    (hdeep : ∀ x ∈ xs, below.length < (x.before.frames t).length) :
    s.StandsOver below (k'.frames t) ∨ ((k'.frames t).length ≤ below.length ∧
      ∃ x m', xs.getLast? = some x ∧ x.LeadsTo m' ∧ x.thread = t ∧
        s.StandsOver below (x.before.frames t) ∧ x.after = k') := by
  induction h with
  | nil => exact .inl hfs
  | @cons x xs m k k' before program runs leads rest ih =>
    subst before
    rcases leads.standsOver hfs with hstands | ⟨hown, hshort⟩
    · refine (ih hstands fun y hy => hdeep y (List.mem_cons_of_mem _ hy)).imp_right ?_
      rintro ⟨hshort, y, n, hlast, hy⟩
      exact ⟨hshort, y, n, by rw [List.getLast?_cons, hlast]; rfl, hy⟩
    · cases rest with
      | nil => exact .inr ⟨hshort, x, m, rfl, leads, hown, hfs, rfl⟩
      | @cons y _ _ _ _ before' _ _ _ _ =>
        have hlong := hdeep y (by simp)
        rw [before'] at hlong
        omega

/-- **Calls keep the convention.** When a thread enters a method that it calls, the arguments and
the receiver have become the first locals of a new frame, and are gone from the operands of the
caller, which stays on its call. In whatever run comes after that, the caller stays like this as
long as there are more frames than up to the caller; and when that ends by the return for the result
of the method, the result is on top of the operands of the caller, which goes on behind its
call. -/
theorem call_keeps_convention {w w₁ : Work} {f : Frame} {i : Instruction} {m : Method}
    {signature : Signature} {v₀ : Slot} {vs operands : List Slot}
    (hfs : w.kernel.frames t = f :: rest) (hop : i.op.isInvoke = true)
    (hcallee : p.callTarget w.kernel f i = .ok (some m)) (habstract : m.isAbstract = false)
    (hnative : m.isNative = false) (hparse : Signature.parse m.signature = .ok signature)
    (hlength : vs.length = signature.argCodes.length)
    (hstack : f.operands = (operands ++ m.passed v₀ vs).reverse)
    (hcalled : Step.execute p t i w = .ok .called w₁) :
    ∃ callee, callee.EnteredWith m signature v₀ vs ∧
      w₁.kernel.frames t = callee :: { f with operands := operands.reverse } :: rest ∧
      ∀ xs k, Succession p w₁.kernel xs k →
        (∀ x ∈ xs, rest.length + 1 < (x.before.frames t).length) →
          (rest.length + 1 < (k.frames t).length → ∃ above callee', callee.SameCall callee' ∧
            k.frames t = above ++ callee' :: { f with operands := operands.reverse } :: rest) ∧
          ((k.frames t).length ≤ rest.length + 1 → ∀ x, xs.getLast? = some x →
            x.instruction.op.returns signature.resultCode = true →
              ∃ callee' result, x.thread = t ∧ callee.SameCall callee' ∧
                x.before.frames t = callee' :: { f with operands := operands.reverse } :: rest ∧
                result.length = signature.resultCode.slotSize ∧
                result.reverse <+: callee'.operands ∧ k.frames t = { f with
                  operands := (operands ++ result).reverse
                  pc := f.pc + 1 } :: rest) := by
  obtain ⟨callee, hentered, hframes⟩ := Step.frames_of_called hfs hop hcallee habstract hnative
    hparse hlength hstack hcalled
  refine ⟨callee, hentered, hframes, fun xs k hrun hdeep => ?_⟩
  have hstands : callee.StandsOver ({ f with operands := operands.reverse } :: rest)
      (w₁.kernel.frames t) := ⟨[], callee, hframes, refl callee⟩
  constructor
  · intro hlong
    rcases hrun.standsOver hstands hdeep with ⟨above, callee', h, hsame⟩ | ⟨hshort, -⟩
    · exact ⟨above, callee', hsame, h⟩
    · exact absurd hshort (Nat.not_le.mpr hlong)
  · intro hshort x hlast hreturns
    rcases hrun.standsOver hstands hdeep with ⟨above, callee', h, -⟩ |
      ⟨-, y, n, hy, hleads, rfl, hbefore, rfl⟩
    · rw [h] at hshort
      simp at hshort
      omega
    · obtain rfl : x = y := Option.some.inj (hlast.symm.trans hy)
      obtain ⟨hreturn, hslots⟩ := Opcode.returnSlots_of_returns hreturns
      obtain ⟨callee', hsame, htop, henough, hafter⟩ := hleads.returns hreturn hbefore hshort
      rw [hslots] at henough hafter
      refine ⟨callee', (callee'.operands.take signature.resultCode.slotSize).reverse, rfl, hsame,
        htop, ?_, ?_, ?_⟩
      · rw [List.length_reverse, List.length_take, Nat.min_eq_left henough]
      · rw [List.reverse_reverse]
        exact List.take_prefix _ _
      · rw [hafter, List.reverse_append, List.reverse_reverse]

/-! ## An example -/

/-- An instance method takes an int, a long and another int, and returns the long. It does not ask
for locals. -/
def wideCall : Demo.Build Unit := do
  let cell ← Demo.declare { name := "demo/Cell" }
  let (_, p) ← (← get).defineMethod cell "pick" "(IJI)J" .publicAccess 0 2 fun a =>
    (a.onLocal .lLoad 2).emit .lReturn
  set p
  let main ← Demo.declareMain []
  Demo.define main "main" Demo.mainModifiers 0 fun a =>
    let a := ((((a.iconst 9).onClass .new "demo/Cell").iconst 3).emit .lConst (.int 7)).iconst 5
    let a := a.invoke .invokeVirtual "demo/Cell" "pick" "(IJI)J"
    (((a.emit .pop).emit .pop).emit .pop).emit .voidReturn

/-- The main thread is about to call that method, and has pushed the receiver and the arguments; and
the machine in which it has just called the method passes a test. -/
def callsPick (p : Program) (m : Machine) (test : Machine → Bool) : Bool :=
  match m.kernel.frames .main with
  | f :: _ =>
    f.operands == [5, 0, 7, 3, 20, 9] && f.instruction.toOption.any fun i =>
      i.op.isInvoke && ((p.callTarget m.kernel f i).toOption.join.any fun callee =>
        (!callee.isAbstract && !callee.isNative && !callee.isStatic) &&
          decide (Signature.parse callee.signature = .ok ⟨["I", "J", "I"], "J"⟩)) &&
        gives (Step.execute p .main i) m.work fun flow w =>
          flow == .called && test (m.withKernel w.kernel)
  | [] => false

/-- The main thread can run, has some frames, and stands in front of an opcode. -/
def isAtDepth (depth : Nat) (op : Opcode) (m : Machine) : Bool :=
  m.kernel.threads[0]?.any fun th => th.isRunnable && th.frames.length == depth &&
    th.frames.head?.any fun f => f.instruction.toOption.any (·.op == op)

theorem exists_of_callsPick {m : Machine} {test : Machine → Bool} (h : callsPick p m test = true) :
    ∃ f rest i callee w₁, m.kernel.frames .main = f :: rest ∧ f.operands = [5, 0, 7, 3, 20, 9] ∧
      i.op.isInvoke = true ∧ p.callTarget m.kernel f i = .ok (some callee) ∧
      callee.isAbstract = false ∧ callee.isNative = false ∧ callee.isStatic = false ∧
      Signature.parse callee.signature = .ok ⟨["I", "J", "I"], "J"⟩ ∧
      Step.execute p .main i m.work = .ok .called w₁ ∧ test (m.withKernel w₁.kernel) = true := by
  unfold callsPick at h
  split at h
  · rename_i f rest hframes
    simp only [Bool.and_eq_true, Option.any_eq_true, except_toOption_eq_some,
      Option.join_eq_some_iff, gives_iff, beq_iff_eq, Bool.not_eq_true', decide_eq_true_eq] at h
    obtain ⟨hoperands, i, -, ⟨hop, callee, hcallee, ⟨⟨habstract, hnative⟩, hdynamic⟩, hparse⟩, _,
      w₁, hcalled, rfl, htest⟩ := h
    exact ⟨f, rest, i, callee, w₁, hframes, hoperands, hop, hcallee, habstract, hnative, hdynamic,
      hparse, hcalled, htest⟩
  · cases h

theorem exists_of_isAtDepth {depth : Nat} {op : Opcode} {m : Machine}
    (h : isAtDepth depth op m = true) : m.kernel.Runs .main ∧
      (m.kernel.frames .main).length = depth ∧
      ∀ i, m.kernel.At .main i → i.op = op := by
  simp only [isAtDepth, Bool.and_eq_true, Option.any_eq_true, except_toOption_eq_some,
    beq_iff_eq] at h
  obtain ⟨th, hth, ⟨hruns, hdepth⟩, f, hf, i, hi, hop⟩ := h
  obtain ⟨rest, hframes⟩ := List.head?_eq_some_iff.mp hf
  have htop : m.kernel.topFrame .main = .ok f :=
    Kernel.topFrame_eq_ok.mpr ⟨th, rest, hth, hframes⟩
  refine ⟨⟨th, hth, hruns⟩, (Kernel.frames_of_getElem? hth).symm ▸ hdepth, ?_⟩
  rintro j ⟨g, hg, hj⟩
  rw [htop] at hg
  cases hg
  rw [hi] at hj
  cases hj
  exact hop

/-- An instruction that a thread runs comes before those that are run after it. -/
theorem exists_succession_of_step {m : Machine} {escaped : Bool} (hhost : m.hostCall = none)
    (hruns : m.kernel.Runs t) (h : step t m = .ok escaped m') :
    (m'.program = m.program ∧ m'.hostCall = none) ∧ ∃ x : Performed, x.before = m.kernel ∧
      m.kernel.At t x.instruction ∧ ∀ xs k', Succession m.program m'.kernel xs k' →
        Succession m.program m.kernel (x :: xs) k' := by
  obtain ⟨x, rfl, rfl, hleads, -⟩ := step_performs hhost h
  exact ⟨⟨hleads.program, hleads.hostCall⟩, x, rfl, hleads.stands, fun xs k' hrest =>
    .cons rfl rfl hruns hleads (hleads.kernel ▸ hrest)⟩

/-- The long comes behind the receiver and the first int, and what is left of it is padding. When it
has been returned, it is on top of what the caller had below the call. -/
theorem call_keeps_convention_wideCall : ∃ p m f rest m₃, ∃ (w₁ : Work) (callee : Frame),
    wideCall.run (Program.base .plain) = .ok ((), p) ∧
      Driven p { maxTransitionLength := 6 } m ∧ m.kernel.frames .main = f :: rest ∧
      f.operands = [5, 0, 7, 3, 20, 9] ∧
      w₁.kernel.frames .main = callee :: { f with operands := [9] } :: rest ∧
      callee.EnteredWith callee.method ⟨["I", "J", "I"], "J"⟩ 20 [3, 7, 5] ∧
      ∃ xs, Succession p w₁.kernel xs (Machine.kernel m₃) ∧ ∃ result : List Slot,
        result.length = 2 ∧ m₃.kernel.frames .main =
          { f with operands := ([9] ++ result).reverse, pc := f.pc + 1 } :: rest := by
  obtain ⟨p, m₀, hbuild, hstart, htest⟩ := exists_start_of_build wideCall
    { maxTransitionLength := 6 }
    (fun p m => m.pending.any fun g => gives (transition (g.select 0).2) m fun _ m =>
      callsPick p m fun m₁ => isAtDepth 3 .lLoad m₁ && gives (step .main) m₁ fun _ m₂ =>
        isAtDepth 3 .lReturn m₂ && gives (step .main) m₂ fun _ m₃ => isAtDepth 2 .pop m₃)
    (by decide +kernel)
  simp only [Option.any_eq_true, gives_iff] at htest
  obtain ⟨g, hg, e, m, hm, hcalls⟩ := htest
  have hdriven : Driven p { maxTransitionLength := 6 } m := .transition (.start hstart) hm
  obtain ⟨f, rest, i, method, w₁, hframes, hoperands, hop, hcallee, habstract, hnative, hdynamic,
    hparse, hcalled, hruns⟩ := exists_of_callsPick hcalls
  simp only [Bool.and_eq_true, gives_iff] at hruns
  obtain ⟨hat₁, e₂, m₂, hm₂, hat₂, e₃, m₃, hm₃, hat₃⟩ := hruns
  obtain ⟨hruns₁, hdepth₁, -⟩ := exists_of_isAtDepth hat₁
  obtain ⟨hruns₂, hdepth₂, hop₂⟩ := exists_of_isAtDepth hat₂
  obtain ⟨-, hdepth₃, -⟩ := exists_of_isAtDepth hat₃
  obtain ⟨⟨hp₂, hhost₂⟩, x₁, hx₁, -, hcons₁⟩ := exists_succession_of_step
    (m := m.withKernel w₁.kernel) hdriven.isReady.hostCall hruns₁ hm₂
  obtain ⟨-, x₂, hx₂, hstands₂, hcons₂⟩ := exists_succession_of_step hhost₂ hruns₂ hm₃
  replace hp₂ : m₂.program = p := hp₂.trans hdriven.sameRun.1
  replace hcons₁ : ∀ xs k', Succession p m₂.kernel xs k' → Succession p w₁.kernel (x₁ :: xs) k' :=
    hdriven.sameRun.1 ▸ hcons₁
  have hrun : Succession p w₁.kernel [x₁, x₂] m₃.kernel :=
    hcons₁ _ _ (hp₂ ▸ hcons₂ _ _ (.nil _))
  have hcodes : Signature.argCodes ⟨["I", "J", "I"], "J"⟩ = [.int, .long, .int] := by decide +kernel
  have hcode : Signature.resultCode ⟨["I", "J", "I"], "J"⟩ = .long := by decide +kernel
  have hstack : f.operands = ([9] ++ method.passed 20 [3, 7, 5]).reverse := by
    rw [hoperands, Method.passed, Method.receiverRow, hdynamic, Method.argCodes_of_parse hparse,
      hcodes]
    rfl
  obtain ⟨callee, hentered, hcaller, hconvention⟩ := call_keeps_convention (w := m.work) hframes hop
    hcallee habstract hnative hparse (by rw [hcodes]; rfl) hstack hcalled
  have hrest : rest.length = 1 := by
    have hlength : (w₁.kernel.frames .main).length = 3 := hdepth₁
    rw [hcaller] at hlength
    simpa using hlength
  have hdeep : ∀ x ∈ [x₁, x₂], rest.length + 1 < (x.before.frames .main).length := by
    simp only [List.forall_mem_cons, hx₁, hx₂, hrest, hdepth₁, hdepth₂]
    simp
  have hreturn : x₂.instruction.op = .lReturn := hop₂ _ hstands₂
  obtain ⟨-, hreturned⟩ := hconvention _ _ hrun hdeep
  obtain ⟨-, result, -, -, -, hresult, -, hafter⟩ :=
    hreturned (by omega) x₂ rfl (by rw [hreturn, hcode]; rfl)
  rw [hcode] at hresult
  exact ⟨p, m, f, rest, m₃, w₁, callee, hbuild, hdriven, hframes, hoperands, hcaller,
    hentered.method ▸ hentered, _, hrun, result, hresult, hafter⟩

end Machine

end Interleave

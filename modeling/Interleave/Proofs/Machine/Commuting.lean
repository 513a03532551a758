import Interleave.Proofs.Machine.Driven
import Interleave.Proofs.Step.Overlooks
import Interleave.Proofs.Step.Sources

/-!
# Steps that commute

An instruction that sees nothing but the frame it runs in may as well run a little earlier or later:
what another thread does meanwhile does not depend on it, and it does not depend on what the other
thread does. So nothing is lost if no scheduling point is placed in front of such an instruction.
-/

namespace Interleave

open Effect

/-! ## Instructions on one frame -/

namespace Local

/-- The instruction raises no exception in a frame: if it succeeds, it leads to an instruction. -/
def Quiet (i : Instruction) (f : Frame) : Prop :=
  ∀ flow f', execute i f = .ok flow f' → ∃ index, flow = .goto index

theorem quiet_of_goto {i : Instruction} {f f' : Frame} {index : Nat}
    (h : execute i f = .ok (.goto index) f') : Quiet i f := by
  intro flow g hg
  obtain ⟨rfl, -⟩ := EStateM.Result.ok.inj (h.symm.trans hg)
  exact ⟨index, rfl⟩

end Local

/-- Another frame on top. -/
theorem Kernel.modifyThread_setTop_eq_withFrames {k : Kernel} {t : ThreadId} {f : Frame}
    {rest : List Frame} (h : k.HasFrames t (· = f :: rest)) (g : Frame) :
    k.modifyThread t (·.setTop g) = k.withFrames t (g :: rest) := by
  obtain ⟨th, hth, hframes⟩ := h
  refine eq_of_threads rfl rfl fun i => ?_
  simp only [withFrames, modifyThread, Array.getElem?_modify]
  split
  · rename_i hi
    subst hi
    rw [hth]
    simp [Thread.setTop, hframes]
  · rfl

namespace Step

variable {p : Program} {t : ThreadId} {i : Instruction} {f g : Frame} {rest : List Frame}
  {w w' : Work} {out : Outcome} {index : Nat}

theorem execute_of_isLocal (hop : Local.isLocal i.op = true) : execute p t i = Local.run p t i := by
  unfold execute
  split <;> simp_all [Local.isLocal, Opcode.isBranch]

/-- An instruction on one frame gives its thread another frame on top. -/
theorem perform_of_isLocal (hop : Local.isLocal i.op = true)
    (hframes : w.kernel.HasFrames t (· = f :: rest))
    (h : Local.execute i f = .ok (.goto index) g) :
    perform p t i w = .ok .running
      { w with kernel := w.kernel.withFrames t ({ g with pc := index } :: rest) } := by
  have htop : w.kernel.topFrame t = .ok f := Kernel.topFrame_eq_ok_iff.mpr ⟨rest, hframes.frames⟩
  have hexecute : execute p t i w = .ok (.goto index)
      { w with kernel := w.kernel.modifyThread t (·.setTop g) } := by
    rw [execute_of_isLocal hop]
    exact bind_eq_ok.mpr ⟨.goto index, _, onFrame_eq_ok.mpr ⟨f, g, htop, h, rfl⟩, rfl⟩
  unfold perform
  rw [bind_of_ok hexecute, ← Kernel.modifyThread_setTop_eq_withFrames hframes,
    ← Kernel.modifyThread_setTop w.kernel t g { g with pc := index }]
  exact bind_eq_ok.mpr ⟨(), _,
    onFrame_eq_ok.mpr ⟨g, _, Kernel.topFrame_setTop htop g, rfl, rfl⟩, rfl⟩

/-- It has run on its frame when it succeeds. -/
theorem exists_execute_of_perform (hop : Local.isLocal i.op = true)
    (htop : w.kernel.topFrame t = .ok f) (hquiet : Local.Quiet i f)
    (h : perform p t i w = .ok out w') :
    ∃ index g, Local.execute i f = .ok (.goto index) g := by
  obtain ⟨flow, w₁, hexecute, -⟩ := bind_eq_ok.mp h
  rw [execute_of_isLocal hop] at hexecute
  obtain ⟨flow', w₂, hrun, -⟩ := bind_eq_ok.mp hexecute
  obtain ⟨f', g, htop', hlocal, -⟩ := onFrame_eq_ok.mp hrun
  obtain rfl : f = f' := Except.ok.inj (htop.symm.trans htop')
  obtain ⟨index, rfl⟩ := hquiet flow' g hlocal
  exact ⟨index, g, hlocal⟩

end Step

/-- What runs on its frame alone is no scheduling point, but for yielding. -/
theorem Relevance.isRelevant_of_isLocal {i : Instruction} (hop : Local.isLocal i.op = true)
    (hyield : i.op ≠ .threadYield) (p : Program) (k : Kernel) (t : ThreadId) :
    isRelevant p k t i = false := by
  have hobservable : ∀ th f, isObservable p k t th f i = false := by
    intro th f
    unfold isObservable
    split <;> simp_all [Local.isLocal, Opcode.isBranch]
  unfold isRelevant
  split
  · exact Bool.and_false _
  · split
    · exact Bool.and_false _
    · rw [hobservable, Bool.and_false, Bool.and_false]

/-! ## Machines with other frames of a thread -/

namespace Machine

namespace Action

variable {α : Type} {m : Machine} {t : ThreadId} {a : Step α} {w : Work}

/-- What a step has made of its work goes to the machine. -/
theorem step_of_ok {v : α}
    (h : a { m.work with transient := (m.scratchOf t).transient } = .ok v w) :
    step t a m = .ok v (m.absorb t w) := by
  unfold work at h
  unfold step
  dsimp only at h ⊢
  rw [h]
  rfl

theorem step_of_error {e : Fault}
    (h : a { m.work with transient := (m.scratchOf t).transient } = .error e w) :
    step t a m = .error e (m.absorb t w) := by
  unfold work at h
  unfold step
  dsimp only at h ⊢
  rw [h]
  rfl

end Action

variable {m m' n n' : Machine} {t u : ThreadId} {fs gs : List Frame} {s : Scratch}

/-- The machine in which a thread has these frames and this scratch data. -/
def withThread (m : Machine) (t : ThreadId) (fs : List Frame) (s : Scratch) : Machine :=
  { m with
    kernel := m.kernel.withFrames t fs
    scratch := m.scratch.setIfInBounds t.index s }

/-- What is queued, and what left a call from outside, is no part of the state. -/
theorem Alike.of_unread (m : Machine) (queue : Array Event) (hostEscape : Option Uncaught) :
    Alike True { m with queue, hostEscape } m :=
  ⟨rfl, rfl, rfl, rfl, rfl, rfl, rfl, rfl, rfl, fun _ => rfl, fun _ => rfl⟩

theorem Alike.withThread (h : Alike True m n) (t : ThreadId) (fs : List Frame) (s : Scratch) :
    Alike True (m.withThread t fs s) (n.withThread t fs s) where
  program := h.program
  config := h.config
  kernel := congrArg (Kernel.withFrames · t fs) h.kernel
  hostCall := h.hostCall
  current := h.current
  choice := h.choice
  uncaught := h.uncaught
  started := h.started
  pending := h.pending
  scratch _ := congrArg (Array.setIfInBounds · t.index s) (h.scratch trivial)
  trail := h.trail

/-- Scratch data for more threads comes behind that of a thread that has some. -/
theorem fitScratch_setIfInBounds {i : Nat} {a : Array Scratch} (hi : i < a.size) (count : Nat)
    (s : Scratch) :
    fitScratch count (a.setIfInBounds i s) = (fitScratch count a).setIfInBounds i s := by
  unfold fitScratch
  rw [Array.size_setIfInBounds, Array.setIfInBounds_append, if_pos hi]

/-- A machine is another one but for a thread, which has the frames `gs` and scratch data of its own
in the first one, and the frames `fs` in the second one. -/
structure Beside (t : ThreadId) (fs gs : List Frame) (s : Scratch) (n m : Machine) : Prop where
  frames : m.kernel.HasFrames t (· = fs)
  fits : m.kernel.threads.size ≤ m.scratch.size
  alike : Alike True n (m.withThread t gs s)

namespace Beside

theorem lt (h : Beside t fs gs s n m) : t.index < m.scratch.size := by
  obtain ⟨th, hth, -⟩ := h.frames
  exact Nat.lt_of_lt_of_le (Array.getElem?_eq_some_iff.mp hth).1 h.fits

theorem congr (h : Beside t fs gs s n m) (hn : Alike True n' n) (hm : Alike True m' m) :
    Beside t fs gs s n' m' where
  frames := hm.kernel ▸ h.frames
  fits := hm.kernel ▸ hm.scratch trivial ▸ h.fits
  alike := (hn.trans h.alike).trans (hm.withThread t gs s).symm

/-- Another thread is looked up. -/
theorem getElem?_threads (h : Beside t fs gs s n m) (hne : t ≠ u) :
    n.kernel.threads[u.index]? = m.kernel.threads[u.index]? := by
  rw [h.alike.kernel]
  exact (Kernel.getElem?_modifyThread _ _ _ _).trans (if_neg hne)

theorem scratchOf (h : Beside t fs gs s n m) (hne : t ≠ u) : n.scratchOf u = m.scratchOf u := by
  have hindex : t.index ≠ u.index := fun he => hne (congrArg ThreadId.mk he)
  unfold Machine.scratchOf
  rw [h.alike.scratch trivial]
  simp only [withThread, Array.getElem?_setIfInBounds, if_neg hindex]

theorem modifyScratch (h : Beside t fs gs s n m) (hne : t ≠ u) (g : Scratch → Scratch) :
    Beside t fs gs s (n.modifyScratch u g) (m.modifyScratch u g) where
  frames := h.frames
  fits := by
    show m.kernel.threads.size ≤ ((fitScratch (u.index + 1) m.scratch).modify u.index g).size
    rw [Array.size_modify]
    exact Nat.le_trans h.fits (size_le_fitScratch _ _)
  alike := by
    have hlt := h.lt
    have hswap : (m.withThread t gs s).modifyScratch u g =
        (m.modifyScratch u g).withThread t gs s := by
      have hindex : u.index ≠ t.index := fun he => hne (congrArg ThreadId.mk he).symm
      refine congrArg (fun a => ({ m.withThread t gs s with scratch := a } : Machine))
        (Array.ext_getElem? fun i => ?_)
      simp only [withThread, Machine.modifyScratch, fitScratch_setIfInBounds hlt,
        Array.getElem?_modify, Array.getElem?_setIfInBounds, Array.size_modify]
      split <;> split <;> first | rfl | omega
    exact hswap ▸ h.alike.modifyScratch u g

/-- The scratch data of new threads comes behind that of those that are there. -/
theorem absorb (h : Beside t fs gs s n m) (hne : t ≠ u) {w w' : Work}
    (hw : w.Beside t fs gs w') : Beside t fs gs s (n.absorb u w') (m.absorb u w) := by
  obtain ⟨hframes, rfl⟩ := hw
  have hsize : (w.kernel.withFrames t gs).threads.size = w.kernel.threads.size :=
    Array.size_modify
  have hfit : fitScratch (w.kernel.withFrames t gs).threads.size n.scratch =
      (fitScratch w.kernel.threads.size m.scratch).setIfInBounds t.index s := by
    rw [hsize, h.alike.scratch trivial]
    exact fitScratch_setIfInBounds h.lt _ s
  refine modifyScratch (m := _) (n := _) ⟨hframes, size_fitScratch _ _, ?_⟩ hne _
  exact {
    program := h.alike.program
    config := h.alike.config
    kernel := rfl
    hostCall := h.alike.hostCall
    current := h.alike.current
    choice := rfl
    uncaught := h.alike.uncaught
    started := h.alike.started
    pending := rfl
    scratch := fun _ => hfit
    trail := h.alike.trail }

/-- The state is changed in a way that does not concern the frames of the thread. -/
theorem change (h : Beside t fs gs s n m) {g : Kernel → Kernel} (hg : Kernel.Overlooks t g)
    (hsize : ∀ k, (g k).threads.size = k.threads.size) :
    Beside t fs gs s { n with kernel := g n.kernel } { m with kernel := g m.kernel } where
  frames := hg.frames h.frames
  fits := (hsize m.kernel).symm ▸ h.fits
  alike := by
    have hkernel : g n.kernel = (g m.kernel).withFrames t gs := by
      rw [h.alike.kernel]
      exact hg.commutes m.kernel gs
    have ha := h.alike
    exact ⟨ha.1, ha.2, hkernel, ha.4, ha.5, ha.6, ha.7, ha.8, ha.9, ha.10, ha.11⟩

theorem endThread (h : Beside t fs gs s n m) (hne : t ≠ u) :
    Beside t fs gs s (n.endThread u) (m.endThread u) := by
  have hended : Kernel.Overlooks t (·.ended u) :=
    .comp (.wake (.joining u)) (.modifyThread hne Thread.terminate)
  have hc := h.change hended fun k => by
    simp [Kernel.ended, Kernel.wakeJoiners, Kernel.wake, Kernel.modifyThread]
  exact (hc.congr (.of_unread _ _ n.hostEscape) (.of_unread _ _ m.hostEscape)).modifyScratch hne _

/-- What became of another thread is settled in the same way. -/
theorem settle (h : Beside t fs gs s n m) (hne : t ≠ u) (out : Outcome) :
    (n.settle u out).1 = (m.settle u out).1 ∧
      Beside t fs gs s (n.settle u out).2 (m.settle u out).2 := by
  have hescape : ∀ r, (Machine.settle.escape n u r).1 = (Machine.settle.escape m u r).1 ∧
      Beside t fs gs s (Machine.settle.escape n u r).2 (Machine.settle.escape m u r).2 := by
    intro r
    have he := h.endThread hne
    have ha := he.alike
    exact ⟨rfl, he.frames, he.fits,
      ⟨ha.1, ha.2, ha.3, ha.4, ha.5, ha.6, rfl, ha.8, ha.9, ha.10, ha.11⟩⟩
  have hhost : n.hostCall = m.hostCall := h.alike.hostCall
  cases out with
  | running => exact ⟨rfl, h⟩
  | finished => exact ⟨rfl, h.endThread hne⟩
  | escaped r =>
    simp only [Machine.settle, hhost]
    cases hcall : m.hostCall with
    | none => exact hescape r
    | some call =>
      obtain ⟨host, base⟩ := call
      by_cases hu : host = u
      · simp only [hu, if_true]
        have hc := h.change (.modifyThread hne (·.dropTo base)) fun k => by
          simp [Kernel.modifyThread]
        have ha := hc.congr (.of_unread _ n.queue (some r)) (.of_unread _ m.queue (some r))
        exact ⟨trivial, by simpa only [hhost, hcall, hu] using ha⟩
      · simp only [hu, if_false]
        exact hescape r

theorem updateNext (h : Beside t fs gs s n m) (hne : t ≠ u) :
    Beside t fs gs s (n.updateNext u) (m.updateNext u) := by
  unfold Machine.updateNext
  rw [h.getElem?_threads hne]
  exact h.modifyScratch hne _

end Beside

theorem lift_beside {α : Type} (h : Beside t fs gs s n m) (e : Except Fault α) :
    Agree (Beside t fs gs s) (Action.lift e n) (Action.lift e m) := by
  cases e with
  | ok a => exact .ok h
  | error e => exact .error h

theorem thread_beside (h : Beside t fs gs s n m) (hne : t ≠ u) :
    Agree (Beside t fs gs s) (Action.thread u n) (Action.thread u m) := by
  show Agree _ (Action.lift (n.kernel.thread u) n) (Action.lift (m.kernel.thread u) m)
  have hsame : n.kernel.thread u = m.kernel.thread u :=
    (congrArg (Kernel.thread · u) h.alike.kernel).trans (Kernel.thread_withFrames_of_ne hne)
  rw [hsame]
  exact lift_beside h _

theorem actionStep_beside {α : Type} (h : Beside t fs gs s n m) (hne : t ≠ u) {a : Step α}
    (ha : Step.Overlooks t a) :
    Agree (Beside t fs gs s) (Action.step u a n) (Action.step u a m) := by
  have hw : Work.Beside t fs gs { m.work with transient := (m.scratchOf u).transient }
      { n.work with transient := (n.scratchOf u).transient } := by
    have hkernel : n.kernel = m.kernel.withFrames t gs := h.alike.kernel
    have hchoice : n.path.choice = m.path.choice := h.alike.choice
    have hpending : n.pending = m.pending := h.alike.pending
    refine ⟨h.frames, ?_⟩
    simp only [work, h.scratchOf hne, hkernel, hchoice, hpending]
  cases hm : a { m.work with transient := (m.scratchOf u).transient } with
  | ok v w =>
    obtain ⟨w', hn, hw'⟩ := (ha hw).of_ok hm
    rw [Action.step_of_ok hm, Action.step_of_ok hn]
    exact .ok (h.absorb hne hw')
  | error e w =>
    obtain ⟨w', hn, hw'⟩ := (ha hw).of_error hm
    rw [Action.step_of_error hm, Action.step_of_error hn]
    exact .error (h.absorb hne hw')

/-- **A step beside another thread.** A step has the same outcome in two machines that differ in
nothing but the frames and the scratch data of a thread that does not run it, and so do the machines
that it leaves. -/
theorem step_beside (h : Beside t fs gs s n m) (hne : t ≠ u) :
    Agree (Beside t fs gs s) (step u n) (step u m) := by
  unfold step
  refine (thread_beside h hne).bind fun th n₁ m₁ h₁ => ?_
  refine Agree.bind (x := modify _) (y := modify _) (.ok (h₁.modifyScratch hne _))
    fun _ n₂ m₂ h₂ => ?_
  refine (lift_beside h₂ th.top).bind fun f n₃ m₃ h₃ => ?_
  refine (lift_beside h₃ f.instruction).bind fun i n₄ m₄ h₄ => ?_
  refine Agree.bind (x := modify _) (y := modify _) (.ok (h₄.congr
    (Alike.tellExecuting_left n₄ u th f i) (Alike.tellExecuting_left m₄ u th f i)))
    fun _ n₅ m₅ h₅ => ?_
  rw [get_bind, get_bind, show n₅.program = m₅.program from h₅.alike.program]
  refine (actionStep_beside h₅ hne (Step.overlooks_perform hne i)).bind fun out n₆ m₆ h₆ => ?_
  obtain ⟨he, h₇⟩ := h₆.settle hne out
  show Agree _ (.ok (n₆.settle u out).1 _) (.ok (m₆.settle u out).1 _)
  rw [he]
  have h₈ := (h₇.updateNext hne).congr (Alike.deliver_left _) (Alike.deliver_left _)
  exact .ok (h₈.congr (Alike.tellExecuted_left _ u i) (Alike.tellExecuted_left _ u i))

/-! ## Running earlier or later -/

variable {m₁ : Machine} {i : Instruction} {f g : Frame} {rest : List Frame} {index : Nat}

/-- An instruction on one frame concerns nothing but its thread. -/
theorem step_of_isLocal (hframes : m.kernel.HasFrames t (· = f :: rest))
    (hfits : m.kernel.threads.size ≤ m.scratch.size) (hi : f.instruction = .ok i)
    (hop : Local.isLocal i.op = true) (h : Local.execute i f = .ok (.goto index) g) :
    ∃ m₁, step t m = .ok false m₁ ∧ Alike True m₁ (m.withThread t ({ g with pc := index } :: rest)
      { next := some { g with pc := index }.point, firstStep := false }) := by
  have hperform := Step.perform_of_isLocal (p := m.program) (w := m.work) hop hframes h
  obtain ⟨th, hth, hfs⟩ := hframes
  have htop : th.top = .ok f := by
    unfold Thread.top
    rw [hfs]
  have hlt : t.index < m.scratch.size :=
    Nat.lt_of_lt_of_le (Array.getElem?_eq_some_iff.mp hth).1 hfits
  refine ⟨_, step_eq_ok_iff.mpr ⟨th, f, i, .running, _, hth, htop, hi, hperform, rfl, rfl⟩, ?_⟩
  refine ((Alike.tellExecuted_left _ t i).trans (Alike.deliver_left _)).trans ?_
  have hbefore : Alike True (m.told t th f i)
      (m.modifyScratch t fun s => { s with transient := {}, firstStep := false }) :=
    .tellExecuting_left _ t th f i
  refine ((hbefore.absorb t _).updateNext t).trans ?_
  set g' : Frame := { g with pc := index }
  have htop' : (m.kernel.withFrames t (g' :: rest)).threads[t.index]? =
      some { th with frames := g' :: rest } := by
    unfold Kernel.withFrames
    rw [Kernel.getElem?_modifyThread, if_pos rfl, hth]
    rfl
  have hsize : (m.kernel.withFrames t (g' :: rest)).threads.size = m.kernel.threads.size :=
    Array.size_modify
  -- each thread has scratch data, so none is added
  have hfit : ∀ {count : Nat} (a : Array Scratch), a.size = m.scratch.size →
      count ≤ m.scratch.size → fitScratch count a = a :=
    fun a ha hcount => fitScratch_of_le (ha ▸ hcount)
  refine ⟨rfl, rfl, rfl, rfl, rfl, rfl, rfl, rfl, rfl, fun _ => ?_, fun _ => rfl⟩
  simp (disch := simp only [Array.size_modify, hsize, hfits, Nat.succ_le_of_lt hlt]) only
    [updateNext, absorb, withKernel, modifyScratch, withThread, work, hfit, htop']
  refine Array.ext_getElem? fun j => ?_
  simp only [Array.getElem?_modify, Array.getElem?_setIfInBounds]
  by_cases hj : t.index = j
  · subst hj
    simp [hlt]
  · simp [hj]

/-- **Steps on one frame commute.** A thread succeeds in running an instruction that sees nothing
but the frame it runs in: a constant, a load or store of a local, a shuffle of operands, arithmetic,
a conversion, a branch or nothing at all; and it raises no exception. Then a step of another thread,
whatever it does, has the same outcome before and after this one, and both orders lead to the same
state. That is so even if the other step fails, and it does not matter whether the threads can run.
None of these instructions is a scheduling point, but for yielding. Of the machine nothing is asked
but that each of its threads has scratch data. -/
theorem step_commutes {escaped : Bool} (hne : t ≠ u)
    (hfits : m.kernel.threads.size ≤ m.scratch.size) (hf : m.kernel.topFrame t = .ok f)
    (hi : f.instruction = .ok i) (hop : Local.isLocal i.op = true) (hquiet : Local.Quiet i f)
    (h : step t m = .ok escaped m₁) :
    (i.op ≠ .threadYield → Relevance.isRelevant m.program m.kernel t i = false) ∧
      Agree (fun n m' => ∃ n', step t m' = .ok escaped n' ∧ Alike True n n')
        (step u m₁) (step u m) := by
  refine ⟨fun hyield => Relevance.isRelevant_of_isLocal hop hyield _ _ _, ?_⟩
  obtain ⟨th, rest, hth, hfs⟩ := Kernel.topFrame_eq_ok.mp hf
  have hframes : m.kernel.HasFrames t (· = f :: rest) := ⟨th, hth, hfs⟩
  obtain ⟨th', f', i', out, w', hth', htop', hi', hperform, -, -⟩ := step_eq_ok_iff.mp h
  obtain rfl : f = f' := by
    rw [Kernel.topFrame, Kernel.thread_eq_ok.mpr hth'] at hf
    exact Except.ok.inj (hf.symm.trans htop')
  obtain rfl : i = i' := Except.ok.inj (hi.symm.trans hi')
  obtain ⟨index, g, hexecute⟩ := Step.exists_execute_of_perform hop hf hquiet hperform
  obtain ⟨m₂, hm₂, halike⟩ := step_of_isLocal hframes hfits hi hop hexecute
  obtain ⟨rfl, rfl⟩ := EStateM.Result.ok.inj (h.symm.trans hm₂)
  refine (step_beside ⟨hframes, hfits, halike⟩ hne).mono fun n m' hbeside => ?_
  -- the first thread finds its frame as it was
  obtain ⟨n', hn', halike'⟩ := step_of_isLocal hbeside.frames hbeside.fits hi hop hexecute
  exact ⟨n', hn', hbeside.alike.trans halike'.symm⟩

/-- A worker is about to add one to the counter while the main thread is about to start another
worker. In either order the same state comes about, with one thread more. -/
theorem step_commutes_syncCounter : ∃ p m m₁ m₂ n₁ n₂,
    Demo.syncCounter.run (Program.base .plain) = .ok ((), p) ∧
      Driven p { maxTransitionLength := 2 } m ∧
      step ⟨1⟩ m = .ok false m₁ ∧ step .main m₁ = .ok false n₁ ∧
      step .main m = .ok false m₂ ∧ step ⟨1⟩ m₂ = .ok false n₂ ∧
      n₁.snapshot = n₂.snapshot ∧ n₁.pending = n₂.pending ∧
      n₁.kernel.threads.size = m.kernel.threads.size + 1 := by
  obtain ⟨p, m, hbuild, hdriven, htest⟩ := Driven.exists_of_build Demo.syncCounter
    { maxTransitionLength := 2 } [0, 0, 0, 0, 0, 0, 0, 1, 1, 1]
    (fun _ m => decide (m.kernel.threads.size ≤ m.scratch.size) &&
      ((m.kernel.topFrame ⟨1⟩).toOption.any fun f => f.instruction.toOption.any fun i =>
        i.op == .iAdd && gives (Local.execute i) f fun flow _ => flow == .goto (f.pc + 1)) &&
      gives (step ⟨1⟩) m fun escaped m₁ => !escaped && gives (step .main) m₁ fun escaped n =>
        !escaped && n.kernel.threads.size == m.kernel.threads.size + 1)
    (by decide +kernel)
  simp only [Bool.and_eq_true, decide_eq_true_eq, Option.any_eq_true, except_toOption_eq_some,
    gives_iff, beq_iff_eq, Bool.not_eq_true'] at htest
  obtain ⟨⟨hfits, f, hf, i, hi, hop, _, f', hexecute, rfl⟩, _, m₁, hm₁, rfl, _, n₁, hn₁, rfl,
    hsize⟩ := htest
  have hlocal : Local.isLocal i.op = true := by
    rw [hop]
    rfl
  obtain ⟨-, hagree⟩ := step_commutes (u := .main) (by decide) hfits hf hi hlocal
    (Local.quiet_of_goto hexecute) hm₁
  obtain ⟨m₂, hm₂, n₂, hn₂, halike⟩ := hagree.of_ok hn₁
  exact ⟨p, m, m₁, m₂, n₁, n₂, hbuild, hdriven, hm₁, hn₁, hm₂, hn₂, halike.snapshot,
    halike.pending, hsize⟩

end Machine

end Interleave

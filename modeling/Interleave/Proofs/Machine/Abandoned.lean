import Interleave.Proofs.Machine.History
import Interleave.Proofs.Monitors
import Interleave.Proofs.Step.Floors

/-!
# Monitors that threads leave behind

A thread that ends gives back the monitors of the methods that it leaves. When an exception leaves a
firewall, the search for a handler stops there, and the thread ends while it still has frames. These
frames are not left one by one but dropped, and the monitors that their activations need are never
given back.

The count of a monitor is the number of activations that need it plus the number of dropped frames
that needed it. So a monitor has an owner that is not alive exactly if there are such frames.
-/

namespace Interleave

open Relation

namespace Kernel

variable {p : Program} {k k' : Kernel} {t u : ThreadId}

/-- A thread that has ended has no frames; the others have the same as before. -/
theorem frames_ended (k : Kernel) (t u : ThreadId) :
    (k.ended t).frames u = if t = u then [] else k.frames u := by
  unfold frames
  rw [getElem?_ended]
  split
  · cases k.threads[u.index]? with
    | none => rfl
    | some th => rfl
  · rw [Option.map_map]
    refine congrArg (Option.getD · []) (Option.map_congr fun th _ => ?_)
    dsimp only [Function.comp_apply]
    split <;> rfl

/-- A thread that has ended has no frames left. -/
def Tidy (k : Kernel) : Prop :=
  ∀ (u : ThreadId) th, k.threads[u.index]? = some th → th.isAlive = false → th.frames = []

namespace Tidy

theorem start (h : Started p k) : k.Tidy := by
  obtain ⟨⟨th₀, f, hthreads, -, hstatus, -, -⟩, -⟩ := h.inv
  rintro ⟨i⟩ th hth hended
  rw [hthreads] at hth
  cases i with
  | zero =>
    obtain rfl : th₀ = th := by simpa using hth
    simp [Thread.isAlive, Thread.isTerminated, hstatus] at hended
  | succ i => simp at hth

/-- Moves of a thread that can run do not touch those that have ended. -/
theorem moves (h : k.Tidy) (ht : k.Runs t) (hmoves : ReflTransGen (Move p t) k k') : k'.Tidy := by
  have hadv : Advance p t k k' := .of_moves hmoves
  intro u th' hth' hended
  have hnotrunnable : th'.status ≠ .runnable := by
    intro he
    simp [Thread.isAlive, Thread.isTerminated, he] at hended
  obtain ⟨th, hth, he, hthread⟩ := hadv.waited hth' hnotrunnable
  by_cases hu : u = t
  · -- the thread that moves was runnable, and its status is the same
    subst hu
    obtain ⟨th₀, hth₀, hrun⟩ := ht
    rw [hth] at hth₀
    cases hth₀
    exact absurd (he.trans (by simpa [Thread.isRunnable] using hrun)) hnotrunnable
  · rw [hthread.frames hu]
    refine h u th hth ?_
    unfold Thread.isAlive Thread.isTerminated at hended ⊢
    rwa [← he]

theorem turn (h : k.Tidy) (hturn : Turn p k k') : k'.Tidy := by
  cases hturn with
  | ran runs moves => exact h.moves runs moves
  | @stalled t k₁ s runs moves stall =>
    have hmoved := h.moves runs moves
    have halive : s ≠ .terminated := by cases stall <;> simp
    intro u th' hth' hended
    rw [setStatus, getElem?_modifyThread] at hth'
    split at hth'
    · obtain ⟨th, -, rfl⟩ := Option.map_eq_some_iff.mp hth'
      simp [Thread.isAlive, Thread.isTerminated, halive] at hended
    · exact hmoved u th' hth' hended
  | @ended t k₁ runs moves =>
    have hmoved := h.moves runs moves
    intro u th' hth' hended
    rw [getElem?_ended] at hth'
    obtain ⟨th, hth, rfl⟩ := Option.map_eq_some_iff.mp hth'
    split
    · rfl
    · rename_i hu
      rw [if_neg hu] at hended
      split at hended
      · simp [Thread.isAlive, Thread.isTerminated] at hended
      · rename_i hs
        rw [if_neg hs]
        exact hmoved u th hth hended

end Tidy

namespace Orderly

theorem ended (h : k.Orderly) (t : ThreadId) : (k.ended t).Orderly := by
  refine h.of_sublist rfl rfl fun u => ?_
  rw [frames_ended]
  split
  · exact List.nil_sublist _
  · exact .refl _

theorem turn (hp : p.HasNoMonitorCode) (h : k.Orderly) (hturn : Turn p k k') : k'.Orderly := by
  obtain ⟨t, k₁, -, hmoves, hrests⟩ := hturn.moves_then_rests
  refine (h.moves hp hmoves).2.of_sublist hrests.heap (by unfold classObjects; rw [hrests.classes])
    fun u => ?_
  cases hth' : k'.threads[u.index]? with
  | none => simp [frames, hth']
  | some th' =>
    rw [frames_of_getElem? hth']
    rcases hrests.threads u th' hth' with ⟨-, hnil⟩ | ⟨th, hth, he, -⟩
    · rw [hnil]
      exact List.nil_sublist _
    · have hsame : th'.frames = k₁.frames u := he.trans (frames_of_getElem? hth).symm
      exact hsame ▸ .refl _

/-- At the start nothing is held, and nothing is needed. -/
theorem start (h : Started p k) : k.Orderly ∧
    ∀ r u, k.heap.heldBy r u = 0 ∧ k.activations r u = 0 := by
  obtain ⟨⟨th₀, f, hthreads, -, -, hframes, hstub⟩, hfree⟩ := h.inv
  have honly : ∀ u, ∀ g ∈ k.frames u, g.method.IsStub := by
    rintro ⟨i⟩ g hg
    unfold Kernel.frames at hg
    rw [hthreads] at hg
    cases i with
    | zero =>
      have hg' : g ∈ th₀.frames := hg
      rw [hframes, List.mem_singleton] at hg'
      exact hg' ▸ hstub
    | succ i => simp at hg
  have hneeds : ∀ r u, k.activations r u = 0 := fun r u =>
    List.countP_eq_zero.mpr fun g hg => by simp [Frame.needs_of_isStub (honly u g hg)]
  have hheld : ∀ r u, k.heap.heldBy r u = 0 := by
    intro r u
    unfold Heap.heldBy
    cases ho : k.heap.get? r with
    | none => rfl
    | some o =>
      simp only [hfree r o ho]
      rfl
  refine ⟨⟨fun u g hg => (honly u g hg).hasNoMonitorCode, fun r u => ?_⟩, fun r u =>
    ⟨hheld r u, hneeds r u⟩⟩
  rw [hneeds]
  exact Nat.zero_le _

end Orderly

end Kernel

namespace Machine

variable {p : Program} {config : Config} {m : Machine} {x : Performed} {xs : List Performed}
  {k k' : Kernel} {t u : ThreadId}

/-- The frames with which a thread has ended, the top one first. -/
def Performed.abandoned (x : Performed) : List Frame :=
  match x.outcome with
  | .running => []
  | _ => x.work.kernel.frames x.thread

/-- The frames with which a thread has ended in the course of a run. -/
def leftBy (xs : List Performed) (u : ThreadId) : List Frame :=
  xs.flatMap fun x => if x.thread = u then x.abandoned else []

namespace Performed

/-- When it is settled what became of the thread, monitors are as they are, and the frames are gone
with which the thread has ended. -/
theorem activations_after (x : Performed) (r : ObjRef) (u : ThreadId) :
    x.after.activations r u +
        (if x.thread = u then x.abandoned else []).countP (Frame.needs x.work.kernel r) =
      x.work.kernel.activations r u := by
  have hended : (x.work.kernel.ended x.thread).activations r u +
        (if x.thread = u then x.work.kernel.frames x.thread else []).countP
          (Frame.needs x.work.kernel r) = x.work.kernel.activations r u := by
    have hneeds : Frame.needs (x.work.kernel.ended x.thread) r = Frame.needs x.work.kernel r :=
      Frame.needs_congr rfl r
    unfold Kernel.activations
    rw [Kernel.frames_ended, hneeds]
    split
    · subst u
      simp
    · simp
  unfold after abandoned
  cases x.outcome with
  | running => simp [Outcome.settled]
  | finished => exact hended
  | escaped r => exact hended

end Performed

namespace Performed.LeadsTo

/-- What a thread holds beyond its needs grows by the needs of the frames with which it ends. -/
theorem surplus (hp : x.machine.program.HasNoMonitorCode) (hk : x.before.Orderly)
    (h : x.LeadsTo m) : x.after.Orderly ∧ x.after.classObjects = x.before.classObjects ∧ ∀ r u,
      x.after.heap.heldBy r u + x.before.activations r u =
        x.before.heap.heldBy r u + x.after.activations r u +
          (if x.thread = u then x.abandoned else []).countP (Frame.needs x.before r) := by
  obtain ⟨hsurplus, hwork⟩ :=
    Kernel.Orderly.perform hp (w := x.machine.work) hk h.stands h.performed
  refine ⟨?_, x.classObjects_after.trans hsurplus.objects, fun r u => ?_⟩
  · unfold after
    cases x.outcome with
    | running => exact hwork
    | finished => exact hwork.ended x.thread
    | escaped r => exact hwork.ended x.thread
  · have hbefore : x.work.kernel.heap.heldBy r u + x.before.activations r u =
      x.before.heap.heldBy r u + x.work.kernel.activations r u := hsurplus.counts r u
    have hafter := x.activations_after r u
    have hneeds : Frame.needs x.work.kernel r = Frame.needs x.before r :=
      Frame.needs_congr hsurplus.objects r
    rw [hneeds] at hafter
    rw [x.heap_after]
    omega

/-- Frames are left behind only when an exception has left a firewall that stood right on them. -/
theorem escaped_of_abandoned (h : x.LeadsTo m) (hx : x.abandoned ≠ []) :
    (∃ r, x.outcome = .escaped r) ∧ ∃ k above f, ReflTransGen
      (Kernel.Move x.machine.program x.thread) x.before k ∧
      k.frames x.thread = above ++ f :: x.abandoned ∧ f.method.attributes.firewall = true := by
  have hperformed := h.performed
  unfold Performed.abandoned at hx ⊢
  cases hout : x.outcome with
  | running => simp [hout] at hx
  | finished =>
    rw [hout] at hperformed
    simp [hout, Step.frames_of_finished hperformed] at hx
  | escaped r =>
    rw [hout] at hperformed
    simp only [hout] at hx ⊢
    rcases Step.frames_of_escaped h.stands hperformed with hnil | ⟨k, f, above, hk⟩
    · exact absurd hnil hx
    · exact ⟨⟨r, rfl⟩, k, above, f, hk⟩

end Performed.LeadsTo

/-! ## Runs -/

namespace Succession

/-- In the course of a run, what a thread holds beyond its needs grows by the needs of the frames
with which it ends. -/
theorem surplus (hp : p.HasNoMonitorCode) (h : Succession p k xs k') (hk : k.Orderly) :
    k'.classObjects = k.classObjects ∧ ∀ r u,
      k'.heap.heldBy r u + k.activations r u =
        k.heap.heldBy r u + k'.activations r u + (leftBy xs u).countP (Frame.needs k r) := by
  induction h with
  | nil k => exact ⟨rfl, fun r u => by simp [leftBy]⟩
  | @cons x xs m k k' before program runs leads rest ih =>
    subst before
    -- class objects stay, so the needs of a frame are the same in all states
    obtain ⟨hafter, hobjects, hfirst⟩ := leads.surplus (program ▸ hp) hk
    obtain ⟨hobjects', hrest⟩ := ih hafter
    refine ⟨hobjects'.trans hobjects, fun r u => ?_⟩
    have hleft : leftBy (x :: xs) u =
        (if x.thread = u then x.abandoned else []) ++ leftBy xs u := List.flatMap_cons
    have hcounts := hfirst r u
    have hcounts' := hrest r u
    rw [Frame.needs_congr hobjects] at hcounts'
    rw [hleft, List.countP_append]
    omega

/-- Frames are left behind only when an exception has left a firewall that stood right on them. -/
theorem escaped_of_abandoned (h : Succession p k xs k') (hx : x ∈ xs) (hleft : x.abandoned ≠ []) :
    (∃ r, x.outcome = .escaped r) ∧ ∃ k above f, ReflTransGen (Kernel.Move p x.thread) x.before k ∧
      k.frames x.thread = above ++ f :: x.abandoned ∧ f.method.attributes.firewall = true := by
  induction h with
  | nil => cases hx
  | cons _ program _ leads _ ih =>
    rcases List.mem_cons.mp hx with rfl | hx
    · exact program ▸ leads.escaped_of_abandoned hleft
    · exact ih hx

end Succession

/-- Who holds monitors, and for what, after these instructions have been performed. -/
structure HeldFor (p : Program) (xs : List Performed) (k : Kernel) : Prop where
  /-- A thread holds a monitor as often as it has activations that need it, and once more for each
  frame that needed it and with which the thread has ended. -/
  counts : ∀ r u, k.heap.heldBy r u =
    k.activations r u + (leftBy xs u).countP (Frame.needs k r)
  /-- A thread ends with frames only when an exception leaves a firewall that stands right on
  them. -/
  left : ∀ x ∈ xs, x.abandoned ≠ [] → (∃ r, x.outcome = .escaped r) ∧ ∃ k' above f,
    ReflTransGen (Kernel.Move p x.thread) x.before k' ∧
    k'.frames x.thread = above ++ f :: x.abandoned ∧ f.method.attributes.firewall = true
  /-- Other owners are alive. -/
  owners : ∀ r o u, k.heap.get? r = some o → o.monitor.owner? = some u →
    k.Lives u ∨ ∃ f ∈ leftBy xs u, f.needs k r = true

/-- If no method takes or gives back monitors by instructions, they are held for activations, and
for the frames with which threads have ended. -/
theorem Recorded.heldFor (hp : p.HasNoMonitorCode) (h : Recorded p config xs m) :
    HeldFor p xs m.kernel := by
  obtain ⟨k, hstarted, hsuccession⟩ := h.succession
  obtain ⟨horderly, hzero⟩ := Kernel.Orderly.start hstarted
  obtain ⟨hobjects, hcounts⟩ := hsuccession.surplus hp horderly
  have hheld : ∀ r u, m.kernel.heap.heldBy r u =
      m.kernel.activations r u + (leftBy xs u).countP (Frame.needs m.kernel r) := by
    intro r u
    obtain ⟨hfree, hnone⟩ := hzero r u
    have hrun := hcounts r u
    rw [Frame.needs_congr hobjects]
    omega
  refine ⟨hheld, fun x hx hleft => hsuccession.escaped_of_abandoned hx hleft,
    fun r o u ho hown => ?_⟩
  obtain ⟨hsound, htidy⟩ := h.driven.sound_induction (I := Kernel.Tidy) (fun _ => .start)
    fun _ _ _ hk => hk.turn
  have hpos : 0 < m.kernel.heap.heldBy r u := by
    simp only [Heap.heldBy, ho, Monitor.heldBy, hown, if_true]
    exact o.monitor.isSome_owner?_iff.mp (by rw [hown]; rfl)
  rw [hheld] at hpos
  -- an owner that has ended has no activations, so its count stems from dropped frames
  by_cases hactive : 0 < m.kernel.activations r u
  · left
    obtain ⟨f, hf, -⟩ := List.countP_pos_iff.mp hactive
    obtain ⟨th, hth⟩ := hsound.owners r o u ho hown
    rw [Kernel.frames_of_getElem? hth] at hf
    refine ⟨th, hth, ?_⟩
    by_contra hended
    rw [htidy u th hth (by simpa using hended)] at hf
    cases hf
  · right
    exact List.countP_pos_iff.mp (by omega)

end Machine

end Interleave

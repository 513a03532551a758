import Interleave.Proofs.Holdings
import Interleave.Proofs.Machine.Sound

/-!
# Monitors are accounted for

If no method takes or gives back monitors by instructions, all monitors are taken by synchronized
methods. Then a monitor is held exactly as often as its owner has activations of synchronized
methods that need it, and nobody else has any.

The invariant is the equation between the two counts, `Kernel.Accounted`. It is kept by each move of
a thread: the moves that enter and leave a method change both sides alike, and the others neither.
-/

namespace Interleave

open Relation

namespace Kernel

variable {k k' : Kernel} {r : ObjRef} {t u : ThreadId}

/-- No frame stands in front of an instruction on monitors. -/
theorem Sound.op_of_at {p : Program} (hp : p.HasNoMonitorCode) (hs : k.Sound p) {i : Instruction}
    (h : k.At t i) : i.op ≠ .monitorEnter ∧ i.op ≠ .monitorExit := by
  obtain ⟨f, htop, hi⟩ := h
  obtain ⟨th, rest, hth, hframes⟩ := topFrame_eq_ok.mp htop
  have hmem := Frame.mem_code_of_instruction hi
  obtain hdeclared | hstub := hs.methods t th hth f (by rw [hframes]; exact List.mem_cons_self)
  · exact hp f.method hdeclared i hmem
  · exact hstub.hasNoMonitorCode i hmem

/-- Whoever holds a monitor is there. -/
theorem Sound.exists_of_heldBy {p : Program} (h : k.Sound p) (hheld : 0 < k.heap.heldBy r u) :
    ∃ o, k.heap.get? r = some o ∧ o.monitor.owner? = some u ∧
      ∃ th, k.threads[u.index]? = some th := by
  unfold Heap.heldBy at hheld
  cases ho : k.heap.get? r with
  | none => simp [ho] at hheld
  | some o =>
    simp only [ho, Monitor.heldBy] at hheld
    split at hheld
    · rename_i howner
      exact ⟨o, rfl, howner, h.owners r o u ho howner⟩
    · cases hheld

/-! ## The invariant -/

/-- Each live thread holds each monitor as often as it has activations that need it. -/
def Accounted (k : Kernel) : Prop :=
  ∀ (u : ThreadId) th, k.threads[u.index]? = some th → th.isAlive = true →
    ∀ r, th.activations k r = k.heap.heldBy r u

namespace Accounted

/-- A thread that can run holds what it needs. -/
theorem covered (h : k.Accounted) (ht : k.Runs t) (r : ObjRef) :
    k.activations r t ≤ k.heap.heldBy r t := by
  obtain ⟨th, hth, halive⟩ := ht.lives
  rw [activations_of_thread hth]
  exact Nat.le_of_eq (h t th hth halive r)

/-- A move keeps the counts equal: it changes both alike, and a thread that it starts holds
nothing. -/
theorem move {p : Program} (hp : p.HasNoMonitorCode) (hs : k.Sound p) (h : k.Accounted)
    (ht : k.Runs t) (hmove : Move p t k k') : k'.Accounted := by
  have hsurplus : SameSurplus k k' := .move hmove (fun _ => hs.op_of_at hp) (h.covered ht)
  have hadv : Advance p t k k' := .of_move hmove
  intro u th' hth' halive r
  have hcounts := hsurplus.counts r u
  rw [activations_of_thread hth'] at hcounts
  cases hth : k.threads[u.index]? with
  | some th =>
    obtain ⟨th₀, hth₀, hlived⟩ := Lives.of_advance ⟨th', hth', halive⟩ hadv ⟨th, hth⟩
    rw [hth] at hth₀
    cases hth₀
    have hbefore := h u th hth hlived r
    rw [activations_of_thread hth] at hcounts
    omega
  | none =>
    have hframes : k.activations r u = 0 := by simp [activations, frames, hth]
    have hfree : k.heap.heldBy r u = 0 := by
      by_contra hheld
      obtain ⟨-, -, -, th, hth'⟩ := hs.exists_of_heldBy (Nat.pos_of_ne_zero hheld)
      rw [hth] at hth'
      cases hth'
    omega

/-- What becomes of a thread after its moves keeps the counts equal. -/
theorem rests (h : k.Accounted) (hrests : k.Rests k') : k'.Accounted := by
  intro u th' hth' halive r
  rcases hrests.threads u th' hth' with ⟨hended, -⟩ | ⟨th, hth, hframes, hlived⟩
  · rw [halive] at hended
    cases hended
  · have hbefore := h u th hth (hlived halive) r
    have hobjects : k'.classObjects = k.classObjects := by
      unfold classObjects
      rw [hrests.classes]
    unfold Thread.activations at hbefore ⊢
    rw [Frame.needs_congr hobjects, hframes, hrests.heap, hbefore]

/-- A turn of a thread keeps the counts equal. -/
theorem turn {p : Program} (hp : p.HasNoMonitorCode) (hs : k.Sound p) (h : k.Accounted)
    (hturn : Turn p k k') : k'.Accounted := by
  obtain ⟨t, k₁, hruns, hmoves, hrests⟩ := hturn.moves_then_rests
  have hmoved : k₁.Accounted := by
    clear hrests
    induction hmoves with
    | refl => exact h
    | @tail k₁ k₂ hfirst hlast ih =>
      have hadv := Advance.of_moves hfirst
      exact ih.move hp (hs.advance hruns.exists hadv) (hruns.advance hadv) hlast
  exact hmoved.rests hrests

/-- At the start nothing is held, and nothing is needed. -/
theorem start {p : Program} (h : Started p k) : k.Accounted := by
  obtain ⟨⟨th₀, f, hthreads, -, -, hframes, hstub⟩, hfree⟩ := h.inv
  rintro ⟨i⟩ th hth _ r
  have hth₀ : th = th₀ := by
    rw [hthreads] at hth
    cases i with
    | zero => simpa using hth.symm
    | succ i => simp at hth
  have hheld : k.heap.heldBy r ⟨i⟩ = 0 := by
    unfold Heap.heldBy
    cases ho : k.heap.get? r with
    | none => rfl
    | some o =>
      simp only [hfree r o ho]
      rfl
  rw [hheld, hth₀]
  simp [Thread.activations, hframes, Frame.needs_of_isStub hstub]

end Accounted

end Kernel

namespace Machine

variable {p : Program} {config : Config} {m : Machine}

/-- **Monitors are accounted for.** If no method of the program takes or gives back monitors by
instructions, then in every state that a machine reaches, a live thread that owns a monitor holds
it as often as it has activations of synchronized methods that need it, and if it does not own the
monitor, it has no such activation. A monitor has an owner exactly if it is held at least once. So
two live threads never both have an activation that needs the same monitor. -/
theorem Driven.monitors_accounted (hp : p.HasNoMonitorCode) (h : m.Driven p config) :
    (∀ (t : ThreadId) th, m.kernel.threads[t.index]? = some th → th.isAlive = true →
      ∀ r o, m.kernel.heap.get? r = some o →
        (o.monitor.owner? = some t → o.monitor.count = th.activations m.kernel r) ∧
        (o.monitor.owner? ≠ some t →
          ∀ f ∈ th.frames, ¬ (f.method.isSynchronized = true ∧
            m.kernel.lockTarget f.method f.receiver = .ok r))) ∧
    (∀ r o, m.kernel.heap.get? r = some o →
      (o.monitor.owner?.isSome = true ↔ 0 < o.monitor.count)) ∧
    ∀ (t u : ThreadId) th tu, m.kernel.threads[t.index]? = some th → th.isAlive = true →
      m.kernel.threads[u.index]? = some tu → tu.isAlive = true →
      ∀ f ∈ th.frames, ∀ g ∈ tu.frames, ∀ r,
        f.method.isSynchronized = true → m.kernel.lockTarget f.method f.receiver = .ok r →
        g.method.isSynchronized = true → m.kernel.lockTarget g.method g.receiver = .ok r →
        t = u := by
  have hinv : m.kernel.Accounted :=
    (h.sound_induction (fun _ => .start) fun _ _ hsound hk => hk.turn hp hsound).2
  -- a live thread with an activation that needs a monitor owns the monitor
  have howner : ∀ (t : ThreadId) th, m.kernel.threads[t.index]? = some th → th.isAlive = true →
      ∀ f ∈ th.frames, ∀ r, f.method.isSynchronized = true →
        m.kernel.lockTarget f.method f.receiver = .ok r →
        ∃ o, m.kernel.heap.get? r = some o ∧ o.monitor.owner? = some t := by
    intro t th hth halive f hf r hs htarget
    have hpos : 0 < th.activations m.kernel r :=
      List.countP_pos_iff.mpr ⟨f, hf, Frame.needs_iff.mpr ⟨hs, htarget⟩⟩
    rw [hinv t th hth halive r] at hpos
    unfold Heap.heldBy at hpos
    cases ho : m.kernel.heap.get? r with
    | none => simp [ho] at hpos
    | some o =>
      refine ⟨o, rfl, ?_⟩
      by_contra hne
      simp [ho, Monitor.heldBy, hne] at hpos
  refine ⟨fun t th hth halive r o ho => ⟨fun hown => ?_, fun hown f hf hneeds => ?_⟩, ?_, ?_⟩
  · rw [hinv t th hth halive r]
    simp [Heap.heldBy, ho, Monitor.heldBy, hown]
  · obtain ⟨o', ho', hown'⟩ := howner t th hth halive f hf r hneeds.1 hneeds.2
    rw [ho] at ho'
    cases ho'
    exact hown hown'
  · exact fun r o _ => o.monitor.isSome_owner?_iff
  · intro t u th tu hth halive htu halive' f hf g hg r hsf htf hsg htg
    obtain ⟨o, ho, hown⟩ := howner t th hth halive f hf r hsf htf
    obtain ⟨o', ho', hown'⟩ := howner u tu htu halive' g hg r hsg htg
    rw [ho] at ho'
    cases ho'
    rw [hown] at hown'
    exact Option.some.inj hown'

/-- A worker of the counter that increments in a synchronized method has entered the method, and
holds the monitor of the main class once, for that activation. -/
theorem Driven.monitors_accounted_syncCounter : ∃ p m th o,
    Demo.syncCounter.run (Program.base .plain) = .ok ((), p) ∧ p.HasNoMonitorCode ∧
      Driven p {} m ∧ m.kernel.threads[1]? = some th ∧ th.isAlive = true ∧
      m.kernel.heap.get? ⟨17⟩ = some o ∧ o.monitor.owner? = some ⟨1⟩ ∧ o.monitor.count = 1 ∧
      o.monitor.count = th.activations m.kernel ⟨17⟩ := by
  obtain ⟨p, m, hbuild, hdriven, htest⟩ := Driven.exists_of_demo Demo.syncCounter
    [0, 0, 1, 1]
    (fun p m => decide p.HasNoMonitorCode &&
      (m.kernel.threads[1]?.any Thread.isAlive && (m.kernel.heap.get? ⟨17⟩).any fun o =>
        o.monitor.owner? == some ⟨1⟩ && o.monitor.count == 1)) (by decide +kernel)
  simp only [Bool.and_eq_true, decide_eq_true_eq, Option.any_eq_true, beq_iff_eq] at htest
  obtain ⟨hp, ⟨th, hth, halive⟩, o, ho, howner, hcount⟩ := htest
  refine ⟨p, m, th, o, hbuild, hp, hdriven, hth, halive, ho, howner, hcount, ?_⟩
  exact ((hdriven.monitors_accounted hp).1 ⟨1⟩ th hth halive ⟨17⟩ o ho).1 howner

end Machine

end Interleave

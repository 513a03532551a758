import Interleave.Proofs.Machine.Driven
import Interleave.Proofs.Step.Advance

/-!
# Sound states

In every state that a machine reaches, threads bear the number of their place, their frames are of
methods of the program or of stubs, and monitors are owned by threads that are there.
-/

namespace Interleave

open Relation

namespace Kernel

/-- Nothing is out of place in a state of a program. -/
structure Sound (p : Program) (k : Kernel) : Prop where
  /-- A thread is found under its number. -/
  ids : ∀ (u : ThreadId) th, k.threads[u.index]? = some th → th.id = u
  /-- Frames are of methods of the program, or of stubs. -/
  methods : ∀ (u : ThreadId) th, k.threads[u.index]? = some th →
    ∀ f ∈ th.frames, p.Runs f.method
  /-- The owner of a monitor is there. -/
  owners : ∀ r o u, k.heap.get? r = some o → o.monitor.owner? = some u →
    ∃ th, k.threads[u.index]? = some th

variable {p : Program} {k k' : Kernel} {t : ThreadId}

/-- A thread that can run is there. -/
theorem Runs.exists (h : k.Runs t) : ∃ th, k.threads[t.index]? = some th :=
  h.imp fun _ h => h.1

/-- A thread is there and has not ended. -/
def Lives (k : Kernel) (u : ThreadId) : Prop :=
  ∃ th, k.threads[u.index]? = some th ∧ th.isAlive = true

theorem Runs.lives (h : k.Runs t) : k.Lives t := by
  obtain ⟨th, hth, hrun⟩ := h
  have hstatus : th.status = .runnable := by simpa [Thread.isRunnable] using hrun
  exact ⟨th, hth, by simp [Thread.isAlive, Thread.isTerminated, hstatus]⟩

/-- A thread that lives after moves and was there before lived before. -/
theorem Lives.of_advance {u : ThreadId} (h : k'.Lives u) (hadv : Advance p t k k')
    (hu : ∃ th, k.threads[u.index]? = some th) : k.Lives u := by
  obtain ⟨th', hth', halive⟩ := h
  obtain ⟨th, hth⟩ := hu
  obtain ⟨th'', hth'', hthread⟩ := hadv.old u th hth
  rw [hth'] at hth''
  cases hth''
  refine ⟨th, hth, ?_⟩
  rcases hthread.status with he | ⟨hne, -⟩
  · unfold Thread.isAlive Thread.isTerminated at halive ⊢
    rwa [he] at halive
  · simpa [Thread.isAlive, Thread.isTerminated] using hne

/-- A thread that can run before its moves can run after them. -/
theorem Runs.advance (h : k.Runs t) (hadv : Advance p t k k') : k'.Runs t := by
  obtain ⟨th, hth, hrun⟩ := h
  obtain ⟨th', hth', hthread⟩ := hadv.old t th hth
  refine ⟨th', hth', ?_⟩
  rcases hthread.status with he | ⟨-, hr⟩
  · unfold Thread.isRunnable
    rw [he]
    exact hrun
  · unfold Thread.isRunnable
    rw [hr]
    rfl

/-- After its moves a thread may come to wait or end, which wakes others: threads stay in their
methods unless they have ended, and none comes to life. -/
structure Rests (k k' : Kernel) : Prop where
  heap : k'.heap = k.heap
  classes : k'.classes = k.classes
  threads : ∀ (u : ThreadId) th', k'.threads[u.index]? = some th' →
    th'.isAlive = false ∧ th'.frames = [] ∨
      ∃ th, k.threads[u.index]? = some th ∧ th'.frames = th.frames ∧
        (th'.isAlive = true → th.isAlive = true)

/-- A turn of a thread consists of its moves and of what becomes of it then. -/
theorem Turn.moves_then_rests (h : Turn p k k') : ∃ t k₁, k.Runs t ∧
    ReflTransGen (Move p t) k k₁ ∧ k₁.Rests k' := by
  cases h with
  | @ran t k' runs moves =>
    exact ⟨t, k', runs, moves, rfl, rfl, fun u th' hth' => .inr ⟨th', hth', rfl, fun h => h⟩⟩
  | @stalled t k₁ s runs moves _ =>
    refine ⟨t, k₁, runs, moves, rfl, rfl, fun u th' hth' => .inr ?_⟩
    rw [setStatus, getElem?_modifyThread] at hth'
    split at hth'
    · rename_i htu
      subst htu
      obtain ⟨th, hth, hrun⟩ := runs.advance (.of_moves moves)
      rw [hth] at hth'
      cases hth'
      refine ⟨th, hth, rfl, fun _ => ?_⟩
      have hrunnable : th.status = .runnable := by simpa [Thread.isRunnable] using hrun
      simp [Thread.isAlive, Thread.isTerminated, hrunnable]
    · exact ⟨th', hth', rfl, fun h => h⟩
  | @ended t k₁ runs moves =>
    refine ⟨t, k₁, runs, moves, rfl, rfl, fun u th' hth' => ?_⟩
    rw [getElem?_ended] at hth'
    obtain ⟨th, hth, rfl⟩ := Option.map_eq_some_iff.mp hth'
    by_cases htu : t = u
    · rw [if_pos htu]
      exact .inl ⟨rfl, rfl⟩
    · rw [if_neg htu]
      refine .inr ⟨th, hth, by split <;> rfl, fun halive => ?_⟩
      split at halive
      · rename_i hs
        simp [Thread.isAlive, Thread.isTerminated, hs]
      · exact halive

namespace Sound

/-- Moves keep a state sound. -/
theorem advance (hs : Sound p k) (ht : ∃ th, k.threads[t.index]? = some th)
    (h : Advance p t k k') : Sound p k' where
  ids u th' hth' := by
    cases hth : k.threads[u.index]? with
    | none => exact (h.new u th' hth' hth).1
    | some th =>
      obtain ⟨th'', hth'', hadv⟩ := h.old u th hth
      rw [hth'] at hth''
      cases hth''
      exact hadv.id.trans (hs.ids u th hth)
  methods u th' hth' f hf := by
    cases hth : k.threads[u.index]? with
    | none => exact ((h.new u th' hth' hth).2.2 f hf).elim (fun hf => hf.runs) fun hf => hf.runs
    | some th =>
      obtain ⟨th'', hth'', hadv⟩ := h.old u th hth
      rw [hth'] at hth''
      cases hth''
      rcases hadv.methods f hf with henters | ⟨f₀, hf₀, he⟩
      · exact henters.runs
      · rw [he]
        exact hs.methods u th hth f₀ hf₀
  owners r o' u ho' howner := by
    have hstays : ∀ u : ThreadId, (∃ th, k.threads[u.index]? = some th) →
        ∃ th, k'.threads[u.index]? = some th := by
      rintro u ⟨th, hth⟩
      obtain ⟨th', hth', -⟩ := h.old u th hth
      exact ⟨th', hth'⟩
    rcases h.monitors r o' ho' with ⟨o, ho, he⟩ | hmine | ⟨hfree, -⟩
    · exact hstays u (hs.owners r o u ho (he ▸ howner))
    · rw [hmine] at howner
      cases howner
      exact hstays t ht
    · rw [hfree] at howner
      cases howner

/-- A change of a thread's status and frames keeps a state sound, if it adds no frames. -/
theorem modifyThread (hs : Sound p k) {g : Thread → Thread} (hid : ∀ th, (g th).id = th.id)
    (hframes : ∀ th, ∀ f ∈ (g th).frames, f ∈ th.frames) : Sound p (k.modifyThread t g) where
  ids u th' hth' := by
    rw [getElem?_modifyThread] at hth'
    split at hth'
    · obtain ⟨th, hth, rfl⟩ := Option.map_eq_some_iff.mp hth'
      exact (hid th).trans (hs.ids u th hth)
    · exact hs.ids u th' hth'
  methods u th' hth' f hf := by
    rw [getElem?_modifyThread] at hth'
    split at hth'
    · obtain ⟨th, hth, rfl⟩ := Option.map_eq_some_iff.mp hth'
      exact hs.methods u th hth f (hframes th f hf)
    · exact hs.methods u th' hth' f hf
  owners r o u ho howner := by
    obtain ⟨th, hth⟩ := hs.owners r o u ho howner
    rw [getElem?_modifyThread]
    split
    · exact ⟨g th, by rw [hth]; rfl⟩
    · exact ⟨th, hth⟩

/-- A turn of a thread keeps a state sound. -/
theorem turn (hs : Sound p k) (h : Turn p k k') : Sound p k' := by
  cases h with
  | ran runs moves => exact hs.advance runs.exists (.of_moves moves)
  | stalled runs moves _ =>
    exact (hs.advance runs.exists (.of_moves moves)).modifyThread (fun _ => rfl) fun _ _ hf => hf
  | @ended t k' runs moves =>
    have hended : Sound p (k'.modifyThread t Thread.terminate) :=
      (hs.advance runs.exists (.of_moves moves)).modifyThread (fun _ => rfl) fun _ _ hf => nomatch hf
    have ht : ∃ th, (k'.modifyThread t Thread.terminate).threads[t.index]? = some th := by
      obtain ⟨th, hth⟩ := (runs.advance (.of_moves moves)).exists
      exact ⟨th.terminate, by rw [getElem?_modifyThread, if_pos rfl, hth]; rfl⟩
    exact hended.advance ht (.wake (by exact nofun))

end Sound

/-! ## The first state -/

/-- Class objects are only added to a heap. -/
theorem extends_allocClassObjects (c : ClassId) (cs : List Class) (h : Heap)
    (states : Array ClassState) : h.Extends (allocClassObjects c cs (h, states)).1 := by
  induction cs generalizing h states with
  | nil => exact .refl h
  | cons k ks ih => exact (Heap.Extends.push h rfl).trans (ih _ _)

/-- Nobody owns a monitor in the first state. -/
theorem extends_initial (p : Program) : ({} : Heap).Extends (initial p).heap :=
  extends_allocClassObjects _ _ _ _

/-- The first state has one thread, which has one frame, and nobody owns a monitor. -/
theorem Started.inv (h : Started p k) :
    (∃ th f, k.threads = #[th] ∧ th.id = ⟨0⟩ ∧ th.status = .runnable ∧ th.frames = [f] ∧
      f.method.IsStub) ∧ ∀ r o, k.heap.get? r = some o → o.monitor = .free := by
  cases h with
  | main _ _ made stub receiver extension =>
    refine ⟨⟨_, _, rfl, rfl, rfl, rfl, ?_⟩, fun r o ho => ?_⟩
    · rw [stub]
      exact Method.isStub_of_directCallStub made
    · exact ((extends_initial p).trans extension).fresh r o (by simp [Heap.get?]) ho

theorem Sound.start (h : Started p k) : Sound p k := by
  obtain ⟨⟨th, f, hthreads, hid, -, hframes, hstub⟩, hfree⟩ := h.inv
  have honly : ∀ (u : ThreadId) th', k.threads[u.index]? = some th' → u = ⟨0⟩ ∧ th' = th := by
    rintro ⟨i⟩ th' hth'
    rw [hthreads] at hth'
    cases i with
    | zero => exact ⟨rfl, by simpa using hth'.symm⟩
    | succ i => simp at hth'
  exact {
    ids := fun u th' hth' => by
      obtain ⟨rfl, rfl⟩ := honly u th' hth'
      exact hid
    methods := fun u th' hth' g hg => by
      obtain ⟨rfl, rfl⟩ := honly u th' hth'
      rw [hframes, List.mem_singleton] at hg
      exact .inr (hg ▸ hstub)
    owners := fun r o u ho howner => by
      rw [hfree r o ho] at howner
      cases howner }

end Kernel

/-- Every state that a machine reaches is sound. What holds of the state after the start besides,
and is kept when a thread takes a turn in a sound state, holds of it too. -/
theorem Machine.Driven.sound_induction {p : Program} {config : Config} {m : Machine}
    {I : Kernel → Prop} (hstart : ∀ k, Kernel.Started p k → I k)
    (hturn : ∀ k k', k.Sound p → I k → Kernel.Turn p k k' → I k') (h : m.Driven p config) :
    m.kernel.Sound p ∧ I m.kernel :=
  h.kernel_induction (I := fun k => k.Sound p ∧ I k) (fun k hk => ⟨.start hk, hstart k hk⟩)
    fun k k' hk h => ⟨hk.1.turn h, hturn k k' hk.1 hk.2 h⟩

end Interleave

import Interleave.Proofs.Machine.Abandoned
import Interleave.Proofs.Machine.Stops
import Interleave.Proofs.Step.Footing
import Interleave.Proofs.Step.Places

/-!
# The table of threads

The number of a thread is its place in the table. Each thread stands for an object of its own, and
has a frame exactly as long as it has not ended. The current thread is there, and so are the threads
among which generators choose.

A thread that loses its last frame ends with the same instruction. So whatever looks at the frame on
top of a thread that can run finds one: transitions do not fail for want of a thread or a frame.
-/

namespace Interleave

open Effect Relation

namespace Kernel

variable {p : Program} {k k' : Kernel} {t u : ThreadId}

/-! ## Objects of threads -/

/-- Each thread stands for an object of its own. -/
structure Embodied (k : Kernel) : Prop where
  objects : ∀ (u : ThreadId) th, k.threads[u.index]? = some th →
    ∃ o, k.heap.get? th.object = some o
  distinct : ∀ (u v : ThreadId) th th', k.threads[u.index]? = some th →
    k.threads[v.index]? = some th' → th.object = th'.object → u = v

namespace Embodied

theorem of_threads (h : k.Embodied)
    (hobjects : ∀ r o, k.heap.get? r = some o → ∃ o', k'.heap.get? r = some o')
    (hthreads : ∀ (u : ThreadId) th', k'.threads[u.index]? = some th' →
      ∃ th, k.threads[u.index]? = some th ∧ th'.object = th.object) : k'.Embodied where
  objects u th' hth' := by
    obtain ⟨th, hth, he⟩ := hthreads u th' hth'
    obtain ⟨o, ho⟩ := h.objects u th hth
    exact he ▸ hobjects _ o ho
  distinct u v th₁ th₂ hth₁ hth₂ he := by
    obtain ⟨th₁', hth₁', he₁⟩ := hthreads u th₁ hth₁
    obtain ⟨th₂', hth₂', he₂⟩ := hthreads v th₂ hth₂
    exact h.distinct u v th₁' th₂' hth₁' hth₂' (he₁.symm.trans (he.trans he₂))

/-- A move starts a thread only for an object that no thread stands for. -/
theorem move (h : k.Embodied) (hmove : Move p t k k') : k'.Embodied where
  objects u th' hth' := by
    cases hth : k.threads[u.index]? with
    | none =>
      obtain ⟨-, -, f, -, o, -, ho, -⟩ := hmove.brings hth hth'
      exact ⟨o, ho⟩
    | some th =>
      obtain ⟨th'', hth'', hthread⟩ := (Advance.of_move hmove).old u th hth
      obtain rfl : th' = th'' := Option.some.inj (hth'.symm.trans hth'')
      obtain ⟨o, ho⟩ := h.objects u th hth
      obtain ⟨o', ho', -⟩ := (Advance.of_move hmove).objects _ o ho
      exact ⟨o', hthread.object ▸ ho'⟩
  distinct u v th₁ th₂ hth₁ hth₂ he := by
    have hold : ∀ {u : ThreadId} {th th'}, k.threads[u.index]? = some th →
        k'.threads[u.index]? = some th' → th'.object = th.object := by
      intro u th th' hth hth'
      obtain ⟨th'', hth'', hthread⟩ := (Advance.of_move hmove).old u th hth
      obtain rfl : th' = th'' := Option.some.inj (hth'.symm.trans hth'')
      exact hthread.object
    -- a thread that is brought up does not share its object with one that was there
    have hnew : ∀ {u v : ThreadId} {th₁ th₂ th}, k.threads[u.index]? = none →
        k'.threads[u.index]? = some th₁ → k.threads[v.index]? = some th →
        k'.threads[v.index]? = some th₂ → th₁.object ≠ th₂.object := by
      intro u v th₁ th₂ th hnone hth₁ hth hth₂ he
      obtain ⟨-, hfree, -⟩ := hmove.brings hnone hth₁
      rw [he, hold hth hth₂, threadOf?, Option.map_eq_none_iff, Array.find?_eq_none] at hfree
      exact hfree th (Array.mem_of_getElem? hth) (beq_self_eq_true _)
    cases hu : k.threads[u.index]? with
    | none =>
      cases hv : k.threads[v.index]? with
      | none =>
        obtain ⟨hlast, -⟩ := hmove.brings hu hth₁
        obtain ⟨hlast', -⟩ := hmove.brings hv hth₂
        obtain ⟨i⟩ := u
        exact congrArg ThreadId.mk (hlast.trans hlast'.symm)
      | some th => exact absurd he (hnew hu hth₁ hv hth₂)
    | some th =>
      cases hv : k.threads[v.index]? with
      | none => exact absurd he.symm (hnew hv hth₂ hu hth₁)
      | some th' =>
        rw [hold hu hth₁, hold hv hth₂] at he
        exact h.distinct u v th th' hu hv he

theorem moves (h : k.Embodied) (hmoves : ReflTransGen (Move p t) k k') : k'.Embodied := by
  induction hmoves with
  | refl => exact h
  | tail _ hlast ih => exact ih.move hlast

theorem modifyThread (h : k.Embodied) {g : Thread → Thread}
    (hg : ∀ th, (g th).object = th.object) : (k.modifyThread t g).Embodied := by
  refine h.of_threads (fun _ o ho => ⟨o, ho⟩) fun u th' hth' => ?_
  rw [getElem?_modifyThread] at hth'
  split at hth'
  · obtain ⟨th, hth, rfl⟩ := Option.map_eq_some_iff.mp hth'
    exact ⟨th, hth, hg th⟩
  · exact ⟨th', hth', rfl⟩

/-- A turn of a thread leaves the objects of threads alone. -/
theorem turn (h : k.Embodied) (hturn : Turn p k k') : k'.Embodied := by
  cases hturn with
  | ran _ moves => exact h.moves moves
  | stalled _ moves _ => exact (h.moves moves).modifyThread fun _ => rfl
  | @ended t k₁ _ moves =>
    refine (h.moves moves).of_threads (fun _ o ho => ⟨o, ho⟩) fun u th' hth' => ?_
    rw [getElem?_ended] at hth'
    obtain ⟨th, hth, rfl⟩ := Option.map_eq_some_iff.mp hth'
    refine ⟨th, hth, ?_⟩
    split
    · rfl
    · split <;> rfl

end Embodied

/-! ## Frames of threads -/

/-- A thread has a frame unless it has ended. -/
def Lodged (k : Kernel) (u : ThreadId) : Prop :=
  ∀ th, k.threads[u.index]? = some th → th.isAlive = true → th.frames ≠ []

namespace Lodged

/-- A thread does not end by moves of another one, and a new thread has a frame. -/
theorem move (h : k.Lodged u) (hu : u ≠ t) (hmove : Move p t k k') : k'.Lodged u := by
  intro th' hth' halive
  cases hth : k.threads[u.index]? with
  | none =>
    obtain ⟨-, -, f, hframes, -⟩ := hmove.brings hth hth'
    rw [hframes]
    exact List.cons_ne_nil f []
  | some th =>
    have hadv := Advance.of_move hmove
    obtain ⟨th'', hth'', hthread⟩ := hadv.old u th hth
    obtain rfl : th' = th'' := Option.some.inj (hth'.symm.trans hth'')
    obtain ⟨th₀, hth₀, halive₀⟩ := Lives.of_advance ⟨th', hth', halive⟩ hadv ⟨th, hth⟩
    obtain rfl : th = th₀ := Option.some.inj (hth.symm.trans hth₀)
    rw [hthread.frames hu]
    exact h th hth halive₀

theorem moves (h : k.Lodged u) (hu : u ≠ t) (hmoves : ReflTransGen (Move p t) k k') :
    k'.Lodged u := by
  induction hmoves with
  | refl => exact h
  | tail _ hlast ih => exact ih.move hu hlast

theorem ended (h : t ≠ u → k.Lodged u) : (k.ended t).Lodged u := by
  intro th' hth' halive
  rw [getElem?_ended] at hth'
  obtain ⟨th, hth, rfl⟩ := Option.map_eq_some_iff.mp hth'
  by_cases htu : t = u
  · simp [if_pos htu, Thread.terminate, Thread.isAlive, Thread.isTerminated] at halive
  · rw [if_neg htu] at halive ⊢
    by_cases hs : th.status = .joining t
    · rw [if_pos hs]
      exact h htu th hth (by simp [Thread.isAlive, Thread.isTerminated, hs])
    · rw [if_neg hs] at halive ⊢
      exact h htu th hth halive

end Lodged

theorem Sound.ready (hs : k.Sound p) (h : k.Lodged t) (hruns : k.Runs t) : k.Ready t where
  frames := by
    obtain ⟨th, hth, halive⟩ := hruns.lives
    rw [frames_of_getElem? hth]
    exact h th hth halive
  ids := hs.ids

/-- The threads among which a generator chooses are there. -/
def Serves (k : Kernel) (g : Generator) : Prop :=
  ∀ ids, g.domain = .threads ids → ∀ t ∈ ids, ∃ th, k.threads[t.index]? = some th

/-- A generator for the result of a call does not choose among threads. -/
theorem Requests.serves {g : Generator} (h : k.Requests p t g) : k.Serves g := by
  intro ids hids
  have hdata := h.isThreadChoice
  simp [Generator.isThreadChoice, hids, Domain.kind] at hdata

theorem Serves.exists_thread {g : Generator} (h : k.Serves g) (hc : g.current = some (.thread t)) :
    ∃ th, k.threads[t.index]? = some th := by
  obtain ⟨i, -, hi⟩ := Option.bind_eq_some_iff.mp hc
  obtain ⟨ids, hids, ht⟩ := Domain.mem_of_get? hi
  exact h ids hids t ht

/-- The table of threads is in order. -/
structure Staffed (k : Kernel) : Prop where
  /-- The number of a thread is its place. -/
  ids : ∀ (i : Nat) th, k.threads[i]? = some th → th.id = ⟨i⟩
  /-- A thread stands for an object that is there. -/
  objects : ∀ (i : Nat) th, k.threads[i]? = some th →
    th.object.isNull = false ∧ ∃ o, k.heap.get? th.object = some o
  /-- No other thread stands for the same object, whether or not it has ended. -/
  distinct : ∀ (i j : Nat) th th', k.threads[i]? = some th → k.threads[j]? = some th' →
    th.object = th'.object → i = j
  /-- A thread has frames exactly as long as it has not ended. -/
  frames : ∀ (i : Nat) th, k.threads[i]? = some th → (th.frames ≠ [] ↔ th.isAlive = true)

end Kernel

namespace Machine

variable {p : Program} {config : Config} {m m' n : Machine} {g : Generator} {e : TransitionEnd}
  {x : Performed} {t : ThreadId}

/-- When a thread has run an instruction, each thread has a frame that has not ended. -/
theorem Performed.LeadsTo.lodged (h : x.LeadsTo m') (hs : x.before.Sound p)
    (hruns : x.before.Runs x.thread) (hlodged : ∀ u, x.before.Lodged u) (u : ThreadId) :
    x.after.Lodged u := by
  -- the others are as they were, however the thread fared
  have hothers : ∀ u, x.thread ≠ u → x.work.kernel.Lodged u := by
    intro u hu
    obtain ⟨k, hmoves, hk | ⟨s, hk⟩⟩ := Step.perform_moves h.stands h.performed
    · exact hk ▸ (hlodged u).moves (Ne.symm hu) hmoves
    · intro th hth
      rw [hk, Kernel.setStatus, Kernel.getElem?_modifyThread, if_neg hu] at hth
      exact (hlodged u).moves (Ne.symm hu) hmoves th hth
  unfold after
  cases hout : x.outcome with
  | running =>
    by_cases hu : x.thread = u
    · subst hu
      have hready : x.before.Ready x.thread := hs.ready (hlodged _) hruns
      obtain ⟨th, hth, hframes⟩ := (Step.brings_perform _).1 hready h.performed
      intro th' hth' _
      obtain rfl : th = th' := Option.some.inj (hth.symm.trans hth')
      exact hframes hout
    · exact hothers u hu
  | finished => exact .ended (hothers u)
  | escaped r => exact .ended (hothers u)

/-- A machine can go on without missing a thread or a frame. -/
structure IsManned (m : Machine) : Prop where
  hostCall : m.hostCall = none
  sound : m.kernel.Sound m.program
  lodged : ∀ u, m.kernel.Lodged u
  current : ∃ th, m.kernel.threads[m.current.index]? = some th

theorem Offers.serves (hs : n.kernel.Sound p) (h : n.Offers m') :
    ∀ g, m'.pending = some g → m'.kernel.Serves g := by
  rintro g hg ids hids t ht
  obtain ⟨id, hsame⟩ := h
  rw [hsame.pending] at hg
  cases hg
  cases hids
  rw [hsame.kernel]
  exact (hs.mem_runnable.mp ht).exists

namespace IsManned

theorem of_same (h : m.IsManned) (hsame : SameState { m with pending := m'.pending } m') :
    m'.IsManned where
  hostCall := hsame.hostCall.trans h.hostCall
  sound := by
    rw [hsame.kernel, hsame.program]
    exact h.sound
  lodged := hsame.kernel ▸ h.lodged
  current := by
    unfold Machine.current
    rw [hsame.kernel, hsame.path]
    exact h.current

theorem offers (h : m.IsManned) (hoffers : m.Offers m') : m'.IsManned := by
  obtain ⟨id, hsame⟩ := hoffers
  exact h.of_same (hsame.pending ▸ hsame)

theorem stepped (h : m.IsManned) {steps : Nat} (hstarts : x.Starts m steps)
    (hleads : x.LeadsTo m') : m'.IsManned := by
  obtain ⟨rfl, hthread, hruns, -⟩ := hstarts
  have hbefore : x.before.Runs x.thread := hthread ▸ hruns
  refine ⟨hleads.hostCall, ?_, fun u => ?_, ?_⟩
  · rw [hleads.program]
    exact h.sound.turn (hleads.turn hbefore)
  · rw [hleads.kernel]
    exact hleads.lodged h.sound hbefore h.lodged u
  · rw [hleads.current_eq]
    exact (hleads.turn hbefore).stays h.current

/-- A round does not come to miss a thread or a frame. -/
theorem played (h : m.IsManned) {steps : Nat} {x : Option Performed} {r : Nat ⊕ TransitionEnd}
    (hplayed : Played m steps x r m') : m'.IsManned := by
  cases hplayed with
  | finished => exact h
  | @switched t _ _ only same =>
    refine ⟨same.hostCall.trans h.hostCall, ?_, same.kernel ▸ h.lodged, ?_⟩
    · rw [same.kernel, same.program]
      exact h.sound
    · have hmem : t ∈ m.kernel.runnable := only ▸ List.mem_singleton_self t
      unfold Machine.current
      rw [same.kernel, same.path]
      exact (h.sound.mem_runnable.mp hmem).exists
  | blocked _ _ offers => exact h.offers offers
  | broken _ _ _ offers => exact h.offers offers
  | stepped starts leads => exact h.stepped starts leads
  | asked starts leads => exact h.stepped starts leads
  | escaped starts leads _ opened =>
    have hm := h.stepped starts leads
    rcases opened with ⟨-, rfl⟩ | ⟨-, offers⟩
    · exact hm
    · exact hm.offers offers

theorem withChoice (h : m.IsManned) {c : Choice}
    (hth : ∃ th, m.kernel.threads[(m.withChoice g c).current.index]? = some th) :
    (m.begin g c).IsManned :=
  ⟨h.hostCall, h.sound, h.lodged, hth⟩

/-- A transition does not come to miss a thread or a frame, and the threads are there among which
the next one may choose. -/
theorem transition (h : m.IsManned) (htransition : transition g m = .ok e m') :
    m'.IsManned ∧ ∀ g, m'.pending = some g → m'.kernel.Serves g := by
  obtain ⟨xs, -, c, hc, hplays⟩ := exists_transits h.hostCall htransition
  obtain ⟨-, c', th, hc', hth, -⟩ := transition_eq_ok.mp htransition
  obtain rfl : c = c' := Option.some.inj (hc.symm.trans hc')
  refine hplays.induction (I := fun n => n.IsManned ∧ n.pending = none)
    (Q := fun _ n => n.IsManned ∧ ∀ g, n.pending = some g → n.kernel.Serves g) h.hostCall
    ?_ ?_ ⟨h.withChoice ⟨th, Kernel.thread_eq_ok.mp hth⟩, rfl⟩
  · rintro n n' steps x steps' ⟨hn, hnone⟩ - hplayed
    refine ⟨hn.played hplayed, ?_⟩
    cases hplayed with
    | switched _ _ same _ => exact same.pending.trans hnone
    | stepped _ _ _ settled _ => exact settled
  · rintro n n' steps x e ⟨hn, hnone⟩ - hplayed
    refine ⟨hn.played hplayed, ?_⟩
    have hrequests : ∀ {t b n₁}, n.Stepped t b n₁ → ∀ g, n₁.pending = some g → n₁.kernel.Serves g :=
      fun hstepped g hg => (hstepped.requests hnone hg).2.2.serves
    cases hplayed.rounded with
    | finished => exact fun g hg => nomatch hnone.symm.trans hg
    | blocked _ offers => exact offers.serves hn.sound
    | broken _ offers => exact offers.serves hn.sound
    | asked _ hstepped => exact hrequests hstepped
    | escaped runs hstepped opened =>
      rcases opened with rfl | offers
      · exact hrequests hstepped
      · exact offers.serves (hn.sound.turn (hstepped.turn runs))

theorem isMishap_of_stuck (h : m.IsManned) {e : Fault} (hruns : m.kernel.Runs t)
    (hstuck : m.Stuck t e) : e.isMishap = true := by
  have hready : m.kernel.Ready t := h.sound.ready (h.lodged t) hruns
  cases hstuck with
  | frame hframe =>
    obtain ⟨f, hf⟩ := hready.exists_topFrame
    exact nomatch hf.symm.trans hframe
  | instruction _ hf => exact Frame.sought_instruction _ e hf
  | performed _ hperform => exact (Step.brings_perform _).2 hready hperform

/-- A transition that fails has used up its bound, or it fails for another reason than that a thread
or a frame is not there. -/
theorem isMishap_of_fails (h : m.IsManned) {e : Fault} (hserves : m.kernel.Serves g)
    (hfails : Machine.transition g m = .error e m') : e.isMishap = true ∨ e = .budgetExhausted := by
  rw [transition_eq] at hfails
  split at hfails
  · cases hfails
    exact .inl rfl
  · cases hc : g.current with
    | none =>
      rw [hc] at hfails
      cases hfails
      exact .inl rfl
    | some c =>
      have hcurrent : ∃ th, m.kernel.threads[(m.withChoice g c).current.index]? = some th := by
        cases c with
        | thread t => exact hserves.exists_thread hc
        | _ => exact h.current
      obtain ⟨th, hth⟩ := hcurrent
      simp only [hc, Kernel.thread_eq_ok.mpr hth] at hfails
      refine Loop.run_faults (I := fun _ n => n.IsManned)
        (Q := fun e _ => e.isMishap = true ∨ e = .budgetExhausted) ?_ ?_ (fun _ _ _ => .inr rfl)
        (h.withChoice ⟨th, hth⟩) hfails
      · rintro steps n steps' n' hn hround
        obtain ⟨x, hplayed⟩ := round_played hn.hostCall hround
        exact hn.played hplayed
      · rintro steps n e n' hn hround
        rcases round_eq_error hround with hthread | ⟨hruns, hstuck⟩
        · obtain ⟨th, hth⟩ := hn.current
          exact nomatch (Kernel.thread_eq_ok.mpr hth).symm.trans hthread
        · exact .inl (hn.isMishap_of_stuck hruns hstuck)

end IsManned

/-! ## Machines that are driven -/

namespace Driven

theorem isManned (h : Driven p config m) :
    m.IsManned ∧ ∀ g, m.pending = some g → m.kernel.Serves g := by
  induction h with
  | @start _ _ m h =>
    obtain ⟨⟨hprogram, -⟩, hstarted, hready, hpath, hpending⟩ := start_eq_ok h
    obtain ⟨⟨th, f, hthreads, -, -, hframes, -⟩, -⟩ := hstarted.inv
    have hmain : ∃ th, m.kernel.threads[ThreadId.main.index]? = some th :=
      ⟨th, by rw [hthreads]; rfl⟩
    refine ⟨⟨hready.hostCall, hprogram ▸ .start hstarted, ?_, ?_⟩, ?_⟩
    · rintro ⟨i⟩ th' hth' -
      rw [hthreads] at hth'
      cases i with
      | zero =>
        obtain rfl : th = th' := by simpa using hth'
        rw [hframes]
        exact List.cons_ne_nil f []
      | succ i => simp at hth'
    · unfold current
      rw [hpath]
      exact hmain
    · rintro g hg ids hids t ht
      rw [hpending] at hg
      cases hg
      cases hids
      rw [List.mem_singleton.mp ht]
      exact hmain
  | transition _ h ih => exact ih.1.transition h

theorem embodied (h : Driven p config m) : m.kernel.Embodied := by
  induction h with
  | @start _ _ m h =>
    obtain ⟨-, -, -, f, r, heap, -, -, -, -, -, -, -, ⟨o, ho⟩, hsame⟩ := start_spawns h
    have hthreads : m.kernel.threads = #[{ id := .main, object := r, frames := [f] }] := by
      rw [hsame.kernel]
      rfl
    have honly : ∀ (u : ThreadId) th, m.kernel.threads[u.index]? = some th →
        u = .main ∧ th.object = r := by
      rintro ⟨i⟩ th hth
      rw [hthreads] at hth
      cases i with
      | zero =>
        cases hth
        exact ⟨rfl, rfl⟩
      | succ i => simp at hth
    refine ⟨fun u th hth => ⟨o, ?_⟩, fun u v th th' hth hth' _ => ?_⟩
    · rw [(honly u th hth).2, hsame.kernel]
      exact ho
    · exact (honly u th hth).1.trans (honly v th' hth').1.symm
  | transition driven h ih =>
    exact kernel_of_transition driven.isReady.hostCall h (fun _ _ hk => hk.turn) ih

end Driven

/-- **The table of threads is in order.** In every state that a machine reaches, the number of a
thread is its place in the table, each thread stands for an object of its own, and it has frames
exactly as long as it has not ended; the current thread is there. So no transition fails for want of
a thread or a frame, if it takes a choice of a generator that was handed out, then or at an earlier
time, wherever the cursor of the generator stands. -/
theorem staffed_of_driven (h : Driven p config m) :
    m.kernel.Staffed ∧ (∃ th, m.kernel.threads[m.current.index]? = some th) ∧
      ∀ n g cursor e m', Driven p config n → n.pending = some g → n.Leads m →
        transition { g with cursor } m = .error e m' →
        (∀ t, e ≠ .noActiveFrame t) ∧ ∀ t, e ≠ .noSuchThread t := by
  obtain ⟨hmanned, -⟩ := h.isManned
  have hembodied := h.embodied
  obtain ⟨hsound, htidy⟩ := h.sound_induction (I := Kernel.Tidy) (fun _ => .start)
    fun _ _ _ hk => hk.turn
  refine ⟨⟨fun i th hth => hsound.ids ⟨i⟩ th hth, fun i th hth => ?_,
    fun i j th th' hth hth' he => ?_, fun i th hth => ⟨fun hframes => ?_, fun halive => ?_⟩⟩,
    hmanned.current, fun n g cursor e m' hn hg hleads hfails => ?_⟩
  · obtain ⟨o, ho⟩ := hembodied.objects ⟨i⟩ th hth
    exact ⟨Heap.isNull_of_get? ho, o, ho⟩
  · exact congrArg ThreadId.index (hembodied.distinct ⟨i⟩ ⟨j⟩ th th' hth hth' he)
  · by_contra hended
    exact hframes (htidy ⟨i⟩ th hth (by simpa using hended))
  · exact hmanned.lodged ⟨i⟩ th hth halive
  · -- the threads among which the generator chose when it was handed out are still there
    have hserves : m.kernel.Serves { g with cursor } := by
      intro ids hids t ht
      exact hleads.kernel_induction hn.isReady.hostCall (fun _ _ hk hturn => hturn.stays hk)
        (hn.isManned.2 g hg ids hids t ht)
    rcases hmanned.isMishap_of_fails hserves hfails with hmishap | rfl
    · exact ⟨fun t he => by simp [he, Fault.isMishap] at hmishap,
        fun t he => by simp [he, Fault.isMishap] at hmishap⟩
    · exact ⟨fun _ => nofun, fun _ => nofun⟩

/-- Two threads count; one of them has ended, and the other one has not begun. -/
theorem staffed_of_driven_racyCounter : ∃ p m g e m' th th',
    Demo.racyCounter.run (Program.base .plain) = .ok ((), p) ∧ Driven p {} m ∧
      m.pending = some g ∧ transition { g with cursor := some g.total } m = .error e m' ∧
      (∀ t, e ≠ .noActiveFrame t) ∧ (∀ t, e ≠ .noSuchThread t) ∧
      m.kernel.threads[1]? = some th ∧ th.isAlive = false ∧ th.frames = [] ∧
      m.kernel.threads[2]? = some th' ∧ th'.isAlive = true ∧ th'.frames ≠ [] ∧
      th.object ≠ th'.object := by
  obtain ⟨p, m, hbuild, hdriven, htest⟩ := Driven.exists_of_demo Demo.racyCounter [0, 1, 1, 1, 1]
    (fun _ m => (m.kernel.threads[1]?.any fun th => !th.isAlive) &&
      (m.kernel.threads[2]?.any fun th => th.isAlive) &&
      m.pending.any fun (g : Generator) =>
        fails (transition { g with cursor := some g.total }) m fun _ _ => true) (by decide +kernel)
  simp only [Bool.and_eq_true, Option.any_eq_true, Bool.not_eq_true', fails_iff] at htest
  obtain ⟨⟨⟨th, hth, hended⟩, th', hth', halive⟩, g, hg, e, m', hfails, -⟩ := htest
  obtain ⟨hstaffed, -, hfinds⟩ := staffed_of_driven hdriven
  obtain ⟨hframe, hthread⟩ := hfinds m g _ e m' hdriven hg .refl hfails
  refine ⟨p, m, g, e, m', th, th', hbuild, hdriven, hg, hfails, hframe, hthread, hth, hended, ?_,
    hth', halive, (hstaffed.frames 2 th' hth').mpr halive, fun he => ?_⟩
  · by_contra hframes
    rw [(hstaffed.frames 1 th hth).mp hframes] at hended
    cases hended
  · cases hstaffed.distinct 1 2 th th' hth hth' he

end Machine

end Interleave

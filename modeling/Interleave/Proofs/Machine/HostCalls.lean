import Interleave.Machine.Host
import Interleave.Proofs.Machine.Abandoned

/-!
# Calls from outside

A call from outside pushes a stub on top of a thread and lets the thread perform instructions until
the stub has been left. It is given up if the thread cannot go on by itself, or if an exception
leaves a firewall. Then whatever frames the call has added are dropped: they are not left one by
one, so the monitors that they needed are not given back.

Whether it comes back or is given up, a call does the same to the state: some instructions are
performed above the stub, and the frames that are still above those of the caller are dropped.
-/

namespace Interleave

open Effect Relation

namespace Kernel

/-- A thread has performed the instruction that it stood in front of. -/
def Performs (p : Program) (t : ThreadId) (k k' : Kernel) : Prop :=
  ∃ i out w w', w.kernel = k ∧ k.At t i ∧ Step.perform p t i w = .ok out w' ∧ w'.kernel = k'

variable {p : Program} {k k' k'' : Kernel} {t u : ThreadId} {base : Nat}

/-- Apart from the status of the thread, this is a sequence of moves. -/
theorem Performs.exists_moves (h : Performs p t k k') :
    ∃ k₁, ReflTransGen (Move p t) k k₁ ∧ k'.heap = k₁.heap := by
  obtain ⟨i, out, w, w', rfl, hat, hperform, rfl⟩ := h
  obtain ⟨k₁, hmoves, hk₁ | ⟨s, hk₁⟩⟩ := Step.perform_moves hat hperform
  · exact ⟨k₁, hmoves, hk₁ ▸ rfl⟩
  · exact ⟨k₁, hmoves, hk₁ ▸ rfl⟩

/-- Instructions of one thread do not change how often the others hold monitors. -/
theorem heldBy_of_performs (h : ReflTransGen (Performs p t) k k') (hu : u ≠ t) (r : ObjRef) :
    k'.heap.heldBy r u = k.heap.heldBy r u := by
  induction h with
  | refl => rfl
  | tail _ hlast ih =>
    obtain ⟨k₁, hmoves, hheap⟩ := hlast.exists_moves
    rw [hheap, ← ih]
    clear hheap hlast ih
    induction hmoves with
    | refl => rfl
    | tail _ hmove ih => exact (hmove.heldBy_of_ne hu r).trans ih

theorem exists_object_of_performs (h : ReflTransGen (Performs p t) k k') {r : ObjRef} {o : Object}
    (ho : k.heap.get? r = some o) : ∃ o', k'.heap.get? r = some o' := by
  induction h with
  | refl => exact ⟨o, ho⟩
  | tail _ hlast ih =>
    obtain ⟨o₁, ho₁⟩ := ih
    obtain ⟨k₁, hmoves, hheap⟩ := hlast.exists_moves
    obtain ⟨o', ho', -⟩ := (Advance.of_moves hmoves).objects r o₁ ho₁
    exact ⟨o', hheap ▸ ho'⟩

/-- Instructions of a thread keep a state orderly, and what threads hold beyond their needs. -/
theorem Orderly.performs (hp : p.HasNoMonitorCode) (hk : k.Orderly)
    (h : ReflTransGen (Performs p t) k k') : SameSurplus k k' ∧ k'.Orderly := by
  induction h with
  | refl => exact ⟨.refl k, hk⟩
  | tail _ hlast ih =>
    obtain ⟨hsurplus, hk₁⟩ := ih
    obtain ⟨i, out, w, w', rfl, hat, hperform, rfl⟩ := hlast
    obtain ⟨hsurplus', hk'⟩ := hk₁.perform hp hat hperform
    exact ⟨hsurplus.trans hsurplus', hk'⟩

/-! ## Frames that are dropped -/

/-- Frames of a thread have been dropped until there were no more than some number. -/
structure DroppedTo (t : ThreadId) (base : Nat) (k k' : Kernel) : Prop where
  heap : k'.heap = k.heap
  objects : k'.classObjects = k.classObjects
  mine : k'.frames t = (k.frames t).drop ((k.frames t).length - base)
  others : ∀ u, u ≠ t → k'.frames u = k.frames u

namespace DroppedTo

theorem of_length_le (h : (k.frames t).length ≤ base) : DroppedTo t base k k where
  heap := rfl
  objects := rfl
  mine := by rw [Nat.sub_eq_zero_of_le h, List.drop_zero]
  others _ _ := rfl

theorem of_modifyThread (k : Kernel) (t : ThreadId) (base : Nat) :
    DroppedTo t base k (k.modifyThread t (·.dropTo base)) where
  heap := rfl
  objects := rfl
  mine := by
    cases hth : k.threads[t.index]? with
    | none => simp [frames, getElem?_modifyThread, hth]
    | some th =>
      rw [frames_modifyThread hth, frames_of_getElem? hth]
      rfl
  others _ hu := frames_modifyThread_of_ne (Ne.symm hu) _

/-- All frames are gone of a thread that has ended; it has none to be dropped. -/
theorem of_ended (h : k.frames t = []) : DroppedTo t base k (k.ended t) where
  heap := rfl
  objects := rfl
  mine := by simp [frames_ended, h]
  others u hu := by rw [frames_ended, if_neg (Ne.symm hu)]

theorem length_le (h : DroppedTo t base k k') : (k'.frames t).length ≤ base := by
  rw [h.mine, List.length_drop]
  omega

protected theorem trans (h : DroppedTo t base k k') (h' : DroppedTo t base k' k'') :
    DroppedTo t base k k'' where
  heap := h'.heap.trans h.heap
  objects := h'.objects.trans h.objects
  mine := by rw [h'.mine, Nat.sub_eq_zero_of_le h.length_le, List.drop_zero, h.mine]
  others u hu := (h'.others u hu).trans (h.others u hu)

theorem orderly (h : DroppedTo t base k k') (hk : k.Orderly) : k'.Orderly := by
  refine hk.of_sublist h.heap h.objects fun u => ?_
  by_cases hu : u = t
  · subst hu
    rw [h.mine]
    exact List.drop_sublist _ _
  · exact (h.others u hu).symm ▸ .refl _

/-- What is left of some frames above those that stay. -/
theorem frames_eq {dropped below : List Frame} (h : DroppedTo t below.length k k')
    (hframes : k.frames t = dropped ++ below) : k'.frames t = below := by
  rw [h.mine, hframes, List.length_append, Nat.add_sub_cancel, List.drop_left]

end DroppedTo

end Kernel

namespace Machine

variable {m m' : Machine} {t : ThreadId} {base : Nat}

/-! ## Faults -/

namespace Action

theorem inwardly_lift {α : Type} {x : Except Fault α} (hx : Fault.Inner x) :
    Inwardly (lift x) := by
  cases x with
  | ok a => exact .pure a
  | error e => exact .throw (hx e rfl)

theorem inwardly_thread (t : ThreadId) : Inwardly (thread t) :=
  Faults.bind .get fun m => inwardly_lift (m.kernel.inner_thread t)

end Action

theorem Stuck.isInner {e : Fault} (h : m.Stuck t e) : e.isInner = true := by
  cases h with
  | frame h => exact m.kernel.inner_topFrame t e h
  | instruction _ h => exact Fault.isInner_of_isMishap (Frame.sought_instruction _ e h)
  | performed _ h => exact Step.inwardly_perform _ h

theorem inwardly_step (t : ThreadId) : Inwardly (step t) := fun _ _ _ h => (step_eq_error h).isInner

/-! ## One round -/

/-- During a call from outside, a thread has performed an instruction. Its frames may have been
dropped then, down to those that it had before the call. -/
structure Hosts (m : Machine) (t : ThreadId) (base : Nat) (m' : Machine) : Prop where
  program : m'.program = m.program
  hostCall : m'.hostCall = m.hostCall
  performs : ∃ k, Kernel.Performs m.program t m.kernel k ∧
    (m'.kernel = k ∨ k.DroppedTo t base m'.kernel)

theorem step_hosts {escaped : Bool} (hhost : m.hostCall = some (t, base))
    (h : step t m = .ok escaped m') : Hosts m t base m' := by
  obtain ⟨i, out, w', n, hat, hperform, ⟨hprogram, -, hhostCall, hkernel, -, -⟩, -, hafter⟩ :=
    step_eq_ok h
  have hperforms : Kernel.Performs m.program t m.kernel w'.kernel :=
    ⟨i, out, m.work, w', rfl, hat, hperform, rfl⟩
  cases out with
  | running =>
    replace hafter : SameState n m' := hafter
    refine ⟨hafter.program.trans hprogram, hafter.hostCall.trans hhostCall, _, hperforms, ?_⟩
    exact .inl (hafter.kernel.trans hkernel)
  | finished =>
    replace hafter : SameState (n.endThread t) m' := hafter
    refine ⟨hafter.program.trans hprogram, hafter.hostCall.trans hhostCall, _, hperforms, .inr ?_⟩
    have hended : m'.kernel = w'.kernel.ended t := hafter.kernel.trans (hkernel ▸ rfl)
    rw [hended]
    exact .of_ended (Step.frames_of_finished hperform)
  | escaped r =>
    have hsettle : (n.settle t (.escaped r)).2 =
        { n with kernel := n.kernel.modifyThread t (·.dropTo base), hostEscape := some r } := by
      simp only [settle, hhostCall, hhost, if_true]
    rw [hsettle] at hafter
    refine ⟨hafter.program.trans hprogram, hafter.hostCall.trans hhostCall, _, hperforms, .inr ?_⟩
    rw [hafter.kernel, ← hkernel]
    exact .of_modifyThread n.kernel t base

/-- What a round of a call from outside does, if it does not fault: the thread goes on, or has few
frames left. -/
theorem hostRound_eq_ok {r : Unit ⊕ List Slot} (hhost : m.hostCall = some (t, base))
    (h : hostRound t base () m = .ok r m') : Hosts m t base m' ∧
      (r = .inl () ∧ base < (m'.kernel.frames t).length ∨
        r.isRight = true ∧ (m'.kernel.frames t).length ≤ base) := by
  unfold hostRound at h
  rw [Action.thread_bind_eq_ok] at h
  obtain ⟨th, -, h⟩ := h
  rw [get_bind] at h
  split at h
  · simp only [modify_bind] at h
    cases h
  · dsimp only at h
    obtain ⟨escaped, m₁, hstep, h⟩ := bind_eq_ok.mp h
    have hhosts := step_hosts hhost hstep
    rw [get_bind] at h
    cases hescape : m₁.hostEscape with
    | some record =>
      simp only [hescape, modify_bind] at h
      cases h
    | none =>
      simp only [hescape] at h
      rw [Action.thread_bind_eq_ok] at h
      obtain ⟨th', hth', h⟩ := h
      have hlength : (m₁.kernel.frames t).length = th'.depth :=
        congrArg List.length (Kernel.frames_of_getElem? hth')
      split at h
      · rename_i hfew
        rw [get_bind] at h
        obtain ⟨rfl, rfl⟩ := pure_eq_ok.mp h
        exact ⟨hhosts, .inr ⟨rfl, hlength ▸ Thread.hasAtMost_iff.mp hfew⟩⟩
      · rename_i hmany
        obtain ⟨rfl, rfl⟩ := pure_eq_ok.mp h
        rw [Thread.hasAtMost_iff, ← hlength] at hmany
        exact ⟨hhosts, .inl ⟨rfl, by omega⟩⟩

/-- A round in which the call is given up has performed an instruction, or it has left the state
alone. -/
theorem hostRound_gives_up {e : Fault} (he : e.givesUp = true) (hhost : m.hostCall = some (t, base))
    (h : hostRound t base () m = .error e m') :
    (m'.program = m.program ∧ m'.hostCall = m.hostCall ∧ m'.kernel = m.kernel) ∨
      Hosts m t base m' := by
  -- looking up the thread and performing the instruction do not fail in this way
  have hinner : ∀ {α : Type} {x : Action α} {n n' : Machine}, Inwardly x →
      x n ≠ .error e n' := by
    intro α x n n' hx hn
    rw [Fault.givesUp_of_isInner (hx hn)] at he
    cases he
  unfold hostRound at h
  cases hth : Action.thread t m with
  | error e' n =>
    rw [bind_of_error hth] at h
    cases h
    exact absurd hth (hinner (Action.inwardly_thread t))
  | ok th n =>
    obtain rfl : n = m := (Action.thread_eq_ok.mp hth).2
    rw [bind_of_ok hth, get_bind] at h
    split at h
    · cases h
      exact .inl ⟨rfl, rfl, rfl⟩
    · dsimp only at h
      cases hstep : step t n with
      | error e' n' =>
        rw [bind_of_error hstep] at h
        cases h
        exact absurd hstep (hinner (inwardly_step t))
      | ok escaped n' =>
        have hhosts := step_hosts hhost hstep
        rw [bind_of_ok hstep, get_bind] at h
        cases hescape : n'.hostEscape with
        | some record =>
          simp only [hescape, modify_bind] at h
          cases h
          exact .inr ⟨hhosts.program, hhosts.hostCall, hhosts.performs⟩
        | none =>
          simp only [hescape] at h
          refine absurd h (hinner ((Action.inwardly_thread t).bind fun th => ?_))
          split
          · exact Faults.bind .get fun _ => .pure _
          · exact .pure _

/-! ## Whole calls -/

/-- A call from outside has performed instructions above a stub, and has dropped what was left above
the frames of the caller. -/
structure Called (m : Machine) (t : ThreadId) (stub : Method) (m' : Machine) : Prop where
  program : m'.program = m.program
  hostCall : m'.hostCall = m.hostCall
  runs : ∃ th f k dropped, m.kernel.threads[t.index]? = some th ∧ f.method = stub ∧
    ReflTransGen (Kernel.Performs m.program t) (m.kernel.modifyThread t (·.pushFrame f)) k ∧
    k.frames t = dropped ++ m.kernel.frames t ∧
    k.DroppedTo t (m.kernel.frames t).length m'.kernel

/-- The machine is left behind by a call that came back, or by one that was given up. -/
def IsLeftBy {α : Type} (m' : Machine) : EStateM.Result Fault Machine α → Prop
  | .ok _ n => m' = n
  | .error e n => e.givesUp = true ∧ m' = n

/-- A call was given up with this fault. -/
theorem IsLeftBy.of_error {α : Type} {x : EStateM.Result Fault Machine α} {e : Fault}
    (he : e.givesUp = true) (h : x = .error e m') : IsLeftBy m' x := by
  rw [h]
  exact ⟨he, rfl⟩

/-- A call from outside is in progress: the stub still stands above the frames of the caller. -/
structure Underway (p : Program) (t : ThreadId) (stub : Frame) (below : List Frame) (k₀ : Kernel)
    (m : Machine) : Prop where
  program : m.program = p
  hostCall : m.hostCall = some (t, below.length)
  performs : ReflTransGen (Kernel.Performs p t) k₀ m.kernel
  stands : stub.StandsOver below (m.kernel.frames t)

namespace Underway

variable {p : Program} {s : Frame} {below : List Frame} {k₀ : Kernel}

/-- After a round the frames of the caller are as they were, below whatever is still there. -/
theorem exists_reached (h : Underway p t s below k₀ m) (hs : s.method.IsFloor)
    (hhosts : Hosts m t below.length m') : ∃ k, ReflTransGen (Kernel.Performs p t) k₀ k ∧
      (s.StandsOver below (k.frames t) ∨ k.frames t = below) ∧
      (m'.kernel = k ∨ k.DroppedTo t below.length m'.kernel) := by
  obtain ⟨k, hperforms, hafter⟩ := hhosts.performs
  rw [h.program] at hperforms
  refine ⟨k, h.performs.tail hperforms, ?_, hafter⟩
  obtain ⟨i, out, w, w', hw, hat, hperform, rfl⟩ := hperforms
  have hstands := h.stands
  rw [← hw] at hstands hat
  exact Step.perform_standsOver hs hat hstands hperform

/-- The call goes on as long as there are frames above those of the caller. -/
theorem next (h : Underway p t s below k₀ m) (hs : s.method.IsFloor)
    (hhosts : Hosts m t below.length m') (hmany : below.length < (m'.kernel.frames t).length) :
    Underway p t s below k₀ m' := by
  obtain ⟨k, hperforms, hstands, hafter⟩ := h.exists_reached hs hhosts
  -- had frames been dropped, there would be none above those of the caller
  have hkernel : m'.kernel = k :=
    hafter.resolve_right fun hdropped => absurd hdropped.length_le (by omega)
  refine ⟨hhosts.program.trans h.program, hhosts.hostCall.trans h.hostCall, ?_, ?_⟩
  · rw [hkernel]
    exact hperforms
  · rw [hkernel] at hmany ⊢
    refine hstands.resolve_right fun hbelow => ?_
    rw [hbelow] at hmany
    omega

/-- When a call comes to an end, what it has added stands above the frames of the caller. -/
theorem ends (h : Underway p t s below k₀ m) (hs : s.method.IsFloor)
    (hhosts : Hosts m t below.length m') : ∃ k dropped,
      ReflTransGen (Kernel.Performs p t) k₀ k ∧ k.frames t = dropped ++ below ∧
        (m'.kernel = k ∨ k.DroppedTo t below.length m'.kernel) := by
  obtain ⟨k, hperforms, ⟨above, s', hframes, -⟩ | hbelow, hafter⟩ := h.exists_reached hs hhosts
  · exact ⟨k, above ++ [s'], hperforms, by simp [hframes], hafter⟩
  · exact ⟨k, [], hperforms, hbelow, hafter⟩

end Underway

/-- A stub that is made for a method is a floor. -/
theorem isFloor_of_stub {method stub : Method} {id : MethodId} {name : String} {stamp : Stamp}
    (h : method.stub id name stamp = .ok stub) : stub.IsFloor := by
  obtain ⟨-, -, -, -, hfirewall, call, hcall, hops⟩ := Method.shape_of_stub h
  refine ⟨hfirewall, fun i hi => ?_⟩
  have hop : i.op ∈ [call, .directCallReturn] := hops ▸ List.mem_map_of_mem hi
  simp only [List.mem_cons, List.not_mem_nil, or_false] at hcall hop
  rcases hop with hop | hop
  · rcases hcall with rfl | rfl | rfl | rfl <;> rw [hop] <;> decide
  · rw [hop]
    decide

/-- The machine that a call from outside starts with: a frame has been pushed. -/
def calling (m : Machine) (t : ThreadId) (frame : Frame) : Machine :=
  { m with
    kernel := m.kernel.modifyThread t (·.pushFrame frame)
    hostCall := some (t, (m.kernel.frames t).length) }

/-- A call that is given up drops its frames; in any case the call that it interrupted goes on. -/
def finishCall {α : Type} (m : Machine) (t : ThreadId) :
    EStateM.Result Fault Machine α → EStateM.Result Fault Machine α
  | .ok a n => .ok a { n with hostCall := m.hostCall }
  | .error e n =>
    .error e { n with
      hostCall := m.hostCall
      kernel := n.kernel.modifyThread t (·.dropTo (m.kernel.frames t).length) }

theorem runStub_eq {th : Thread} (hth : m.kernel.threads[t.index]? = some th) (stub : Method)
    (args : List Slot) : runStub t stub args m = finishCall m t
      (Loop.run (hostRound t (m.kernel.frames t).length) .budgetExhausted m.config.stepBudget ()
        (m.calling t { Frame.enter stub .null with operands := args.reverse })) := by
  have hdepth : (m.kernel.frames t).length = th.depth :=
    congrArg List.length (Kernel.frames_of_getElem? hth)
  unfold runStub
  rw [bind_of_ok (Action.thread_eq_ok.mpr ⟨hth, rfl⟩), get_bind]
  refine (bind_of_ok (x := set _) rfl).trans ?_
  unfold finishCall calling
  rw [hdepth]
  dsimp only
  generalize Loop.run _ _ _ _ _ = r
  cases r <;> rfl

/-- A call begins with a stub above the frames of the caller. -/
theorem underway_calling {th : Thread} (hth : m.kernel.threads[t.index]? = some th) (f : Frame) :
    Underway m.program t f (m.kernel.frames t) (m.kernel.modifyThread t (·.pushFrame f))
      (m.calling t f) where
  program := rfl
  hostCall := rfl
  performs := .refl
  stands := by
    refine ⟨[], f, ?_, rfl, rfl⟩
    show (m.kernel.modifyThread t (·.pushFrame f)).frames t = _
    rw [Kernel.frames_modifyThread hth, Kernel.frames_of_getElem? hth]
    rfl

/-- A call that comes back has dropped what it has left above the frames of the caller. -/
theorem called_of_ok {th : Thread} {f : Frame} {n : Nat} {slots : List Slot} {e : Fault}
    (hth : m.kernel.threads[t.index]? = some th) (hf : f.method.IsFloor)
    (h : Loop.run (hostRound t (m.kernel.frames t).length) e n () (m.calling t f) = .ok slots m') :
    Called m t f.method { m' with hostCall := m.hostCall } := by
  refine Loop.run_induction
    (I := fun _ n => Underway m.program t f (m.kernel.frames t)
      (m.kernel.modifyThread t (·.pushFrame f)) n)
    (Q := fun _ n => Called m t f.method { n with hostCall := m.hostCall })
    ?_ ?_ (underway_calling hth f) h
  · intro _ n _ n' hn hround
    obtain ⟨hhosts, ⟨-, hmany⟩ | ⟨hright, -⟩⟩ := hostRound_eq_ok hn.hostCall hround
    · exact hn.next hf hhosts hmany
    · cases hright
  · intro _ n slots n' hn hround
    obtain ⟨hhosts, ⟨hleft, -⟩ | ⟨-, hfew⟩⟩ := hostRound_eq_ok hn.hostCall hround
    · cases hleft
    · obtain ⟨k, dropped, hperforms, hframes, hafter⟩ := hn.ends hf hhosts
      refine ⟨hhosts.program.trans hn.program, rfl, th, f, k, dropped, hth, rfl, hperforms, hframes,
        ?_⟩
      -- a call that comes back drops nothing, or its thread has ended
      rcases hafter with rfl | hdropped
      · exact .of_length_le hfew
      · exact hdropped

/-- So does a call that is given up. -/
theorem called_of_error {th : Thread} {f : Frame} {n : Nat} {e : Fault} (he : e.givesUp = true)
    (hth : m.kernel.threads[t.index]? = some th) (hf : f.method.IsFloor)
    (h : Loop.run (hostRound t (m.kernel.frames t).length) .budgetExhausted n () (m.calling t f) =
      .error e m') : Called m t f.method { m' with
        hostCall := m.hostCall
        kernel := m'.kernel.modifyThread t (·.dropTo (m.kernel.frames t).length) } := by
  refine Loop.run_faults
    (I := fun _ n => Underway m.program t f (m.kernel.frames t)
      (m.kernel.modifyThread t (·.pushFrame f)) n)
    (Q := fun e n => e.givesUp = true → Called m t f.method { n with
      hostCall := m.hostCall
      kernel := n.kernel.modifyThread t (·.dropTo (m.kernel.frames t).length) })
    ?_ ?_ ?_ (underway_calling hth f) h he
  · intro _ n _ n' hn hround
    obtain ⟨hhosts, ⟨-, hmany⟩ | ⟨hright, -⟩⟩ := hostRound_eq_ok hn.hostCall hround
    · exact hn.next hf hhosts hmany
    · cases hright
  · intro _ n e n' hn hround he
    -- suspended in front of an instruction, or given up right behind one
    rcases hostRound_gives_up he hn.hostCall hround with ⟨hprogram, hhostCall, hkernel⟩ | hhosts
    · obtain ⟨above, s', hframes, -⟩ := hn.stands
      refine ⟨hprogram.trans hn.program, rfl, th, f, n.kernel, above ++ [s'], hth, rfl, hn.performs,
        by simp [hframes], ?_⟩
      rw [← hkernel]
      exact .of_modifyThread n'.kernel t _
    · obtain ⟨k, dropped, hperforms, hframes, hafter⟩ := hn.ends hf hhosts
      refine ⟨hhosts.program.trans hn.program, rfl, th, f, k, dropped, hth, rfl, hperforms, hframes,
        ?_⟩
      rcases hafter with rfl | hdropped
      · exact .of_modifyThread n'.kernel t _
      · exact hdropped.trans (.of_modifyThread n'.kernel t _)
  · intro _ n _ hinner
    cases hinner

/-- What a call does that comes back or is given up. -/
theorem called_of_runStub {stub : Method} {args : List Slot} (hs : stub.IsFloor)
    (h : IsLeftBy m' (runStub t stub args m)) : Called m t stub m' := by
  cases hthread : Action.thread t m with
  | error e n =>
    have herror : runStub t stub args m = .error e n := by
      unfold runStub
      exact bind_of_error hthread
    rw [herror] at h
    have hinner : e.givesUp = false := Fault.givesUp_of_isInner (Action.inwardly_thread t hthread)
    rw [h.1] at hinner
    cases hinner
  | ok th n =>
    obtain ⟨hth, -⟩ := Action.thread_eq_ok.mp hthread
    rw [runStub_eq hth] at h
    cases hrun : Loop.run (hostRound t (m.kernel.frames t).length) .budgetExhausted
        m.config.stepBudget ()
        (m.calling t { Frame.enter stub .null with operands := args.reverse }) with
    | ok slots n' =>
      rw [hrun] at h
      obtain rfl := h
      exact called_of_ok hth hs hrun
    | error e n' =>
      rw [hrun] at h
      obtain ⟨he, rfl⟩ := h
      exact called_of_error he hth hs hrun

/-- The same for a call by way of a stub that is made for a method. -/
theorem called_of_stub {method : Method} {id : MethodId} {name : String} {args : List Slot}
    (h : IsLeftBy m' ((do
      let stub ← Action.lift (method.stub id name (← get).program.stamp)
      runStub t stub args : Action (List Slot)) m)) :
    ∃ stub, method.stub id name m.program.stamp = .ok stub ∧ Called m t stub m' := by
  rw [get_bind] at h
  cases hstub : method.stub id name m.program.stamp with
  | error e =>
    rw [hstub] at h
    have hinner : e.givesUp = false :=
      Fault.givesUp_of_isInner ((method.sought_stub id name _).inner e hstub)
    obtain ⟨he, -⟩ : e.givesUp = true ∧ m' = m := h
    rw [he] at hinner
    cases hinner
  | ok stub =>
    rw [hstub] at h
    exact ⟨stub, rfl, called_of_runStub (isFloor_of_stub hstub) h⟩

theorem called_of_callDirect {method : Method} {args : List Slot}
    (h : IsLeftBy m' (callDirect t method args m)) :
    ∃ stub, method.directCallStub "[direct]" m.program.stamp = .ok stub ∧ Called m t stub m' :=
  called_of_stub h

theorem called_of_callReflective {method : Method} {args : List Slot}
    (h : IsLeftBy m' (callReflective t method args m)) :
    ∃ stub, method.reflectiveCallStub m.program.stamp = .ok stub ∧ Called m t stub m' :=
  called_of_stub h

end Machine

end Interleave

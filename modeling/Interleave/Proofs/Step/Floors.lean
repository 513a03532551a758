import Interleave.Proofs.Holdings
import Interleave.Proofs.Step.Within

/-!
# What lies below a call

An instruction leaves frames of its thread or adds some, and works on the one that is on top then;
`Step.Restacks` says this once for all. So the frames below a call are left alone as long as the
call is on the stack.

A stub that is pushed on top of a thread is a floor. It is a firewall, so that no exception gets
past it, and it contains no return. Whatever is run above it, the frames below it are left alone;
at last the stub itself is left, be it by its last instruction or by an exception.
-/

namespace Interleave

open Effect

/-! ## Frames that stay -/

namespace Kernel

variable {k k' : Kernel} {t u : ThreadId}

/-- The frames of a thread are of the same calls as before, with some more on top. -/
def Grown (t : ThreadId) (k k' : Kernel) : Prop :=
  ∀ f rest, k.frames t = f :: rest →
    ∃ pushed f', k'.frames t = pushed ++ f' :: rest ∧ f.SameCall f'

namespace Grown

theorem of_frames_eq (h : k'.frames t = k.frames t) : Grown t k k' :=
  fun f _ hframes => ⟨[], f, h.trans hframes, refl f⟩

protected theorem trans {k'' : Kernel} (h : Grown t k k') (h' : Grown t k' k'') :
    Grown t k k'' := by
  intro f rest hframes
  obtain ⟨pushed, f', hframes', hsame⟩ := h f rest hframes
  cases pushed with
  | nil =>
    obtain ⟨pushed', f'', hframes'', hsame'⟩ := h' f' rest hframes'
    exact ⟨pushed', f'', hframes'', IsTrans.trans _ _ _ hsame hsame'⟩
  | cons g pushed =>
    obtain ⟨pushed', g', hframes'', -⟩ := h' g (pushed ++ f' :: rest) hframes'
    exact ⟨pushed' ++ g' :: pushed, f', by simpa using hframes'', hsame⟩

theorem setTop {f f' : Frame} (h : k.topFrame t = .ok f) (hsame : f.SameCall f') :
    Grown t k (k.modifyThread t (·.setTop f')) := by
  intro g rest hframes
  obtain ⟨th, hth, hframes'⟩ := exists_of_frames hframes
  obtain ⟨rest', hrest'⟩ := topFrame_eq_ok_iff.mp h
  rw [hframes] at hrest'
  obtain ⟨rfl, rfl⟩ := List.cons.inj hrest'
  refine ⟨[], f', ?_, hsame⟩
  rw [frames_modifyThread hth]
  simp [Thread.setTop, hframes']

theorem pushFrame (g : Frame) : Grown t k (k.modifyThread u (·.pushFrame g)) := by
  intro f _ hframes
  by_cases hu : u = t
  · subst hu
    obtain ⟨th, hth, hframes'⟩ := exists_of_frames hframes
    refine ⟨[g], f, ?_, refl f⟩
    rw [frames_modifyThread hth]
    simp [Thread.pushFrame, hframes']
  · exact ⟨[], f, (frames_modifyThread_of_ne hu _).trans hframes, refl f⟩

end Grown

end Kernel

/-- A part of a step has left no frame. -/
def Work.Grown (t : ThreadId) (w w' : Work) : Prop := w.kernel.Grown t w'.kernel

section Grown

variable {p : Program} {t : ThreadId}

instance : Work.Admits (Work.Grown t) where
  refl _ := .of_frames_eq rfl
  trans _ _ _ := Kernel.Grown.trans
  same hthreads _ _ := .of_frames_eq (Kernel.frames_congr hthreads t)
  heap _ := .of_frames_eq rfl
  thrown _ _ := .of_frames_eq rfl

instance : Work.AdmitsFrames t (Work.Grown t) where
  setTop := Kernel.Grown.setTop
  pushStub f _ := .pushFrame f

instance : Work.AdmitsWrites (Work.Grown t) where
  write _ _ _ := .of_frames_eq rfl

instance : Work.AdmitsLocks p t (Work.Grown t) where
  lock _ _ := .of_frames_eq rfl
  enter f _ := .pushFrame f
  wait {_ s} _ := .of_frames_eq
    (Kernel.frames_modifyThread_of_eq (g := fun th => { th with status := s }) (fun _ => rfl) t)

instance : Work.AdmitsUnlocks t (Work.Grown t) where
  unlock _ _ := .of_frames_eq (Kernel.frames_released _ _ _ t)

instance : Work.AdmitsStarts (Work.Grown t) where
  start {_ r f} _ :=
    Kernel.Grown.trans (.of_frames_eq (Kernel.frames_addThread _ r t)) (.pushFrame f)

end Grown

namespace Step

variable {p : Program} {t : ThreadId} {i : Instruction}

/-- Only the returns leave a frame. -/
theorem Kind.grows (h : Kind p t i) : Within t (Work.Grown t) goesOn (execute p t i) ∨
    (i.op.isReturn = true ∧ execute p t i = Call.doReturn t i) ∨
      (i.op = .directCallReturn ∧ execute p t i = Call.stubReturn t) := by
  cases h with
  | plain h => exact .inl (h _)
  | waits h => exact .inl (h.within _)
  | monitorExit _ h => exact .inl (h ▸ Waiting.within_monitorExit i)
  | threadStart _ h => exact .inl (h ▸ Waiting.within_threadStart i)
  | putField _ h => exact .inl (h ▸ Memory.within_putField i)
  | putStatic _ h => exact .inl (h ▸ Memory.within_putStatic i)
  | storeElement _ h => exact .inl (h ▸ Memory.within_storeElement i)
  | returns op h => exact .inr (.inl ⟨op, h⟩)
  | leaves op h => exact .inr (.inr ⟨op, h⟩)

end Step

/-! ## Frames that are left -/

namespace Kernel

variable {k k' : Kernel} {t : ThreadId} {m : Method} {receiver : ObjRef}

theorem Released.kept (h : k.Released t m receiver k') : k.heap.Kept k'.heap := by
  cases h with
  | unneeded => exact .refl _
  | unlocked => exact .released k _ _
  | gone => exact .refl _

end Kernel

/-- Work on the frame on top leaves the frames below it alone. -/
theorem Step.onFrame_frames {α : Type} {t : ThreadId} {w w' : Work} {a : Frame.Action α} {v : α}
    (h : Step.onFrame t a w = .ok v w') : ∃ f f' rest, w.kernel.frames t = f :: rest ∧
      a f = .ok v f' ∧ w'.kernel.frames t = f' :: rest := by
  obtain ⟨f, f', htop, ha, rfl⟩ := Step.onFrame_eq_ok.mp h
  obtain ⟨rest, hframes⟩ := Kernel.topFrame_eq_ok_iff.mp htop
  obtain ⟨th, hth, hframes'⟩ := Kernel.exists_of_frames hframes
  refine ⟨f, f', rest, hframes, ha, (Kernel.frames_modifyThread hth _).trans ?_⟩
  simp [Thread.setTop, hframes']

namespace Call

variable {p : Program} {t : ThreadId} {w w' : Work}

/-- Leaving takes away the frame on top. -/
theorem frames_of_leave {f : Frame} (h : leave t w = .ok f w') :
    w.kernel.frames t = f :: w'.kernel.frames t ∧ w.kernel.heap.Kept w'.kernel.heap := by
  obtain ⟨th, rest, k, cs, hth, hframes, hreleased, -, hbecomes⟩ := leave_eq_ok h
  rw [hbecomes.kernel]
  refine ⟨?_, hreleased.kept⟩
  have hrest : ({ k with classes := cs } : Kernel).frames t = rest :=
    (hreleased.frames t).trans (Kernel.frames_modifyThread hth _)
  rw [hrest, Kernel.frames_of_getElem? hth, hframes]

end Call

/-! ## Floors -/

/-- A call stands right on top of some frames. -/
def Frame.StandsOver (s : Frame) (below fs : List Frame) : Prop :=
  ∃ above s', fs = above ++ s' :: below ∧ s.SameCall s'

/-- The frames of a thread are left alone below a method at which exceptions stop, and which does
not return. -/
structure Method.IsFloor (m : Method) : Prop where
  firewall : m.attributes.firewall = true
  staying : ∀ i ∈ m.code.toList, i.op.isReturn = false

namespace Frame.StandsOver

variable {k k' : Kernel} {t : ThreadId} {s f : Frame} {below rest : List Frame}

theorem grown (h : s.StandsOver below (k.frames t)) (hgrown : k.Grown t k') :
    s.StandsOver below (k'.frames t) := by
  obtain ⟨above, s', hframes, hsame⟩ := h
  cases above with
  | nil =>
    obtain ⟨pushed, s'', hframes', hsame'⟩ := hgrown s' below hframes
    exact ⟨pushed, s'', hframes', IsTrans.trans _ _ _ hsame hsame'⟩
  | cons g above =>
    obtain ⟨pushed, g', hframes', -⟩ := hgrown g _ hframes
    exact ⟨pushed ++ g' :: above, s', by simpa using hframes', hsame⟩

/-- When the frame on top is left, it was the floor itself, or the floor is still there. -/
theorem tail (h : s.StandsOver below (f :: rest)) :
    (s.SameCall f ∧ rest = below) ∨ s.StandsOver below rest := by
  obtain ⟨above, s', hframes, hsame⟩ := h
  cases above with
  | nil =>
    obtain ⟨rfl, rfl⟩ := List.cons.inj hframes
    exact .inl ⟨hsame, rfl⟩
  | cons g above =>
    obtain ⟨-, rfl⟩ := List.cons.inj hframes
    exact .inr ⟨above, s', rfl, hsame⟩

theorem setTop {f' : Frame} (h : s.StandsOver below (f :: rest)) (hsame : f.SameCall f') :
    s.StandsOver below (f' :: rest) := by
  obtain ⟨above, s', hframes, hs⟩ := h
  cases above with
  | nil =>
    obtain ⟨rfl, rfl⟩ := List.cons.inj hframes
    exact ⟨[], f', rfl, IsTrans.trans _ _ _ hs hsame⟩
  | cons g above =>
    obtain ⟨-, rfl⟩ := List.cons.inj hframes
    exact ⟨f' :: above, s', rfl, hs⟩

/-- The same for some frames on top, if those above the last one are no firewalls. -/
theorem passed {above : List Frame} (h : s.StandsOver below (above ++ f :: rest))
    (hs : s.method.attributes.firewall = true)
    (hpassed : ∀ g ∈ above, g.method.attributes.firewall = false) :
    (s.SameCall f ∧ rest = below) ∨ s.StandsOver below rest := by
  induction above with
  | nil => exact h.tail
  | cons g above ih =>
    obtain ⟨hg, habove⟩ := List.forall_mem_cons.mp hpassed
    rcases h.tail with ⟨hsame, -⟩ | hrest
    · rw [hsame.method, hs] at hg
      cases hg
    · exact ih hrest habove

/-- When frames on top are left, and more remain than were below a call, the call is still there. -/
theorem of_append {above : List Frame} (h : s.StandsOver below (above ++ rest))
    (hlong : below.length < rest.length) : s.StandsOver below rest := by
  induction above with
  | nil => exact h
  | cons g above ih =>
    rcases h.tail with ⟨-, hbelow⟩ | hrest
    · have hlength : (above ++ rest).length = below.length := congrArg List.length hbelow
      rw [List.length_append] at hlength
      omega
    · exact ih hrest

theorem ne_nil (h : s.StandsOver below rest) : rest ≠ [] := by
  obtain ⟨above, s', rfl, -⟩ := h
  simp

theorem length_lt (h : s.StandsOver below rest) : below.length < rest.length := by
  obtain ⟨above, s', rfl, -⟩ := h
  rw [List.length_append, List.length_cons]
  omega

theorem ne_below (h : s.StandsOver below rest) : rest ≠ below :=
  fun heq => Nat.ne_of_gt h.length_lt (congrArg List.length heq)

end Frame.StandsOver

namespace Unwound

variable {p : Program} {t : ThreadId} {w w' : Work}

/-- What the search for a handler does to the frames of a thread. -/
inductive Searched (fs fs' : List Frame) : Unwound → Prop where
  /-- A frame is positioned on its handler, and those above it have been left. -/
  | handled {above rest : List Frame} {f f' : Frame} (frames : fs = above ++ f :: rest)
    (passed : ∀ g ∈ above, g.method.attributes.firewall = false) (same : f.SameCall f')
    (left : fs' = f' :: rest) : Searched fs fs' .handled
  /-- The exception has left a firewall, or all frames. -/
  | escaped {record : Uncaught} {above : List Frame} {f : Frame} (frames : fs = above ++ f :: fs')
    (passed : ∀ g ∈ above, g.method.attributes.firewall = false)
    (stopped : f.method.attributes.firewall = true ∨ fs' = []) : Searched fs fs' (.escaped record)

theorem Searched.cons {fs fs' : List Frame} {f : Frame} {u : Unwound} (h : Searched fs fs' u)
    (hf : f.method.attributes.firewall = false) : Searched (f :: fs) fs' u := by
  cases h with
  | @handled above rest g g' frames passed same left =>
    exact .handled (by rw [frames, List.cons_append]) (List.forall_mem_cons.mpr ⟨hf, passed⟩) same
      left
  | @escaped record above g frames passed stopped =>
    exact .escaped (by rw [frames, List.cons_append]) (List.forall_mem_cons.mpr ⟨hf, passed⟩)
      stopped

theorem search_frames {x : ObjRef} {c : ClassId} {fs : List Frame} {u : Unwound}
    (hfs : w.kernel.frames t = fs) (h : search p t x c fs w = .ok u w') :
    Searched fs (w'.kernel.frames t) u := by
  induction fs generalizing w with
  | nil => simp [search] at h
  | cons f rest ih =>
    unfold search at h
    rw [Step.lift_bind_eq_ok] at h
    obtain ⟨handler, -, h⟩ := h
    cases handler with
    | some handler =>
      simp only [bind_eq_ok, Step.lift_eq_ok, pure_eq_ok] at h
      obtain ⟨target, _, ⟨-, rfl⟩, _, _, hpositioned, rfl, rfl⟩ := h
      obtain ⟨g, g', rest', hg, hmodify, hframes⟩ := Step.onFrame_frames hpositioned
      rw [hfs] at hg
      obtain ⟨rfl, rfl⟩ := List.cons.inj hg
      rw [modify_eq_ok] at hmodify
      exact .handled (List.nil_append _).symm (by simp) (hmodify ▸ ⟨rfl, rfl⟩) hframes
    | none =>
      simp only [bind_eq_ok (x := Call.leave t)] at h
      obtain ⟨g, w₁, hleave, h⟩ := h
      obtain ⟨hg, -⟩ := Call.frames_of_leave hleave
      rw [hfs] at hg
      obtain ⟨rfl, hrest⟩ := List.cons.inj hg
      split at h
      · rename_i hstop
        simp only [bind_eq_ok, Step.object_eq_ok, pure_eq_ok] at h
        obtain ⟨o, _, ⟨-, rfl⟩, rfl, rfl⟩ := h
        rw [← hrest]
        exact .escaped (List.nil_append _).symm (by simp) (by simpa using hstop)
      · rename_i hgo
        simp only [Bool.or_eq_true, not_or, Bool.not_eq_true] at hgo
        exact (ih hrest.symm h).cons hgo.1

theorem unwind_frames {x : ObjRef} {u : Unwound} (h : unwind p t x w = .ok u w') :
    Searched (w.kernel.frames t) (w'.kernel.frames t) u := by
  unfold unwind at h
  simp only [bind_eq_ok, Step.emit_eq_ok, Step.object_eq_ok, Step.kernel_eq_ok, Step.lift_eq_ok,
    Kernel.thread_eq_ok] at h
  obtain ⟨_, w₁, rfl, o, _, ⟨-, rfl⟩, _, _, ⟨rfl, rfl⟩, th, _, ⟨hth, rfl⟩, h⟩ := h
  have hframes := Kernel.frames_of_getElem? hth
  replace h := search_frames hframes h
  rwa [← hframes] at h

/-- The search for a handler does not get past a floor. -/
theorem Searched.standsOver {fs fs' below : List Frame} {s : Frame} {u : Unwound}
    (h : Searched fs fs' u) (hs : s.method.attributes.firewall = true)
    (hfs : s.StandsOver below fs) :
    s.StandsOver below fs' ∨ (∃ record, u = .escaped record) ∧ fs' = below := by
  cases h with
  | @handled above rest f f' frames passed same left =>
    rw [frames] at hfs
    rcases hfs.passed hs passed with ⟨hsame, rfl⟩ | ⟨between, s', hrest, hsame⟩
    · exact .inl ⟨[], f', left, IsTrans.trans _ _ _ hsame same⟩
    · exact .inl ⟨f' :: between, s', by rw [left, hrest, List.cons_append], hsame⟩
  | @escaped record above f frames passed =>
    rw [frames] at hfs
    rcases hfs.passed hs passed with ⟨-, hbelow⟩ | hover
    · exact .inr ⟨⟨record, rfl⟩, hbelow⟩
    · exact .inl hover

/-- The search for a handler leaves frames, and works on the first one that stays. -/
theorem Searched.standsOver_of_lt {fs fs' below : List Frame} {s : Frame} {u : Unwound}
    (h : Searched fs fs' u) (hfs : s.StandsOver below fs) (hlong : below.length < fs'.length) :
    s.StandsOver below fs' := by
  cases h with
  | @handled above rest f f' frames passed same left =>
    rw [frames] at hfs
    rw [left, List.length_cons, ← List.length_cons (a := f)] at hlong
    exact left ▸ (hfs.of_append hlong).setTop same
  | @escaped record above f frames passed =>
    rw [frames, ← List.singleton_append, ← List.append_assoc] at hfs
    exact hfs.of_append hlong

end Unwound

namespace Call

variable {t : ThreadId} {w w' : Work} {flow : Flow}

/-- Returning leaves the frame on top. The one below it, if there is one, gets the result and goes
on behind its call. -/
theorem doReturn_frames {i : Instruction} (h : doReturn t i w = .ok flow w') :
    ∃ f rest, w.kernel.frames t = f :: rest ∧ returnSlots i.op ≤ f.operands.length ∧
      ((flow = .finish ∧ rest = [] ∧ w'.kernel.frames t = []) ∨
        flow = .returned ∧ ∃ g rest', rest = g :: rest' ∧ w'.kernel.frames t = { g with
          operands := f.operands.take (returnSlots i.op) ++ g.operands
          pc := g.pc + 1 } :: rest') := by
  unfold doReturn at h
  simp only [bind_eq_ok (x := Step.onFrame _ _), bind_eq_ok (x := leave t), Step.kernel_bind_eq_ok,
    Step.lift_bind_eq_ok, Kernel.thread_eq_ok] at h
  obtain ⟨result, w₁, hpop, g, w₂, hleave, th, hth, h⟩ := h
  obtain ⟨f, f', rest, hframes, hslots, hframes₁⟩ := Step.onFrame_frames hpop
  obtain ⟨henough, rfl, -⟩ := Frame.popSlots_eq_ok.mp hslots
  obtain ⟨hleft, -⟩ := frames_of_leave hleave
  obtain ⟨-, hrest⟩ := List.cons.inj (hframes₁.symm.trans hleft)
  refine ⟨f, rest, hframes, henough, ?_⟩
  rw [Kernel.frames_of_getElem? hth] at hrest
  cases hfs : th.frames with
  | nil =>
    simp only [hfs, pure_eq_ok] at h
    obtain ⟨rfl, rfl⟩ := h
    exact .inl ⟨rfl, hrest.trans hfs, (Kernel.frames_of_getElem? hth).trans hfs⟩
  | cons c fs =>
    simp only [hfs, bind_eq_ok, pure_eq_ok] at h
    obtain ⟨_, _, hpush, rfl, rfl⟩ := h
    obtain ⟨c', c'', fs', hframes₂, hmodify, hframes'⟩ := Step.onFrame_frames hpush
    obtain rfl := modify_eq_ok.mp hmodify
    rw [Kernel.frames_of_getElem? hth] at hframes₂
    rw [List.reverse_reverse] at hframes'
    exact .inr ⟨rfl, c', fs', hrest.trans hframes₂, hframes'⟩

/-- Leaving a stub leaves its frame, whether or not there are others, and reports its operands. -/
theorem stubReturn_frames (h : stubReturn t w = .ok flow w') :
    ∃ f, w.kernel.frames t = f :: w'.kernel.frames t ∧
      flow = (if (w'.kernel.frames t).isEmpty then .finish else .returned) ∧
      w'.transient.result = some f.operands.reverse := by
  unfold stubReturn at h
  simp only [bind_eq_ok, Step.note_eq_ok, Step.kernel_eq_ok, Step.lift_eq_ok, Kernel.thread_eq_ok,
    pure_eq_ok] at h
  obtain ⟨f, w₁, hleave, _, _, rfl, _, _, ⟨rfl, rfl⟩, th, _, ⟨hth, rfl⟩, rfl, rfl⟩ := h
  obtain ⟨hleft, -⟩ := frames_of_leave hleave
  refine ⟨f, hleft, ?_, rfl⟩
  rw [Kernel.frames_of_getElem? hth]

end Call

namespace Step

variable {p : Program} {t : ThreadId} {i : Instruction} {w w' : Work} {out : Outcome}

/-- A thread that finishes has no frames left. -/
theorem frames_of_finished (h : perform p t i w = .ok .finished w') : w'.kernel.frames t = [] := by
  obtain ⟨flow, w₁, hexecute, hfollow⟩ := bind_eq_ok.mp h
  cases flow with
  | finish =>
    obtain ⟨-, rfl⟩ := pure_eq_ok.mp hfollow
    rcases (kind p t i).grows with hgrows | ⟨-, he⟩ | ⟨-, he⟩
    · exact absurd rfl (hgrows.gives hexecute)
    · rw [he] at hexecute
      obtain ⟨f, rest, -, -, ⟨-, -, hnil⟩ | ⟨hreturned, -⟩⟩ := Call.doReturn_frames hexecute
      · exact hnil
      · cases hreturned
    · rw [he] at hexecute
      obtain ⟨f, -, hflow, -⟩ := Call.stubReturn_frames hexecute
      split at hflow
      · rename_i hempty
        exact List.isEmpty_iff.mp hempty
      · cases hflow
  | goto index =>
    obtain ⟨_, _, -, hrunning⟩ := bind_eq_ok.mp hfollow
    simp at hrunning
  | raise x =>
    obtain ⟨u, w₂, -, hout⟩ := bind_eq_ok.mp hfollow
    cases u <;> simp at hout
  | called => simp [follow] at hfollow
  | returned => simp [follow] at hfollow
  | again => simp [follow] at hfollow

/-- When an exception escapes, the frames that are left behind stood right below a firewall, or
there are none. -/
theorem frames_of_escaped {r : Uncaught} (hi : w.kernel.At t i)
    (h : perform p t i w = .ok (.escaped r) w') :
    w'.kernel.frames t = [] ∨ ∃ k f above, Relation.ReflTransGen (Kernel.Move p t) w.kernel k ∧
      k.frames t = above ++ f :: w'.kernel.frames t ∧ f.method.attributes.firewall = true := by
  obtain ⟨flow, w₁, hexecute, hfollow⟩ := bind_eq_ok.mp h
  cases flow with
  | raise x =>
    obtain ⟨u, w₂, hunwind, hout⟩ := bind_eq_ok.mp hfollow
    have hsearched := Unwound.unwind_frames hunwind
    cases u with
    | handled => simp at hout
    | escaped record =>
      obtain ⟨-, rfl⟩ := pure_eq_ok.mp hout
      have hmoves : Relation.ReflTransGen (Kernel.Move p t) w.kernel w₁.kernel := by
        rcases execute_eq_ok hi hexecute with hran | ⟨hagain, -⟩
        · exact hran.moves
        · cases hagain
      cases hsearched with
      | @escaped _ above f frames _ stopped =>
        rcases stopped with hfirewall | hnil
        · exact .inr ⟨_, f, above, hmoves, frames, hfirewall⟩
        · exact .inl hnil
  | goto index =>
    obtain ⟨_, _, -, hrunning⟩ := bind_eq_ok.mp hfollow
    simp at hrunning
  | called => simp [follow] at hfollow
  | returned => simp [follow] at hfollow
  | again => simp [follow] at hfollow
  | finish => simp [follow] at hfollow

/-- What an instruction does to the frames of its thread. -/
inductive Restacks (p : Program) (t : ThreadId) (i : Instruction) (w w' : Work) : Prop where
  /-- It leaves none. -/
  | grows (grown : w.kernel.Grown t w'.kernel)
  /-- An exception looks for a handler. -/
  | unwinds {x : ObjRef} {u : Unwound} {w₁ : Work} (grown : w.kernel.Grown t w₁.kernel)
    (unwound : Unwound.unwind p t x w₁ = .ok u w')
  /-- It returns to the frame below, or to none. -/
  | returns {f : Frame} {rest : List Frame} (op : i.op.isReturn = true)
    (frames : w.kernel.frames t = f :: rest)
    (enough : Call.returnSlots i.op ≤ f.operands.length)
    (left : (rest = [] ∧ w'.kernel.frames t = []) ∨ ∃ g rest', rest = g :: rest' ∧
      w'.kernel.frames t = { g with
        operands := f.operands.take (Call.returnSlots i.op) ++ g.operands
        pc := g.pc + 1 } :: rest')
  /-- It leaves a stub. -/
  | leaves {f : Frame} (frames : w.kernel.frames t = f :: w'.kernel.frames t)

theorem follow_cases {flow : Flow} (h : follow p t flow w = .ok out w') :
    w.kernel.Grown t w'.kernel ∨ ∃ x u, Unwound.unwind p t x w = .ok u w' := by
  have hsame : ∀ {o : Outcome}, (pure o : Step Outcome) w = .ok out w' →
      w.kernel.Grown t w'.kernel := by
    intro o ho
    obtain ⟨-, rfl⟩ := pure_eq_ok.mp ho
    exact .of_frames_eq rfl
  cases flow with
  | goto index =>
    have hgrows : Within t (Work.Grown t) (fun _ => True)
        (onFrame t (modify fun f => { f with pc := index })) :=
      within_onFrame (Frame.keeps_modify fun _ => ⟨rfl, rfl⟩) (.modify _)
    obtain ⟨_, w₁, hgoto, hout⟩ := bind_eq_ok.mp h
    obtain ⟨-, rfl⟩ := pure_eq_ok.mp hout
    exact .inl (hgrows.keeps hgoto)
  | raise x =>
    obtain ⟨u, w₁, hunwind, hout⟩ := bind_eq_ok.mp h
    cases u with
    | handled =>
      obtain ⟨-, rfl⟩ := pure_eq_ok.mp hout
      exact .inr ⟨x, _, hunwind⟩
    | escaped record =>
      obtain ⟨-, rfl⟩ := pure_eq_ok.mp hout
      exact .inr ⟨x, _, hunwind⟩
  | called => exact .inl (hsame h)
  | returned => exact .inl (hsame h)
  | again => exact .inl (hsame h)
  | finish => exact .inl (hsame h)

theorem restacks (h : perform p t i w = .ok out w') : Restacks p t i w w' := by
  obtain ⟨flow, w₁, hexecute, hfollow⟩ := bind_eq_ok.mp h
  rcases (kind p t i).grows with hgrows | ⟨hop, he⟩ | ⟨-, he⟩
  · have hgrown : w.kernel.Grown t w₁.kernel := hgrows.keeps hexecute
    rcases follow_cases hfollow with hmore | ⟨x, u, hunwind⟩
    · exact .grows (hgrown.trans hmore)
    · exact .unwinds hgrown hunwind
  · rw [he] at hexecute
    obtain ⟨f, rest, hframes, henough, hleft⟩ := Call.doReturn_frames hexecute
    rcases hleft with ⟨rfl, hleft⟩ | ⟨rfl, hleft⟩
    · obtain ⟨-, rfl⟩ := pure_eq_ok.mp hfollow
      exact .returns hop hframes henough (.inl hleft)
    · obtain ⟨-, rfl⟩ := pure_eq_ok.mp hfollow
      exact .returns hop hframes henough (.inr hleft)
  · rw [he] at hexecute
    obtain ⟨f, hframes, hflow, -⟩ := Call.stubReturn_frames hexecute
    have hw₁ : w' = w₁ := by
      split at hflow
      · rw [hflow] at hfollow
        exact (pure_eq_ok.mp hfollow).2
      · rw [hflow] at hfollow
        exact (pure_eq_ok.mp hfollow).2
    exact .leaves (hw₁ ▸ hframes)

variable {s : Frame} {below : List Frame}

/-- A return is performed above a floor, since there is none in it. -/
theorem standsOver_of_isReturn {f : Frame} {rest : List Frame} (hs : s.method.IsFloor)
    (hi : w.kernel.At t i) (op : i.op.isReturn = true) (hframes : w.kernel.frames t = f :: rest)
    (hfs : s.StandsOver below (f :: rest)) : s.StandsOver below rest := by
  refine hfs.tail.resolve_left ?_
  rintro ⟨hsame, -⟩
  obtain ⟨g, htop, hinstruction⟩ := hi
  obtain ⟨rest', hg⟩ := Kernel.topFrame_eq_ok_iff.mp htop
  obtain ⟨rfl, -⟩ := List.cons.inj (hframes.symm.trans hg)
  have hmem := Frame.mem_code_of_instruction hinstruction
  rw [hsame.method] at hmem
  rw [hs.staying i hmem] at op
  cases op

/-- **A floor stays.** An instruction leaves the frames below a floor alone; it may leave the floor
itself. -/
theorem perform_standsOver (hs : s.method.IsFloor) (hi : w.kernel.At t i)
    (hfs : s.StandsOver below (w.kernel.frames t)) (h : perform p t i w = .ok out w') :
    s.StandsOver below (w'.kernel.frames t) ∨ w'.kernel.frames t = below := by
  cases restacks h with
  | grows grown => exact .inl (hfs.grown grown)
  | unwinds grown unwound =>
    have hsearched := Unwound.unwind_frames unwound
    exact (hsearched.standsOver hs.firewall (hfs.grown grown)).imp_right And.right
  | @returns f rest op frames _ left =>
    have hrest : s.StandsOver below rest := standsOver_of_isReturn hs hi op frames (frames ▸ hfs)
    -- a return also works on the frame below, which is still above the floor, or is it
    rcases left with ⟨rfl, -⟩ | ⟨g, rest', rfl, hleft⟩
    · exact absurd rfl hrest.ne_nil
    · exact .inl (hleft ▸ hrest.setTop ⟨rfl, rfl⟩)
  | leaves frames =>
    rw [frames] at hfs
    exact (hfs.tail.imp_left And.right).symm

/-- A floor is left by the last instruction of a stub, with the operands of the stub as the result,
unless an exception leaves it. -/
theorem floor_left (hs : s.method.IsFloor) (hi : w.kernel.At t i)
    (hfs : s.StandsOver below (w.kernel.frames t)) (h : perform p t i w = .ok .running w')
    (hleft : w'.kernel.frames t = below) : i.op = .directCallReturn ∧
      ∃ f, w.kernel.frames t = f :: below ∧ s.SameCall f ∧
        w'.transient.result = some f.operands.reverse := by
  have hgone : ¬ s.StandsOver below (w'.kernel.frames t) := fun hover => hover.ne_below hleft
  obtain ⟨flow, w₁, hexecute, hfollow⟩ := bind_eq_ok.mp h
  rcases (kind p t i).grows with hgrows | ⟨hop, he⟩ | ⟨hop, he⟩
  · -- the floor has been there still, so it is the flow that has left it
    have hover : s.StandsOver below (w₁.kernel.frames t) := hfs.grown (hgrows.keeps hexecute)
    by_cases hraises : ∃ x, flow = .raise x
    · obtain ⟨x, rfl⟩ := hraises
      obtain ⟨u, w₂, hunwind, hout⟩ := bind_eq_ok.mp hfollow
      have hsearched := Unwound.unwind_frames hunwind
      cases u with
      | handled =>
        obtain ⟨-, rfl⟩ := pure_eq_ok.mp hout
        rcases hsearched.standsOver hs.firewall hover with hstill | ⟨⟨r, hr⟩, -⟩
        · exact absurd hstill hgone
        · cases hr
      | escaped record => simp at hout
    · have hmore : Work.Grown t w₁ w' :=
        (follow_of_stays (hgrows.gives hexecute) (fun r hr => hraises ⟨r, hr⟩) hfollow).2
      exact absurd (hover.grown hmore) hgone
  · rw [he] at hexecute
    obtain ⟨f, rest, hframes, -, hback⟩ := Call.doReturn_frames hexecute
    have hrest : s.StandsOver below rest := standsOver_of_isReturn hs hi hop hframes (hframes ▸ hfs)
    rcases hback with ⟨-, rfl, -⟩ | ⟨rfl, g, rest', rfl, hafter⟩
    · exact absurd rfl hrest.ne_nil
    · obtain ⟨-, rfl⟩ := pure_eq_ok.mp hfollow
      exact absurd (hafter ▸ hrest.setTop ⟨rfl, rfl⟩) hgone
  · rw [he] at hexecute
    obtain ⟨f, hframes, hflow, hresult⟩ := Call.stubReturn_frames hexecute
    have hsame : w' = w₁ := by
      split at hflow
      · rw [hflow] at hfollow
        exact (pure_eq_ok.mp hfollow).2
      · rw [hflow] at hfollow
        exact (pure_eq_ok.mp hfollow).2
    rw [← hsame, hleft] at hframes
    rw [hframes] at hfs
    refine ⟨hop, f, hframes, ?_, hsame ▸ hresult⟩
    rcases hfs.tail with ⟨hcall, -⟩ | hover
    · exact hcall
    · exact absurd rfl hover.ne_below

/-- **What is below a call stays.** As long as there are more frames than were below it, a call is
on the stack, and the frames below it are what they were. -/
theorem perform_standsOver_of_lt (hfs : s.StandsOver below (w.kernel.frames t))
    (h : perform p t i w = .ok out w') (hlong : below.length < (w'.kernel.frames t).length) :
    s.StandsOver below (w'.kernel.frames t) := by
  cases restacks h with
  | grows grown => exact hfs.grown grown
  | unwinds grown unwound =>
    exact (Unwound.unwind_frames unwound).standsOver_of_lt (hfs.grown grown) hlong
  | @returns f rest _ frames _ left =>
    rw [frames, ← List.singleton_append] at hfs
    rcases left with ⟨-, hnil⟩ | ⟨g, rest', rfl, hleft⟩
    · simp [hnil] at hlong
    · rw [hleft, List.length_cons, ← List.length_cons (a := g)] at hlong
      exact hleft ▸ (hfs.of_append hlong).setTop ⟨rfl, rfl⟩
  | leaves frames =>
    rw [frames, ← List.singleton_append] at hfs
    exact hfs.of_append hlong

end Step

end Interleave

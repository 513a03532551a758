import Interleave.Step.Call
import Mathlib.Tactic.Common

/-!
# Looking into states of a program

What the operations on a state of a program leave visible of it: its threads by number, the objects
by reference, the class objects. All later arguments about steps look at states through these
lemmas.
-/

namespace Interleave

namespace Heap

/-- What a reference denotes after the object of another one, or the same one, was changed. -/
theorem get?_modify (h : Heap) (r s : ObjRef) (f : Object → Object) :
    (h.modify r f).get? s = if r = s then (h.get? s).map f else h.get? s := by
  by_cases hr : r.isNull
  · have hm : h.modify r f = h := by simp only [modify, hr, if_true]
    rw [hm]
    split
    · rename_i hrs
      subst hrs
      simp [get?, hr]
    · rfl
  · simp only [modify, hr, Bool.false_eq_true, if_false, get?]
    by_cases hs : s.isNull
    · have hrs : r ≠ s := fun e => hr (e ▸ hs)
      simp [hs, hrs]
    · simp only [hs, Bool.false_eq_true, if_false, Array.getElem?_modify]
      have hpos : (r.index - 1 = s.index - 1) ↔ r = s := by
        obtain ⟨i⟩ := r
        obtain ⟨j⟩ := s
        simp only [ObjRef.isNull, beq_iff_eq] at hr hs
        simp only [ObjRef.mk.injEq]
        omega
      simp only [hpos]

/-- What a reference denotes after an object was appended. -/
theorem get?_push (h : Heap) (o : Object) (s : ObjRef) :
    (h.push o).2.get? s = if s = (h.push o).1 then some o else h.get? s := by
  obtain ⟨j⟩ := s
  simp only [push, get?, ObjRef.isNull, ObjRef.mk.injEq, beq_iff_eq, Array.getElem?_push]
  by_cases hj : j = 0
  · simp [hj]
  · have hpos : j - 1 = h.objects.size ↔ j = h.objects.size + 1 := by omega
    simp only [hj, if_false, hpos]

theorem get?_push_self (h : Heap) (o : Object) : (h.push o).2.get? (h.push o).1 = some o := by
  rw [get?_push, if_pos rfl]

/-- The reference of an object that is appended did not denote anything before. -/
theorem get?_push_fst (h : Heap) (o : Object) : h.get? (h.push o).1 = none := by
  simp [push, get?, ObjRef.isNull]

end Heap

namespace Kernel

variable {k k' : Kernel} {t u : ThreadId} {th : Thread}

/-! ## Threads -/

theorem thread_eq_ok {th : Thread} : k.thread t = .ok th ↔ k.threads[t.index]? = some th := by
  unfold thread
  split <;> simp_all

/-- The top frame of a thread. -/
theorem topFrame_eq_ok {f : Frame} :
    k.topFrame t = .ok f ↔ ∃ th rest, k.threads[t.index]? = some th ∧ th.frames = f :: rest := by
  unfold topFrame
  cases hth : k.thread t with
  | error e =>
    have hnone : ¬ ∃ th, k.threads[t.index]? = some th := by
      rintro ⟨th, h⟩
      rw [← thread_eq_ok, hth] at h
      cases h
    simp only [reduceCtorEq, false_iff]
    rintro ⟨th, -, h, -⟩
    exact hnone ⟨th, h⟩
  | ok th =>
    rw [thread_eq_ok] at hth
    simp only [hth, Option.some.injEq, Thread.top]
    constructor
    · intro h
      cases hf : th.frames with
      | nil => simp [hf] at h
      | cons g rest =>
        simp only [hf, Except.ok.injEq] at h
        exact ⟨th, rest, rfl, by rw [hf, h]⟩
    · rintro ⟨_, rest, rfl, h⟩
      simp [h]

/-- The top frame depends on the threads alone. -/
theorem topFrame_congr (h : k'.threads = k.threads) (t : ThreadId) :
    k'.topFrame t = k.topFrame t := by
  unfold topFrame thread
  rw [h]

theorem getElem?_modifyThread (k : Kernel) (t u : ThreadId) (f : Thread → Thread) :
    (k.modifyThread t f).threads[u.index]? =
      if t = u then (k.threads[u.index]?).map f else k.threads[u.index]? := by
  obtain ⟨i⟩ := t
  obtain ⟨j⟩ := u
  simp only [modifyThread, Array.getElem?_modify, ThreadId.mk.injEq]

theorem getElem?_wake (k : Kernel) (s : ThreadStatus) (u : ThreadId) :
    (k.wake s).threads[u.index]? =
      (k.threads[u.index]?).map fun th =>
        if th.status = s then { th with status := .runnable } else th := by
  simp only [wake, Array.getElem?_map]

theorem getElem?_addThread (k : Kernel) (r : ObjRef) (u : ThreadId) :
    (k.addThread r).2.threads[u.index]? =
      if u = (k.addThread r).1 then some { id := (k.addThread r).1, object := r }
      else k.threads[u.index]? := by
  obtain ⟨j⟩ := u
  simp only [addThread, Array.getElem?_push, ThreadId.mk.injEq]

/-! ### Frames of threads -/

/-- The frames of a thread, the top one first. -/
def frames (k : Kernel) (t : ThreadId) : List Frame :=
  ((k.threads[t.index]?).map Thread.frames).getD []

theorem frames_of_getElem? (h : k.threads[t.index]? = some th) : k.frames t = th.frames := by
  simp only [frames, h, Option.map_some, Option.getD_some]

theorem frames_congr (h : k'.threads = k.threads) (t : ThreadId) : k'.frames t = k.frames t := by
  unfold frames
  rw [h]

/-- A thread with frames is there. -/
theorem exists_of_frames {f : Frame} {rest : List Frame} (h : k.frames t = f :: rest) :
    ∃ th, k.threads[t.index]? = some th ∧ th.frames = f :: rest := by
  unfold frames at h
  cases hth : k.threads[t.index]? with
  | none => simp [hth] at h
  | some th =>
    rw [hth] at h
    exact ⟨th, rfl, h⟩

theorem topFrame_eq_ok_iff {f : Frame} : k.topFrame t = .ok f ↔ ∃ rest, k.frames t = f :: rest := by
  rw [topFrame_eq_ok]
  constructor
  · rintro ⟨th, rest, hth, hframes⟩
    exact ⟨rest, (frames_of_getElem? hth).trans hframes⟩
  · rintro ⟨rest, h⟩
    obtain ⟨th, hth, hframes⟩ := exists_of_frames h
    exact ⟨th, rest, hth, hframes⟩

/-- The frame on top after it was replaced. -/
theorem topFrame_setTop {f : Frame} (h : k.topFrame t = .ok f) (g : Frame) :
    (k.modifyThread t (·.setTop g)).topFrame t = .ok g := by
  obtain ⟨th, rest, hth, -⟩ := topFrame_eq_ok.mp h
  refine topFrame_eq_ok.mpr ⟨th.setTop g, th.frames.tail, ?_, rfl⟩
  rw [getElem?_modifyThread, if_pos rfl, hth]
  rfl

theorem frames_modifyThread (h : k.threads[t.index]? = some th) (g : Thread → Thread) :
    (k.modifyThread t g).frames t = (g th).frames := by
  refine frames_of_getElem? ?_
  rw [getElem?_modifyThread, if_pos rfl, h]
  rfl

theorem frames_modifyThread_of_ne (h : t ≠ u) (g : Thread → Thread) :
    (k.modifyThread t g).frames u = k.frames u := by
  unfold frames
  rw [getElem?_modifyThread, if_neg h]

/-- A change of threads that leaves their frames alone. -/
theorem frames_modifyThread_of_eq {g : Thread → Thread} (hg : ∀ th, (g th).frames = th.frames)
    (u : ThreadId) : (k.modifyThread t g).frames u = k.frames u := by
  unfold frames
  rw [getElem?_modifyThread]
  split
  · rw [Option.map_map]
    exact congrArg (Option.getD · []) (Option.map_congr fun th _ => hg th)
  · rfl

theorem frames_wake (s : ThreadStatus) (u : ThreadId) : (k.wake s).frames u = k.frames u := by
  unfold frames
  rw [getElem?_wake, Option.map_map]
  refine congrArg (Option.getD · []) (Option.map_congr fun th _ => ?_)
  dsimp only [Function.comp_apply]
  split <;> rfl

/-- A thread that is added has no frames yet. -/
theorem frames_addThread (k : Kernel) (r : ObjRef) (u : ThreadId) :
    (k.addThread r).2.frames u = k.frames u := by
  unfold frames
  rw [getElem?_addThread]
  split
  · rename_i hu
    subst hu
    simp [addThread]
  · rfl

/-! ## Objects -/

theorem object_eq_ok {r : ObjRef} {o : Object} : k.object r = .ok o ↔ k.heap.get? r = some o := by
  unfold object
  split <;> simp_all

/-- The object that a reference denotes after a monitor was replaced. -/
theorem get?_setMonitor (k : Kernel) (r s : ObjRef) (m : Monitor) :
    (k.setMonitor r m).heap.get? s =
      if r = s then (k.heap.get? s).map fun o => { o with monitor := m } else k.heap.get? s :=
  Heap.get?_modify k.heap r s _

/-! ## Classes -/

/-- The class objects, by number of their classes. -/
def classObjects (k : Kernel) : Array ObjRef := k.classes.map ClassState.object

theorem classObject_eq_ok {c : ClassId} {r : ObjRef} :
    k.classObject c = .ok r ↔ k.classObjects[c.index]? = some r := by
  unfold classObject classState classObjects
  rw [Array.getElem?_map]
  cases k.classes[c.index]? with
  | none => simp [Except.map]
  | some s => simp [Except.map]

/-- The states of the classes, with one of them marked as initialized that far. -/
def marked (k : Kernel) (c : ClassId) (s : ClassStatus) : Array ClassState :=
  k.classes.modify c.index fun cs => { cs with status := s }

/-- Classes keep their class objects when one of them is marked. -/
theorem map_object_marked (k : Kernel) (c : ClassId) (s : ClassStatus) :
    (k.marked c s).map ClassState.object = k.classObjects := by
  unfold marked classObjects
  apply Array.ext_getElem?
  intro i
  simp only [Array.getElem?_map, Array.getElem?_modify]
  split
  · cases k.classes[i]? with
    | none => rfl
    | some cs => rfl
  · rfl

/-- Setting how far a class is initialized marks the class, which must be there. -/
theorem setClassStatus_eq_ok {c : ClassId} {s : ClassStatus} {k' : Kernel} :
    k.setClassStatus c s = .ok k' ↔
      c.index < k.classes.size ∧ k' = { k with classes := k.marked c s } := by
  unfold setClassStatus marked
  split
  · rename_i h
    simp only [h, Except.ok.injEq, true_and]
    exact eq_comm
  · simp [*]

theorem classStatus_eq_ok {c : ClassId} {s : ClassStatus} :
    k.classStatus c = .ok s ↔ ∃ cs, k.classes[c.index]? = some cs ∧ cs.status = s := by
  unfold classStatus classState
  cases k.classes[c.index]? with
  | none => simp [Except.map]
  | some cs => simp [Except.map]

/-- How far classes are initialized depends on the states of the classes alone. -/
theorem classStatus_congr {k' : Kernel} (h : k'.classes = k.classes) :
    k'.classStatus = k.classStatus := by
  funext c
  unfold classStatus classState
  rw [h]

/-- How far a class is initialized after one was marked. -/
theorem classStatus_of_marked {k' : Kernel} {d : ClassId} {s : ClassStatus}
    (h : k'.classes = k.marked d s) (c : ClassId) :
    k'.classStatus c = if d = c then (k.classStatus c).map fun _ => s else k.classStatus c := by
  obtain ⟨i⟩ := c
  obtain ⟨j⟩ := d
  simp only [classStatus, classState, h, marked, Array.getElem?_modify, ClassId.mk.injEq]
  by_cases hji : j = i
  · simp only [if_pos hji]
    cases k.classes[i]? with
    | none => rfl
    | some cs => rfl
  · simp only [if_neg hji]

/-- Marking a class leaves the others alone. -/
theorem classStatus_marked_of_ne {c d : ClassId} {s : ClassStatus} (h : c ≠ d) :
    ({ k with classes := k.marked c s } : Kernel).classStatus d = k.classStatus d := by
  rw [classStatus_of_marked rfl, if_neg h]

/-- How far classes are initialized after one of them was marked. -/
theorem classStatus_marked {c d : ClassId} {s s' : ClassStatus} :
    ({ k with classes := k.marked c s } : Kernel).classStatus d = .ok s' ↔
      if c = d then s = s' ∧ ∃ s₀, k.classStatus d = .ok s₀ else k.classStatus d = .ok s' := by
  rw [classStatus_of_marked rfl]
  split
  · cases k.classStatus d with
    | error e => simp [Except.map]
    | ok s₀ => simp [Except.map]
  · rfl

/-- The object whose monitor a method takes: a class object, or the receiver. -/
theorem lockTarget_eq_ok {m : Method} {receiver r : ObjRef} :
    k.lockTarget m receiver = .ok r ↔
      if m.isStatic then ∃ c, m.classId? = some c ∧ k.classObjects[c.index]? = some r
      else receiver = r := by
  unfold lockTarget
  split
  · cases m.classId? with
    | none => simp
    | some c => simp [classObject_eq_ok]
  · simp

/-- The object whose monitor a method takes depends on the class objects alone. -/
theorem lockTarget_congr (h : k'.classObjects = k.classObjects) {m : Method}
    {receiver r : ObjRef} : k'.lockTarget m receiver = .ok r ↔ k.lockTarget m receiver = .ok r := by
  rw [lockTarget_eq_ok, lockTarget_eq_ok, h]

end Kernel

end Interleave

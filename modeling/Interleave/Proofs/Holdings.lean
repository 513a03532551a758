import Interleave.Proofs.Step.Advance

/-!
# Holding monitors and needing them

How often a thread holds a monitor, and how many of its activations need it. If monitors are taken
by synchronized methods alone, the moves that enter and leave a method change both counts alike, and
the others change neither: what a thread holds beyond its needs stays the same.
-/

namespace Interleave

/-! ## The two counts -/

/-- How often a thread holds a monitor. -/
def Monitor.heldBy (m : Monitor) (t : ThreadId) : Nat := if m.owner? = some t then m.count else 0

/-- How often a thread holds the monitor of an object. -/
def Heap.heldBy (h : Heap) (r : ObjRef) (t : ThreadId) : Nat :=
  match h.get? r with
  | some o => o.monitor.heldBy t
  | none => 0

/-- Does an activation need the monitor of an object? -/
def Frame.needs (k : Kernel) (r : ObjRef) (f : Frame) : Bool :=
  f.method.isSynchronized && (k.lockTarget f.method f.receiver).toOption == some r

/-- How many activations on a thread need the monitor of an object. -/
def Thread.activations (k : Kernel) (r : ObjRef) (th : Thread) : Nat :=
  th.frames.countP (Frame.needs k r)

/-- How many activations on the thread with a number need the monitor of an object. -/
def Kernel.activations (k : Kernel) (r : ObjRef) (u : ThreadId) : Nat :=
  (k.frames u).countP (Frame.needs k r)

/-- A method does not take or give back a monitor by an instruction. -/
def Method.HasNoMonitorCode (m : Method) : Prop :=
  ∀ i ∈ m.code.toList, i.op ≠ .monitorEnter ∧ i.op ≠ .monitorExit

/-- No method of a program takes or gives back a monitor by an instruction. -/
def Program.HasNoMonitorCode (p : Program) : Prop :=
  ∀ m, p.Declares m → ∀ i ∈ m.code.toList, i.op ≠ .monitorEnter ∧ i.op ≠ .monitorExit

instance (p : Program) : Decidable p.HasNoMonitorCode :=
  decidable_of_iff' _ Program.forall_declares_iff

theorem Method.hasNoMonitorCode_of_stub {m : Method}
    (h : ∃ call ∈ [Opcode.invokeClinit, .invokeStatic, .invokeSpecial, .invokeVirtual],
      m.code.toList.map Instruction.op = [call, .directCallReturn]) : m.HasNoMonitorCode := by
  intro i hi
  obtain ⟨call, hcall, hops⟩ := h
  have hop : i.op ∈ [call, .directCallReturn] := hops ▸ List.mem_map_of_mem hi
  simp only [List.mem_cons, List.not_mem_nil, or_false] at hcall hop
  rcases hop with hop | hop
  · rcases hcall with rfl | rfl | rfl | rfl <;> rw [hop] <;> decide
  · rw [hop]
    decide

theorem Method.IsStub.hasNoMonitorCode {m : Method} (h : m.IsStub) : m.HasNoMonitorCode :=
  Method.hasNoMonitorCode_of_stub h.code

namespace Monitor

variable {m m' : Monitor} {t u : ThreadId}

/-- Who acquires a monitor holds it once more. -/
theorem heldBy_of_lock (h : m.lock t = some m') :
    m'.heldBy u = m.heldBy u + if u = t then 1 else 0 := by
  cases m with
  | free =>
    cases h
    by_cases hu : u = t
    · simp [heldBy, owner?, count, hu]
    · simp [heldBy, owner?, hu, Ne.symm hu]
  | held v n =>
    simp only [lock] at h
    split at h
    · rename_i hv
      subst hv
      cases h
      by_cases hu : u = v
      · simp [heldBy, owner?, count, hu]
      · simp [heldBy, owner?, hu, Ne.symm hu]
    · cases h

/-- Who releases a monitor held it once more before. -/
theorem heldBy_of_unlock (h : m.unlock t = some m') :
    m.heldBy u = m'.heldBy u + if u = t then 1 else 0 := by
  cases m with
  | free => cases h
  | held v n =>
    simp only [unlock] at h
    split at h
    · rename_i hv
      subst hv
      cases n with
      | zero =>
        cases h
        by_cases hu : u = v
        · simp [heldBy, owner?, count, hu]
        · simp [heldBy, owner?, hu, Ne.symm hu]
      | succ n =>
        cases h
        by_cases hu : u = v
        · simp [heldBy, owner?, count, hu]
        · simp [heldBy, owner?, hu, Ne.symm hu]
    · cases h

theorem isSome_owner?_iff (m : Monitor) : m.owner?.isSome = true ↔ 0 < m.count := by
  cases m with
  | free => simp [owner?, count]
  | held u n => simp [owner?, count]

end Monitor

namespace Frame

variable {k k' : Kernel} {r : ObjRef} {f f' : Frame}

theorem needs_iff : f.needs k r = true ↔
    f.method.isSynchronized = true ∧ k.lockTarget f.method f.receiver = .ok r := by
  unfold needs
  cases k.lockTarget f.method f.receiver with
  | ok s => simp [Except.toOption]
  | error e => simp [Except.toOption]

/-- What an activation needs depends on the class objects alone. -/
theorem needs_congr (h : k'.classObjects = k.classObjects) (r : ObjRef) :
    Frame.needs k' r = Frame.needs k r := by
  funext f
  rw [Bool.eq_iff_iff, needs_iff, needs_iff, Kernel.lockTarget_congr h]

/-- What an activation needs depends on its call alone. -/
theorem SameCall.needs (h : f.SameCall f') : f'.needs k r = f.needs k r := by
  rw [Bool.eq_iff_iff, needs_iff, needs_iff, h.method, h.receiver]

theorem needs_of_unsynchronized (h : f.method.isSynchronized = false) : f.needs k r = false := by
  simp [Frame.needs, h]

theorem needs_of_isStub (h : f.method.IsStub) : f.needs k r = false :=
  needs_of_unsynchronized h.synchronized

end Frame

namespace Heap

variable {h h' : Heap} {r s : ObjRef} {t u : ThreadId}

/-- Allocation and work on data do not change how often monitors are held. -/
theorem Extends.heldBy (hh : h.Extends h') (r : ObjRef) (u : ThreadId) :
    h'.heldBy r u = h.heldBy r u := by
  unfold Heap.heldBy
  cases ho : h.get? r with
  | some o =>
    obtain ⟨o', ho', -, hm⟩ := hh.kept r o ho
    simp only [ho', hm]
  | none =>
    cases ho' : h'.get? r with
    | none => rfl
    | some o' =>
      simp only [hh.fresh r o' ho ho']
      rfl

end Heap

namespace Kernel

variable {k k' : Kernel} {r s : ObjRef} {o : Object} {m : Monitor} {t u : ThreadId}

theorem heldBy_setMonitor (ho : k.heap.get? r = some o) :
    (k.setMonitor r m).heap.heldBy s u = if r = s then m.heldBy u else k.heap.heldBy s u := by
  unfold Heap.heldBy
  rw [get?_setMonitor]
  by_cases hrs : r = s
  · subst hrs
    simp [ho]
  · simp [hrs]

/-- Who acquires a monitor holds it once more; otherwise nothing changes. -/
theorem heldBy_lock (ho : k.heap.get? r = some o) (hm : o.monitor.lock t = some m) (s : ObjRef)
    (u : ThreadId) : (k.setMonitor r m).heap.heldBy s u =
      k.heap.heldBy s u + if r = s ∧ u = t then 1 else 0 := by
  rw [heldBy_setMonitor ho]
  by_cases hrs : r = s
  · subst hrs
    simp only [if_true, true_and, Heap.heldBy, ho, Monitor.heldBy_of_lock hm]
  · simp [hrs]

/-- Who releases a monitor held it once more before; otherwise nothing changes. -/
theorem heldBy_released (ho : k.heap.get? r = some o) (hm : o.monitor.unlock t = some m)
    (s : ObjRef) (u : ThreadId) : k.heap.heldBy s u =
      (k.released r m).heap.heldBy s u + if r = s ∧ u = t then 1 else 0 := by
  have hheap : (k.released r m).heap = (k.setMonitor r m).heap := by
    unfold released
    split <;> rfl
  rw [hheap, heldBy_setMonitor ho]
  by_cases hrs : r = s
  · subst hrs
    simp only [if_true, true_and, Heap.heldBy, ho, Monitor.heldBy_of_unlock hm]
  · simp [hrs]

/-- Who takes the monitor of an activation holds what the activation needs once more. -/
theorem heldBy_acquired {h : Heap} {g : Frame} (ha : k.Acquired t g.method g.receiver h)
    (r : ObjRef) (u : ThreadId) :
    h.heldBy r u = k.heap.heldBy r u + if g.needs k r = true ∧ u = t then 1 else 0 := by
  cases ha with
  | unneeded hs =>
    have hneeds : g.needs k r = false := by simp [Frame.needs, hs]
    simp [hneeds]
  | @locked s o l hs target object locked =>
    have hneeds : g.needs k r = true ↔ s = r := by
      rw [Frame.needs_iff, target]
      simp [hs]
    simp only [heldBy_lock object locked, hneeds]

theorem Released.frames {n : Method} {receiver : ObjRef} (h : k.Released t n receiver k')
    (u : ThreadId) : k'.frames u = k.frames u := by
  cases h with
  | unneeded => rfl
  | unlocked => exact k.frames_released _ _ u
  | gone => rfl

theorem Released.heldBy_of_ne {n : Method} {receiver : ObjRef} (h : k.Released t n receiver k')
    (hu : u ≠ t) (r : ObjRef) : k'.heap.heldBy r u = k.heap.heldBy r u := by
  cases h with
  | unneeded => rfl
  | unlocked _ _ object unlocked =>
    exact ((heldBy_released object unlocked r u).trans (by simp [hu])).symm
  | gone => rfl

/-- Moves of one thread do not change how often the others hold monitors. -/
theorem Move.heldBy_of_ne {p : Program} (h : Move p t k k') (hu : u ≠ t) (r : ObjRef) :
    k'.heap.heldBy r u = k.heap.heldBy r u := by
  cases h with
  | frame => rfl
  | heap extension => exact extension.heldBy r u
  | settle => rfl
  | initializer => rfl
  | lock _ _ object locked => exact (heldBy_lock object locked r u).trans (by simp [hu])
  | unlock _ _ object unlocked =>
    exact ((heldBy_released object unlocked r u).trans (by simp [hu])).symm
  | enter _ _ _ acquired => exact (heldBy_acquired acquired r u).trans (by simp [hu])
  | leave _ _ released => exact released.heldBy_of_ne hu r
  | @start s =>
    have hextends : k.heap.Extends (k.heap.modify s fun o => { o with shared := true }) :=
      .modify k.heap s fun _ => ⟨rfl, rfl⟩
    exact hextends.heldBy r u

/-! ## Activations -/

theorem activations_of_thread {th : Thread} (h : k.threads[u.index]? = some th) (r : ObjRef) :
    k.activations r u = th.activations k r := by
  unfold activations Thread.activations
  rw [frames_of_getElem? h]

/-- The same frames need the same, as long as classes keep their objects. -/
theorem activations_congr (hobjects : k'.classObjects = k.classObjects)
    (hframes : k'.frames u = k.frames u) (r : ObjRef) :
    k'.activations r u = k.activations r u := by
  unfold activations
  rw [hframes, Frame.needs_congr hobjects]

theorem activations_cons (hobjects : k'.classObjects = k.classObjects) {f : Frame}
    (hframes : k'.frames u = f :: k.frames u) (r : ObjRef) :
    k'.activations r u = k.activations r u + if f.needs k r = true then 1 else 0 := by
  unfold activations
  rw [hframes, Frame.needs_congr hobjects, List.countP_cons]

theorem frames_entered {f : Frame} (top : k.topFrame t = .ok f) (f' g : Frame) (h : Heap)
    (cs : Array ClassState) : ∃ rest, k.frames t = f :: rest ∧
      (({ k with heap := h, classes := cs }.modifyThread t (·.setTop f')).modifyThread t
        (·.pushFrame g)).frames t = g :: f' :: rest ∧
      ∀ u, u ≠ t → (({ k with heap := h, classes := cs }.modifyThread t
        (·.setTop f')).modifyThread t (·.pushFrame g)).frames u = k.frames u := by
  obtain ⟨th, rest, hth, hframes⟩ := topFrame_eq_ok.mp top
  have hset : (({ k with heap := h, classes := cs } : Kernel).modifyThread t
      (·.setTop f')).threads[t.index]? = some (th.setTop f') := by
    rw [getElem?_modifyThread, if_pos rfl]
    exact congrArg (Option.map _) hth
  refine ⟨rest, (frames_of_getElem? hth).trans hframes, ?_, fun u hu => ?_⟩
  · rw [frames_modifyThread hset]
    simp [Thread.pushFrame, Thread.setTop, hframes]
  · rw [frames_modifyThread_of_ne (Ne.symm hu), frames_modifyThread_of_ne (Ne.symm hu)]
    rfl

/-! ## What is held beyond what is needed -/

/-- Threads hold as many monitors beyond their needs as before. -/
structure SameSurplus (k k' : Kernel) : Prop where
  objects : k'.classObjects = k.classObjects
  counts : ∀ r u, k'.heap.heldBy r u + k.activations r u = k.heap.heldBy r u + k'.activations r u

namespace SameSurplus

variable {k'' : Kernel}

protected theorem refl (k : Kernel) : SameSurplus k k := ⟨rfl, fun _ _ => rfl⟩

protected theorem trans (h : SameSurplus k k') (h' : SameSurplus k' k'') : SameSurplus k k'' where
  objects := h'.objects.trans h.objects
  counts r u := by
    have hfirst := h.counts r u
    have hlast := h'.counts r u
    omega

/-- A change that leaves alone what is held, and the frames. -/
theorem of_frames (hheld : ∀ r u, k'.heap.heldBy r u = k.heap.heldBy r u)
    (hobjects : k'.classObjects = k.classObjects) (hframes : ∀ u, k'.frames u = k.frames u) :
    SameSurplus k k' := by
  refine ⟨hobjects, fun r u => ?_⟩
  rw [hheld, activations_congr hobjects (hframes u)]

/-- The frame on top has been worked on. -/
theorem of_top {f f' : Frame} {rest : List Frame} (hsame : f.SameCall f')
    (hheap : k'.heap = k.heap) (hobjects : k'.classObjects = k.classObjects)
    (hbefore : k.frames t = f :: rest) (hafter : k'.frames t = f' :: rest)
    (hothers : ∀ u, u ≠ t → k'.frames u = k.frames u) : SameSurplus k k' := by
  refine ⟨hobjects, fun r u => ?_⟩
  rw [hheap]
  by_cases hu : u = t
  · subst hu
    unfold activations
    rw [Frame.needs_congr hobjects, hbefore, hafter]
    simp only [List.countP_cons, hsame.needs]
  · rw [activations_congr hobjects (hothers u hu)]

/-- A frame is put on top that needs nothing. -/
theorem of_pushed {f : Frame} (hfree : f.method.isSynchronized = false)
    (hheld : ∀ r u, k'.heap.heldBy r u = k.heap.heldBy r u)
    (hobjects : k'.classObjects = k.classObjects) (hmine : k'.frames t = f :: k.frames t)
    (hothers : ∀ u, u ≠ t → k'.frames u = k.frames u) : SameSurplus k k' := by
  refine ⟨hobjects, fun r u => ?_⟩
  rw [hheld]
  by_cases hu : u = t
  · subst hu
    rw [activations_cons hobjects hmine, Frame.needs_of_unsynchronized hfree]
    simp
  · rw [activations_congr hobjects (hothers u hu)]

/-- Entering a method adds an activation, and takes the monitor that it needs. -/
theorem of_entered {f f' g : Frame} {rest : List Frame} {heap : Heap} (hsame : f.SameCall f')
    (hacquired : k.Acquired t g.method g.receiver heap) (hheap : k'.heap = heap)
    (hobjects : k'.classObjects = k.classObjects) (hbefore : k.frames t = f :: rest)
    (hafter : k'.frames t = g :: f' :: rest) (hothers : ∀ u, u ≠ t → k'.frames u = k.frames u) :
    SameSurplus k k' := by
  refine ⟨hobjects, fun r u => ?_⟩
  -- both counts go up by what the new frame needs
  rw [hheap, heldBy_acquired hacquired]
  by_cases hu : u = t
  · subst hu
    unfold activations
    rw [Frame.needs_congr hobjects, hbefore, hafter]
    simp only [List.countP_cons, hsame.needs, and_true]
    omega
  · rw [activations_congr hobjects (hothers u hu)]
    simp [hu]

theorem enter {f f' g : Frame} {heap : Heap} {cs : Array ClassState}
    (top : k.topFrame t = .ok f) (same : f.SameCall f')
    (acquired : k.Acquired t g.method g.receiver heap)
    (objects : cs.map ClassState.object = k.classObjects) :
    SameSurplus k (({ k with heap, classes := cs }.modifyThread t (·.setTop f')).modifyThread t
      (·.pushFrame g)) := by
  obtain ⟨rest, hbefore, hafter, hothers⟩ := frames_entered top f' g heap cs
  exact .of_entered same acquired rfl objects hbefore hafter hothers

/-- Leaving a method takes away an activation, and gives back the monitor that it needed. The thread
must hold what it needs. -/
theorem leave {th : Thread} {f : Frame} {rest : List Frame}
    (covered : ∀ r, k.activations r t ≤ k.heap.heldBy r t)
    (thread : k.threads[t.index]? = some th) (frames : th.frames = f :: rest)
    (released : (k.modifyThread t fun th => { th with frames := rest }).Released t f.method
      f.receiver k') (hobjects : k'.classObjects = k.classObjects) : SameSurplus k k' := by
  have hrest : ∀ u, k'.frames u = (k.modifyThread t fun th => { th with frames := rest }).frames u :=
    released.frames
  have hbefore : ∀ r, k.activations r t =
      k'.activations r t + if f.needs k r = true then 1 else 0 := by
    intro r
    unfold activations
    rw [frames_of_getElem? thread, frames, hrest, frames_modifyThread thread,
      Frame.needs_congr hobjects, List.countP_cons]
  refine ⟨hobjects, fun r u => ?_⟩
  by_cases hu : u = t
  · subst hu
    rw [hbefore]
    cases released with
    | unneeded hs =>
      have hneeds : f.needs k r = false := by simp [Frame.needs, hs]
      simp [hneeds, Kernel.modifyThread]
    | @unlocked s o l hs target object unlocked =>
      have hneeds : f.needs k r = true ↔ s = r := by
        rw [Frame.needs_iff, show k.lockTarget f.method f.receiver = .ok s from target]
        simp [hs]
      have hheld := heldBy_released object unlocked r u
      simp only [and_true, ← hneeds] at hheld
      have hsame : (k.modifyThread u fun th => { th with frames := rest }).heap.heldBy r u =
        k.heap.heldBy r u := rfl
      omega
    | @gone s o hs target object owner =>
      -- the thread still holds the monitor of its top frame
      exfalso
      have hneeds : f.needs k s = true := Frame.needs_iff.mpr ⟨hs, target⟩
      have hheld := covered s
      rw [hbefore s, if_pos hneeds] at hheld
      replace object : k.heap.get? s = some o := object
      simp only [Heap.heldBy, object, Monitor.heldBy, if_neg owner] at hheld
      omega
  · have hsame : k'.heap.heldBy r u = k.heap.heldBy r u := released.heldBy_of_ne hu r
    rw [hsame, activations_congr hobjects]
    rw [hrest, frames_modifyThread_of_ne (Ne.symm hu)]

/-- A move leaves what is held beyond what is needed as it is, if it is not an instruction on
monitors and the thread holds what it needs. -/
theorem move {p : Program} (h : Move p t k k')
    (hcode : ∀ i, k.At t i → i.op ≠ .monitorEnter ∧ i.op ≠ .monitorExit)
    (hcovered : ∀ r, k.activations r t ≤ k.heap.heldBy r t) : SameSurplus k k' := by
  cases h with
  | @frame f f' top same =>
    obtain ⟨th, rest, hth, hframes⟩ := topFrame_eq_ok.mp top
    refine .of_top same rfl rfl ((frames_of_getElem? hth).trans hframes) ?_ fun u hu =>
      frames_modifyThread_of_ne (Ne.symm hu) _
    rw [frames_modifyThread hth]
    simp [Thread.setTop, hframes]
  | heap extension => exact .of_frames extension.heldBy rfl fun _ => rfl
  | settle c => exact .of_frames (fun _ _ => rfl) (k.map_object_marked c _) fun _ => rfl
  | @initializer _ _ _ stub _ _ _ made stands =>
    obtain ⟨f, top, -⟩ := stands
    obtain ⟨th, rest, hth, -⟩ := topFrame_eq_ok.mp top
    refine .of_pushed (f := Frame.enter stub .null)
      (Method.isStub_of_directCallStub made).synchronized (fun _ _ => rfl) rfl ?_ fun u hu =>
        frames_modifyThread_of_ne (Ne.symm hu) _
    rw [frames_modifyThread hth, frames_of_getElem? hth]
    rfl
  | lock stands op => exact absurd op (hcode _ stands).1
  | unlock stands op => exact absurd op (hcode _ stands).2
  | enter top same _ acquired marks => exact .enter top same acquired (objects_of_marks marks)
  | @leave f th rest k₁ cs thread frames released marks =>
    have hobjects : k₁.classObjects = k.classObjects := by
      unfold classObjects
      rw [released.classes]
      rfl
    refine (SameSurplus.leave hcovered thread frames released hobjects).trans ?_
    exact .of_frames (fun _ _ => rfl) (marks.objects.trans hobjects.symm) fun _ => rfl
  | @start s o run stub new object body made =>
    have hextends : k.heap.Extends ((k.addThread s).2.markShared s).heap :=
      Heap.Extends.modify k.heap s fun _ => ⟨rfl, rfl⟩
    have hadded : ((k.addThread s).2.markShared s).threads[(k.addThread s).1.index]? =
        some { id := (k.addThread s).1, object := s } := by
      show (k.addThread s).2.threads[(k.addThread s).1.index]? = _
      rw [getElem?_addThread, if_pos rfl]
    refine .of_pushed (t := (k.addThread s).1) (f := (Frame.enter stub s).pushed s.toSlot)
      (Method.isStub_of_directCallStub made).synchronized hextends.heldBy rfl ?_ fun u hu => ?_
    · rw [frames_modifyThread hadded]
      simp [Thread.pushFrame, frames, addThread]
    · rw [frames_modifyThread_of_ne (Ne.symm hu)]
      exact k.frames_addThread s u

end SameSurplus

/-! ## Orderly states -/

/-- Monitors are taken by synchronized methods alone, and threads hold what their activations
need. -/
structure Orderly (k : Kernel) : Prop where
  code : ∀ u, ∀ f ∈ k.frames u, f.method.HasNoMonitorCode
  covered : ∀ r u, k.activations r u ≤ k.heap.heldBy r u

namespace Orderly

theorem op_of_at (h : k.Orderly) {i : Instruction} (hi : k.At t i) :
    i.op ≠ .monitorEnter ∧ i.op ≠ .monitorExit := by
  obtain ⟨f, htop, hinstruction⟩ := hi
  obtain ⟨rest, hframes⟩ := topFrame_eq_ok_iff.mp htop
  refine h.code t f ?_ i (Frame.mem_code_of_instruction hinstruction)
  rw [hframes]
  exact List.mem_cons_self

/-- Frames may be taken away without giving back anything. -/
theorem of_sublist (h : k.Orderly) (hheap : k'.heap = k.heap)
    (hobjects : k'.classObjects = k.classObjects)
    (hframes : ∀ u, (k'.frames u).Sublist (k.frames u)) : k'.Orderly where
  code u f hf := h.code u f ((hframes u).subset hf)
  covered r u := by
    have hbefore := h.covered r u
    have hfewer : (k'.frames u).countP (Frame.needs k r) ≤ k.activations r u :=
      (hframes u).countP_le
    unfold activations
    rw [hheap, Frame.needs_congr hobjects]
    omega

/-- A change that leaves alone what is held beyond what is needed, and adds no code that works on
monitors. -/
theorem of_surplus (h : k.Orderly) (hsurplus : SameSurplus k k')
    (hcode : ∀ u, ∀ f ∈ k'.frames u, f.method.HasNoMonitorCode) : k'.Orderly where
  code := hcode
  covered r u := by
    have hbefore := h.covered r u
    have hcounts := hsurplus.counts r u
    omega

variable {p : Program}

/-- Threads come to run methods of the program and stubs only. -/
theorem code_of_advance (hp : p.HasNoMonitorCode) (h : k.Orderly) (hadv : Advance p t k k') :
    ∀ u, ∀ f ∈ k'.frames u, f.method.HasNoMonitorCode := by
  -- threads that are there keep their frames or enter methods, new ones run the body of a thread
  have hruns : ∀ m, p.Runs m → m.HasNoMonitorCode := fun m hm =>
    hm.elim (hp m) Method.IsStub.hasNoMonitorCode
  intro u f hf
  cases hth' : k'.threads[u.index]? with
  | none => simp [frames, hth'] at hf
  | some th' =>
    rw [frames_of_getElem? hth'] at hf
    cases hth : k.threads[u.index]? with
    | none =>
      rcases (hadv.new u th' hth' hth).2.2 f hf with henters | hbody
      · exact hruns _ henters.runs
      · exact hruns _ hbody.runs
    | some th =>
      obtain ⟨th'', hth'', hthread⟩ := hadv.old u th hth
      rw [hth'] at hth''
      cases hth''
      rcases hthread.methods f hf with henters | ⟨f₀, hf₀, he⟩
      · exact hruns _ henters.runs
      · rw [he]
        exact h.code u f₀ ((frames_of_getElem? hth).symm ▸ hf₀)

/-- Moves of a thread keep a state orderly, and what threads hold beyond their needs. -/
theorem moves (hp : p.HasNoMonitorCode) (h : k.Orderly)
    (hmoves : Relation.ReflTransGen (Move p t) k k') : SameSurplus k k' ∧ k'.Orderly := by
  induction hmoves with
  | refl => exact ⟨.refl k, h⟩
  | @tail k₁ k₂ _ hlast ih =>
    obtain ⟨hsurplus, hk₁⟩ := ih
    -- the move may be a return, which needs that the thread holds what it gives back
    have hmove : SameSurplus k₁ k₂ :=
      .move hlast (fun _ => hk₁.op_of_at) fun r => hk₁.covered r t
    exact ⟨hsurplus.trans hmove, hk₁.of_surplus hmove (hk₁.code_of_advance hp (.of_move hlast))⟩

/-- Performing an instruction keeps a state orderly, and what threads hold beyond their needs. -/
theorem perform (hp : p.HasNoMonitorCode) {i : Instruction} {w w' : Work} {out : Outcome}
    (h : w.kernel.Orderly) (hi : w.kernel.At t i) (hperform : Step.perform p t i w = .ok out w') :
    SameSurplus w.kernel w'.kernel ∧ w'.kernel.Orderly := by
  rcases Step.perform_eq_ok hi hperform with hran | ⟨-, hpaused⟩
  · exact h.moves hp hran.moves
  · cases hpaused with
    | @stalled w₁ s hmoved _ status =>
      obtain ⟨hsurplus, hw₁⟩ := h.moves hp hmoved.moves
      have hframes : ∀ u, (w₁.kernel.setStatus t s).frames u = w₁.kernel.frames u :=
        frames_modifyThread_of_eq fun _ => rfl
      rw [status.kernel]
      refine ⟨hsurplus.trans (.of_frames (fun _ _ => rfl) rfl hframes), ?_⟩
      exact hw₁.of_sublist rfl rfl fun u => (hframes u).symm ▸ .refl _
    | asked _ _ _ _ hmoved => exact h.moves hp hmoved.moves

end Orderly

end Kernel

end Interleave

import Interleave.Proofs.Layout
import Interleave.Proofs.Step.Alone
import Interleave.Proofs.Step.Floors

/-!
# Looking for a handler

An exception that is looking for a handler inspects the frames of its thread from the top: a frame
is left if it has no handler for the exception, down to the first firewall or to the bottom. What
has been left is accounted for frame by frame, `Kernel.Sheds`: each synchronized activation gives
back its monitor once, unless the thread does not own it any more, those that wait for a monitor
that comes free are woken, and the classes of initializers count as initialized.

Looking for a handler fails only if something is missing that it looks up: the current instruction
of a frame, the instruction at which a handler begins, or what a frame needs to be left.
-/

namespace Interleave

open Effect

/-- What is looked up when a frame is left is there. -/
structure Frame.Leavable (k : Kernel) (f : Frame) : Prop where
  target : f.method.isSynchronized = true →
    ∃ r o, k.lockTarget f.method f.receiver = .ok r ∧ k.heap.get? r = some o
  owner : f.method.attributes.isClassInit = true → ∀ c, f.method.classId? = some c →
    c.index < k.classes.size

namespace Kernel

variable {p : Program} {k k₁ k' : Kernel} {t u : ThreadId}

theorem size_classes (k : Kernel) : k.classes.size = k.classObjects.size := by
  simp [classObjects]

/-- Objects and class objects that are there stay. -/
structure Retains (k k' : Kernel) : Prop where
  classObjects : k'.classObjects = k.classObjects
  objects : ∀ r o, k.heap.get? r = some o → ∃ o', k'.heap.get? r = some o'

theorem Advance.retains (h : Advance p t k k') : Retains k k' where
  classObjects := h.classObjects
  objects r o ho := by
    obtain ⟨o', ho', -⟩ := h.objects r o ho
    exact ⟨o', ho'⟩

theorem Retains.target (h : Retains k k') {m : Method} {receiver : ObjRef}
    (htarget : ∃ r o, k.lockTarget m receiver = .ok r ∧ k.heap.get? r = some o) :
    ∃ r o, k'.lockTarget m receiver = .ok r ∧ k'.heap.get? r = some o := by
  obtain ⟨r, o, hr, ho⟩ := htarget
  obtain ⟨o', ho'⟩ := h.objects r o ho
  exact ⟨r, o', (lockTarget_congr h.classObjects).mpr hr, ho'⟩

theorem Retains.leavable (h : Retains k k') {f : Frame} (hf : f.Leavable k) : f.Leavable k' where
  target hs := h.target (hf.target hs)
  owner hinit c hc := by
    rw [size_classes, h.classObjects, ← size_classes]
    exact hf.owner hinit c hc

/-! ## What is given back -/

/-- What a thread has done that has left some frames. -/
structure Sheds (t : ThreadId) (left : List Frame) (k k' : Kernel) : Prop where
  /-- Others have been woken if they waited for a monitor that has come free. -/
  threads : Gives t k k'
  classObjects : k'.classObjects = k.classObjects
  /-- Each activation has given back once the monitor that it needed, if the thread still owned
  it. -/
  monitors : ∀ r u, k'.heap.heldBy r u =
    k.heap.heldBy r u - if u = t then left.countP (Frame.needs k r) else 0
  /-- Nothing else of objects has changed. -/
  objects : ∀ r, ∃ m, k'.heap.get? r = (k.heap.get? r).map fun o => { o with monitor := m }
  /-- Classes whose initializers have been left count as initialized. -/
  classes : ∀ c, k'.classStatus c =
    if left.any (·.method.isClassInitOf c) then .ok .initialized else k.classStatus c

theorem Sheds.retains {left : List Frame} (h : Sheds t left k k') : Retains k k' where
  classObjects := h.classObjects
  objects r o ho := by
    obtain ⟨m, ho'⟩ := h.objects r
    exact ⟨{ o with monitor := m }, by rw [ho', ho]; rfl⟩

/-- Nothing has been left, and the thread has worked on its top frame at most. -/
theorem Sheds.nil (h : Alone t k k') (hheap : k'.heap = k.heap)
    (hclasses : k'.classes = k.classes) : Sheds t [] k k' where
  threads := h.gives
  classObjects := congrArg (Array.map ClassState.object) hclasses
  monitors r u := by simp [hheap]
  objects r := by
    rw [hheap]
    cases k.heap.get? r with
    | none => exact ⟨.free, rfl⟩
    | some o => exact ⟨o.monitor, rfl⟩
  classes c := congrFun (classStatus_congr hclasses) c

theorem Sheds.append {left left' : List Frame} (h : Sheds t left k k₁) (h' : Sheds t left' k₁ k') :
    Sheds t (left ++ left') k k' where
  threads := h.threads.trans h'.threads
  classObjects := h'.classObjects.trans h.classObjects
  monitors r u := by
    rw [h'.monitors, h.monitors, Frame.needs_congr h.classObjects, List.countP_append]
    split <;> omega
  objects r := by
    obtain ⟨m, ho₁⟩ := h.objects r
    obtain ⟨m', ho'⟩ := h'.objects r
    exact ⟨m', by rw [ho', ho₁, Option.map_map]; rfl⟩
  classes c := by
    rw [h'.classes, h.classes, List.any_append]
    cases left.any (·.method.isClassInitOf c) <;>
      cases left'.any (·.method.isClassInitOf c) <;> rfl

/-- The monitor of a method that is left. -/
theorem Released.heldBy {f : Frame} (h : k.Released t f.method f.receiver k') (r : ObjRef)
    (u : ThreadId) :
    k'.heap.heldBy r u = k.heap.heldBy r u - if u = t ∧ f.needs k r = true then 1 else 0 := by
  cases h with
  | unneeded hs => simp [Frame.needs_of_unsynchronized hs]
  | @unlocked s o l hs target object unlocked =>
    have hneeds : f.needs k r = true ↔ s = r := by
      rw [Frame.needs_iff, target]
      simp [hs]
    rw [heldBy_released object unlocked r u]
    simp only [hneeds]
    split <;> split <;> simp_all
  | @gone s o hs target object owner =>
    have hneeds : f.needs k r = true ↔ s = r := by
      rw [Frame.needs_iff, target]
      simp [hs]
    -- the thread does not hold the monitor
    by_cases hr : u = t ∧ f.needs k r = true
    · obtain ⟨rfl, hneeded⟩ := hr
      rw [hneeds] at hneeded
      subst hneeded
      simp [Heap.heldBy, object, Monitor.heldBy, owner]
    · simp [hr]

theorem Released.objects {m : Method} {receiver : ObjRef} (h : k.Released t m receiver k')
    (r : ObjRef) : ∃ l, k'.heap.get? r = (k.heap.get? r).map fun o => { o with monitor := l } := by
  have hsame : ∃ l, k.heap.get? r = (k.heap.get? r).map fun o => { o with monitor := l } := by
    cases k.heap.get? r with
    | none => exact ⟨.free, rfl⟩
    | some o => exact ⟨o.monitor, rfl⟩
  cases h with
  | unneeded => exact hsame
  | @unlocked s _ l =>
    have hheap : (k.released s l).heap = (k.setMonitor s l).heap := by
      unfold released
      split <;> rfl
    rw [hheap, get?_setMonitor]
    split
    · exact ⟨l, rfl⟩
    · exact hsame
  | gone => exact hsame

end Kernel

namespace Call

variable {t : ThreadId} {w w' : Work} {f : Frame}

/-- What has been left when a frame has been left. -/
theorem sheds_of_leave (hf : f.Leavable w.kernel) (h : leave t w = .ok f w') :
    w.kernel.Sheds t [f] w'.kernel := by
  have hgives : w.kernel.Gives t w'.kernel :=
    Work.AdmitsLeaving.leave (t := t) (R := Work.On (Kernel.Gives t)) h
  obtain ⟨th, rest, k, cs, hth, hframes, hreleased, hmarks, hbecomes⟩ := leave_eq_ok h
  rw [hbecomes.kernel] at hgives ⊢
  refine ⟨hgives, hmarks.objects, fun r u => ?_, hreleased.objects, fun c => ?_⟩
  · refine (hreleased.heldBy r u).trans ?_
    have hone : [f].countP (Frame.needs w.kernel r) =
        if f.needs w.kernel r = true then 1 else 0 := List.countP_singleton
    rw [hone, ite_and]
    rfl
  · show ({ w.kernel with classes := cs } : Kernel).classStatus c = _
    rw [hmarks.classStatus c]
    by_cases hinit : f.method.isClassInitOf c = true
    · have hclass : f.method.attributes.isClassInit = true ∧ f.method.classId? = some c := by
        simpa [Method.isClassInitOf] using hinit
      have hsize := hf.owner hclass.1 c hclass.2
      obtain ⟨s, hs⟩ : ∃ s, w.kernel.classStatus c = .ok s :=
        ⟨_, Kernel.classStatus_eq_ok.mpr ⟨_, Array.getElem?_eq_getElem hsize, rfl⟩⟩
      simp [hinit, hs, Except.map]
    · simp [hinit]

/-- A monitor can be given back if its object is there. -/
theorem exists_releaseMonitor {r : ObjRef} {o : Object}
    (hr : w.kernel.lockTarget f.method f.receiver = .ok r) (ho : w.kernel.heap.get? r = some o) :
    ∃ w', releaseMonitor t f w = .ok () w' := by
  have hobject : Step.object r w = .ok o w := Step.object_eq_ok.mpr ⟨ho, rfl⟩
  by_cases howned : o.monitor.isLockedBy t = true
  · obtain ⟨m, hm⟩ : ∃ m, o.monitor.unlock t = some m := by
      cases hmon : o.monitor with
      | free => simp [hmon, Monitor.isLockedBy, Monitor.owner?] at howned
      | held u n =>
        have hu : u = t := by simpa [hmon, Monitor.isLockedBy, Monitor.owner?] using howned
        cases n <;> simp [Monitor.unlock, hu]
    have hunlock : Step.unlock r t w = .ok true { w with kernel := w.kernel.released r m } :=
      Step.unlock_eq_ok.mpr ⟨o, ho, .inr ⟨m, rfl, hm, rfl⟩⟩
    refine ⟨{ w with
      kernel := w.kernel.released r m
      events := w.events.push (.objectUnlocked t r) },
      Step.kernel_bind_eq_ok.mpr (Step.lift_bind_eq_ok.mpr ⟨r, hr, ?_⟩)⟩
    rw [bind_of_ok hobject, if_pos howned, bind_of_ok hunlock]
    exact Step.emit_eq_ok.mpr rfl
  · refine ⟨w, Step.kernel_bind_eq_ok.mpr (Step.lift_bind_eq_ok.mpr ⟨r, hr, ?_⟩)⟩
    rw [bind_of_ok hobject, if_neg howned]
    rfl

/-- It can be recorded that a method has been left if the class that it initializes is there. -/
theorem exists_recordExit {m : Method} (hm : m.attributes.isClassInit = true →
    ∀ c, m.classId? = some c → c.index < w.kernel.classes.size) :
    ∃ w', recordExit t m w = .ok () w' := by
  have hexit : ∀ w : Work, ∃ w',
      (if !m.isMachineOwned then Step.emit (.methodExited t m) else pure ()) w = .ok () w' := by
    intro w
    split
    · exact ⟨_, Step.emit_eq_ok.mpr rfl⟩
    · exact ⟨w, rfl⟩
  unfold recordExit
  dsimp only
  by_cases hinit : m.attributes.isClassInit = true
  · rw [if_pos hinit]
    cases hc : m.classId? with
    | none => exact hexit w
    | some c =>
      have hset : Step.setClassStatus c .initialized w = .ok () { w with
          kernel := { w.kernel with classes := w.kernel.marked c .initialized } } :=
        Step.setClassStatus_eq_ok.mpr
          ⟨_, Kernel.setClassStatus_eq_ok.mpr ⟨hm hinit c hc, rfl⟩, rfl⟩
      dsimp only
      rw [bind_of_ok hset]
      exact hexit _
  · rw [if_neg hinit]
    exact hexit w

/-- A frame on top can be left if what is looked up is there. -/
theorem exists_leave {rest : List Frame} (hframes : w.kernel.frames t = f :: rest)
    (hf : f.Leavable w.kernel) : ∃ w', leave t w = .ok f w' := by
  obtain ⟨th, hth, hth'⟩ := Kernel.exists_of_frames hframes
  have hthread : w.kernel.thread t = .ok th := Kernel.thread_eq_ok.mpr hth
  obtain ⟨w₀, hw₀⟩ : ∃ w₀ : Work, w₀ = { w with
      kernel := w.kernel.modifyThread t fun th => { th with frames := rest } } := ⟨_, rfl⟩
  -- the state when the monitor has been given back
  obtain ⟨w₁, hclasses, hpopped⟩ : ∃ w₁ : Work, w₁.kernel.classes.size = w.kernel.classes.size ∧
      (f.method.isSynchronized = false ∧ w₁ = w₀ ∨
        f.method.isSynchronized = true ∧ releaseMonitor t f w₀ = .ok () w₁) := by
    cases hs : f.method.isSynchronized with
    | false => exact ⟨w₀, by rw [hw₀]; rfl, .inl ⟨rfl, rfl⟩⟩
    | true =>
      obtain ⟨r, o, hr, ho⟩ := hf.target hs
      obtain ⟨w₁, hrelease⟩ := exists_releaseMonitor (t := t) (f := f) (w := w₀)
        (by rw [hw₀]; exact hr) (by rw [hw₀]; exact ho)
      refine ⟨w₁, ?_, .inr ⟨rfl, hrelease⟩⟩
      obtain ⟨s, _, -, -, ⟨-, rfl⟩ | ⟨l, -, rfl⟩⟩ := releaseMonitor_eq_ok hrelease
      · rw [hw₀]
        rfl
      · rw [hw₀]
        show (Kernel.released _ s l).classes.size = _
        unfold Kernel.released
        split <;> rfl
  obtain ⟨w', hexit⟩ := exists_recordExit (t := t) (w := w₁) (m := f.method)
    fun hinit c hc => hclasses ▸ hf.owner hinit c hc
  refine ⟨w', Step.kernel_bind_eq_ok.mpr (Step.lift_bind_eq_ok.mpr ⟨th, hthread, ?_⟩)⟩
  simp only [hth', bind_eq_ok, Step.modifyKernel_eq_ok]
  refine ⟨(), w₀, hw₀, ?_⟩
  rcases hpopped with ⟨hs, rfl⟩ | ⟨hs, hrelease⟩
  · simp only [hs, Bool.false_eq_true, if_false, bind_eq_ok, pure_eq_ok]
    exact ⟨(), w', hexit, trivial, rfl⟩
  · simp only [hs, if_true, bind_eq_ok, pure_eq_ok]
    exact ⟨(), w₁, hrelease, (), w', hexit, trivial, rfl⟩

/-- A frame on top is left, with what that gives back, if what is looked up is there. -/
theorem exists_shed {rest : List Frame} (hframes : w.kernel.frames t = f :: rest)
    (hf : f.Leavable w.kernel) : ∃ w', leave t w = .ok f w' ∧ w'.kernel.frames t = rest ∧
      w.kernel.Sheds t [f] w'.kernel := by
  obtain ⟨w', hleave⟩ := exists_leave hframes hf
  obtain ⟨hleft, -⟩ := frames_of_leave hleave
  obtain ⟨-, hrest⟩ := List.cons.inj (hframes.symm.trans hleft)
  exact ⟨w', hleave, hrest.symm, sheds_of_leave hf hleave⟩

end Call

namespace Unwound

/-! ## Handlers -/

/-- The frames that an exception inspects, as long as it finds no handler: those down to the first
firewall, or all of them. -/
def inspected : List Frame → List Frame
  | [] => []
  | f :: rest => if f.method.attributes.firewall then [f] else f :: inspected rest

/-- A handler is there for exceptions of a class that are raised at a byte: it covers the byte, and
names no class, or the class itself, or one above it. -/
structure Catches (p : Program) (c : ClassId) (position : Nat) (h : ExceptionHandler) : Prop where
  start : h.startPc ≤ position
  stop : position < h.endPc
  type : h.catchType = none ∨ ∃ d k, d ∈ p.chain c ∧ p.class? d = some k ∧ h.catchType = some k.name

/-- A frame has a handler for exceptions of a class at its current instruction. -/
def Matches (p : Program) (c : ClassId) (f : Frame) : Prop :=
  ∃ i, f.instruction = .ok i ∧ ∃ h ∈ f.method.handlers, Catches p c i.position h

/-- A handler is the first one of a frame for exceptions of a class. -/
def HandledBy (p : Program) (c : ClassId) (f : Frame) (h : ExceptionHandler) : Prop :=
  ∃ i before after, f.instruction = .ok i ∧ f.method.handlers = before ++ h :: after ∧
    Catches p c i.position h ∧ ∀ h' ∈ before, ¬ Catches p c i.position h'

variable {p : Program} {t : ThreadId} {x : ObjRef} {c : ClassId} {f : Frame} {w : Work}
  {h : ExceptionHandler} {above below fs : List Frame}

theorem catches_iff (hp : p.Arranged) {position : Nat} :
    (h.covers position && h.catchType.all (p.isSubclassOfNamed c)) = true ↔
      Catches p c position h := by
  have htype : h.catchType.all (p.isSubclassOfNamed c) = true ↔ h.catchType = none ∨
      ∃ d k, d ∈ p.chain c ∧ p.class? d = some k ∧ h.catchType = some k.name := by
    cases h.catchType with
    | none => simp
    | some name =>
      simp only [Option.all_some, Program.isSubclassOfNamed, Option.any_eq_true,
        Program.isSubclass, decide_eq_true_eq, reduceCtorEq, false_or, Option.some.injEq]
      constructor
      · rintro ⟨d, hd, hmem⟩
        obtain ⟨k, hk, hname⟩ := Program.exists_of_classId? hd
        exact ⟨d, k, hmem, hk, hname.symm⟩
      · rintro ⟨d, k, hmem, hk, hname⟩
        exact ⟨d, hp.classId?_iff.mpr ⟨k, hk, hname.symm⟩, hmem⟩
  rw [Bool.and_eq_true, htype, ExceptionHandler.covers, Bool.and_eq_true, decide_eq_true_eq,
    decide_eq_true_eq]
  constructor
  · rintro ⟨⟨hstart, hstop⟩, htype⟩
    exact ⟨hstart, hstop, htype⟩
  · intro hc
    exact ⟨⟨hc.start, hc.stop⟩, hc.type⟩

theorem handlerFor_eq_some_iff (hp : p.Arranged) :
    handlerFor p c f = .ok (some h) ↔ HandledBy p c f h := by
  unfold handlerFor HandledBy
  cases hi : f.instruction with
  | error e => simp
  | ok i =>
    simp only [Except.ok.injEq, Method.findHandler, List.find?_eq_some_iff_append, catches_iff hp,
      Bool.not_eq_true', Bool.eq_false_iff, ne_eq, exists_and_left, exists_eq_left']
    constructor
    · rintro ⟨hcatches, before, after, hhandlers, hnone⟩
      exact ⟨before, after, hhandlers, hcatches, hnone⟩
    · rintro ⟨before, after, hhandlers, hcatches, hnone⟩
      exact ⟨hcatches, before, after, hhandlers, hnone⟩

/-- A frame without a handler is passed, if it has a current instruction. -/
theorem handlerFor_eq_none (hp : p.Arranged) (hi : ∃ i, f.instruction = .ok i)
    (hnone : ¬ Matches p c f) : handlerFor p c f = .ok none := by
  obtain ⟨i, hi⟩ := hi
  unfold handlerFor
  rw [hi]
  refine congrArg Except.ok (List.find?_eq_none.mpr fun h hh hcatches => ?_)
  exact hnone ⟨i, hi, h, hh, (catches_iff hp).mp hcatches⟩

/-- A frame has a handler if and only if it has a first one. -/
theorem matches_iff (hp : p.Arranged) : Matches p c f ↔ ∃ h, HandledBy p c f h := by
  constructor
  · rintro ⟨i, hi, h, hh, hcatches⟩
    cases hfirst : f.method.findHandler i.position (p.isSubclassOfNamed c) with
    | none => exact absurd ((catches_iff hp).mpr hcatches) (List.find?_eq_none.mp hfirst h hh)
    | some h' =>
      refine ⟨h', (handlerFor_eq_some_iff hp).mp ?_⟩
      unfold handlerFor
      rw [hi]
      exact congrArg Except.ok hfirst
  · rintro ⟨h, i, before, after, hi, hhandlers, hcatches, -⟩
    exact ⟨i, hi, h, by simp [hhandlers], hcatches⟩

/-! ## The search -/

/-- A frame without a handler is left, and the search goes on below it. -/
theorem search_passed (hnone : handlerFor p c f = .ok none)
    (hgoes : f.method.attributes.firewall = false) (hbelow : below ≠ []) {w₁ : Work}
    (hleave : Call.leave t w = .ok f w₁) :
    search p t x c (f :: below) w = search p t x c below w₁ := by
  have hlift : Step.lift (handlerFor p c f) w = .ok none w := by
    rw [hnone]
    rfl
  rw [search, bind_of_ok hlift]
  dsimp only
  rw [bind_of_ok hleave, hgoes]
  simp [hbelow]

/-- The frames above one with a handler are left, and that one is positioned on its handler. -/
theorem exists_search_handled (hframes : w.kernel.frames t = above ++ f :: below)
    (habove : ∀ g ∈ above, handlerFor p c g = .ok none ∧ g.method.attributes.firewall = false ∧
      g.Leavable w.kernel)
    (hf : handlerFor p c f = .ok (some h)) {target : Instruction}
    (htarget : f.method.instructionAt h.handlerPc = .ok target) :
    ∃ w', search p t x c (above ++ f :: below) w = .ok .handled w' ∧
      w'.kernel.frames t = { f with operands := [x.toSlot], pc := target.index } :: below ∧
      w.kernel.Sheds t above w'.kernel := by
  induction above generalizing w with
  | nil =>
    have htop : w.kernel.topFrame t = .ok f := Kernel.topFrame_eq_ok_iff.mpr ⟨below, hframes⟩
    obtain ⟨th, hth, hth'⟩ := Kernel.exists_of_frames hframes
    obtain ⟨g, hg⟩ : ∃ g, g = { f with operands := [x.toSlot], pc := target.index } := ⟨_, rfl⟩
    refine ⟨{ w with kernel := w.kernel.modifyThread t (·.setTop g) }, ?_, ?_, ?_⟩
    · rw [List.nil_append, search, hg]
      refine Step.lift_bind_eq_ok.mpr ⟨_, hf, Step.lift_bind_eq_ok.mpr ⟨target, htarget, ?_⟩⟩
      rw [bind_eq_ok]
      exact ⟨(), _, Step.onFrame_eq_ok.mpr ⟨f, _, htop, rfl, rfl⟩, rfl⟩
    · rw [Kernel.frames_modifyThread hth]
      simp [Thread.setTop, hth', hg]
    · exact .nil (.modifyThread fun _ => rfl) rfl rfl
  | cons g above ih =>
    obtain ⟨⟨hnone, hgoes, hleavable⟩, hall⟩ := List.forall_mem_cons.mp habove
    obtain ⟨w₁, hleave, hframes₁, hsheds⟩ := Call.exists_shed hframes hleavable
    obtain ⟨w', hsearch, hpositioned, hshed⟩ := ih hframes₁ fun g' hg' => by
      obtain ⟨hnone', hgoes', hleavable'⟩ := hall g' hg'
      exact ⟨hnone', hgoes', hsheds.retains.leavable hleavable'⟩
    refine ⟨w', ?_, hpositioned, hsheds.append hshed⟩
    rw [List.cons_append, search_passed hnone hgoes (by simp) hleave]
    exact hsearch

/-- If no frame has a handler, they are all left down to one at which the exception escapes. -/
theorem exists_search_escaped (hframes : w.kernel.frames t = above ++ f :: below)
    (habove : ∀ g ∈ above, g.method.attributes.firewall = false)
    (hall : ∀ g ∈ above ++ [f], handlerFor p c g = .ok none ∧ g.Leavable w.kernel)
    (hstop : f.method.attributes.firewall = true ∨ below = []) {o : Object}
    (ho : w.kernel.heap.get? x = some o) :
    ∃ w', search p t x c (above ++ f :: below) w = .ok (.escaped (record p t x o)) w' ∧
      w'.kernel.frames t = below ∧ w.kernel.Sheds t (above ++ [f]) w'.kernel := by
  induction above generalizing w o with
  | nil =>
    obtain ⟨hnone, hleavable⟩ := hall f (by simp)
    obtain ⟨w₁, hleave, hframes₁, hsheds⟩ := Call.exists_shed hframes hleavable
    refine ⟨w₁, ?_, hframes₁, hsheds⟩
    obtain ⟨m, ho₁⟩ := hsheds.objects x
    rw [ho] at ho₁
    have hstops : (f.method.attributes.firewall || below.isEmpty) = true := by
      rcases hstop with hfirewall | hnil
      · simp [hfirewall]
      · simp [hnil]
    rw [List.nil_append, search]
    refine Step.lift_bind_eq_ok.mpr ⟨_, hnone, ?_⟩
    dsimp only
    rw [bind_of_ok hleave, if_pos hstops, bind_of_ok (Step.object_eq_ok.mpr ⟨ho₁, rfl⟩)]
    rfl
  | cons g above ih =>
    obtain ⟨hgoes, habove⟩ := List.forall_mem_cons.mp habove
    obtain ⟨⟨hnone, hleavable⟩, hall⟩ := List.forall_mem_cons.mp hall
    obtain ⟨w₁, hleave, hframes₁, hsheds⟩ := Call.exists_shed hframes hleavable
    obtain ⟨m, ho₁⟩ := hsheds.objects x
    rw [ho] at ho₁
    obtain ⟨w', hsearch, hleft', hshed⟩ := ih hframes₁ habove
      (fun g' hg' => ⟨(hall g' hg').1, hsheds.retains.leavable (hall g' hg').2⟩) ho₁
    refine ⟨w', ?_, hleft', hsheds.append hshed⟩
    rw [List.cons_append, search_passed hnone hgoes (by simp) hleave]
    exact hsearch

/-! ## Dispatching -/

/-- The frames that are inspected are on top. -/
theorem isPrefix_inspected (fs : List Frame) : inspected fs <+: fs := by
  induction fs with
  | nil => exact List.prefix_refl _
  | cons f rest ih =>
    rw [inspected]
    split
    · exact ⟨rest, rfl⟩
    · exact List.prefix_cons_iff.mpr (.inr ⟨_, rfl, ih⟩)

/-- What is above a frame that is inspected is inspected, and is no firewall. -/
theorem inspected_of_mem_take {n : Nat} {g : Frame} (hn : n < (inspected fs).length)
    (hg : g ∈ fs.take n) : g ∈ inspected fs ∧ g.method.attributes.firewall = false := by
  induction fs generalizing n with
  | nil => simp at hg
  | cons f rest ih =>
    cases n with
    | zero => simp at hg
    | succ n =>
      rw [inspected] at hn ⊢
      cases hf : f.method.attributes.firewall with
      | true => simp [hf] at hn
      | false =>
        simp only [hf, Bool.false_eq_true, if_false, List.length_cons, Nat.add_lt_add_iff_right]
          at hn ⊢
        rcases List.mem_cons.mp hg with rfl | hg
        · exact ⟨List.mem_cons_self, hf⟩
        · exact ⟨List.mem_cons_of_mem _ (ih hn hg).1, (ih hn hg).2⟩

/-- The frames that are inspected end with a firewall or with the bottom. -/
theorem exists_inspected (hfs : fs ≠ []) : ∃ above f below, fs = above ++ f :: below ∧
    inspected fs = above ++ [f] ∧ (∀ g ∈ above, g.method.attributes.firewall = false) ∧
    (f.method.attributes.firewall = true ∨ below = []) := by
  induction fs with
  | nil => exact absurd rfl hfs
  | cons f rest ih =>
    rw [inspected]
    cases hf : f.method.attributes.firewall with
    | true => exact ⟨[], f, rest, rfl, rfl, by simp, .inl hf⟩
    | false =>
      by_cases hrest : rest = []
      · subst hrest
        exact ⟨[], f, [], rfl, rfl, by simp, .inr rfl⟩
      · obtain ⟨above, g, below, hsplit, hinspected, habove, hstop⟩ := ih hrest
        refine ⟨f :: above, g, below, by rw [hsplit, List.cons_append], ?_, ?_, hstop⟩
        · simp [hinspected]
        · exact List.forall_mem_cons.mpr ⟨hf, habove⟩

/-- Dispatching looks for a handler in the frames of the thread. -/
theorem unwind_of_search {u : Unwound} {w' : Work} {o : Object}
    (hframes : w.kernel.frames t = fs) (hfs : fs ≠ []) (ho : w.kernel.heap.get? x = some o)
    (hsearch : search p t x o.classId fs { w with events := w.events.push (.exceptionThrown t x) } =
      .ok u w') : unwind p t x w = .ok u w' := by
  obtain ⟨f, rest, rfl⟩ := List.exists_cons_of_ne_nil hfs
  obtain ⟨th, hth, hth'⟩ := Kernel.exists_of_frames hframes
  rw [← hth'] at hsearch
  have hemit : Step.emit (.exceptionThrown t x) w =
      .ok () { w with events := w.events.push (.exceptionThrown t x) } :=
    Step.emit_eq_ok.mpr rfl
  have hobject : Step.object x { w with events := w.events.push (.exceptionThrown t x) } =
      .ok o { w with events := w.events.push (.exceptionThrown t x) } :=
    Step.object_eq_ok.mpr ⟨ho, rfl⟩
  unfold unwind
  rw [bind_of_ok hemit, bind_of_ok hobject]
  exact Step.kernel_bind_eq_ok.mpr (Step.lift_bind_eq_ok.mpr
    ⟨th, Kernel.thread_eq_ok.mpr hth, hsearch⟩)

/-- The first of the inspected frames that has a handler is positioned on it. -/
theorem exists_unwind_handled {n : Nat} {o : Object} {i : Instruction} (hp : p.Arranged)
    (hframes : w.kernel.frames t = fs) (ho : w.kernel.heap.get? x = some o)
    (hleavable : ∀ g ∈ fs, g.Leavable w.kernel)
    (hinstruction : ∀ g ∈ inspected fs, ∃ j, g.instruction = .ok j)
    (hn : n < (inspected fs).length) (hf : fs[n]? = some f)
    (hfirst : ∀ j g, j < n → fs[j]? = some g → ¬ Matches p o.classId g)
    (hh : HandledBy p o.classId f h) (hi : f.method.instructionAt h.handlerPc = .ok i) :
    ∃ w', unwind p t x w = .ok .handled w' ∧
      w'.kernel.frames t = { f with operands := [x.toSlot], pc := i.index } :: fs.drop (n + 1) ∧
      w.kernel.Sheds t (fs.take n) w'.kernel := by
  have hcut : fs = fs.take n ++ f :: fs.drop (n + 1) := by
    obtain ⟨hlt, rfl⟩ := List.getElem?_eq_some_iff.mp hf
    rw [List.getElem_cons_drop, List.take_append_drop]
  have hpassed : ∀ g ∈ fs.take n, handlerFor p o.classId g = .ok none ∧
      g.method.attributes.firewall = false ∧ g.Leavable w.kernel := by
    intro g hg
    obtain ⟨hinspected, hgoes⟩ := inspected_of_mem_take hn hg
    obtain ⟨j, hj, hgj⟩ := List.mem_take_iff_getElem.mp hg
    have hnone : ¬ Matches p o.classId g :=
      hfirst j g (by omega) (by rw [List.getElem?_eq_getElem (by omega), hgj])
    exact ⟨handlerFor_eq_none hp (hinstruction g hinspected) hnone, hgoes,
      hleavable g (List.mem_of_mem_take hg)⟩
  obtain ⟨w', hsearch, hpositioned, hsheds⟩ := exists_search_handled (x := x) (p := p)
    (c := o.classId) (w := { w with events := w.events.push (.exceptionThrown t x) })
    (hframes.trans hcut) hpassed ((handlerFor_eq_some_iff hp).mpr hh) hi
  rw [← hcut] at hsearch
  have hne : fs ≠ [] := by
    rw [hcut]
    simp
  exact ⟨w', unwind_of_search hframes hne ho hsearch, hpositioned, hsheds⟩

/-- If none of the inspected frames has a handler, they are all left. -/
theorem exists_unwind_escaped {o : Object} (hp : p.Arranged) (hframes : w.kernel.frames t = fs)
    (hfs : fs ≠ []) (ho : w.kernel.heap.get? x = some o)
    (hleavable : ∀ g ∈ fs, g.Leavable w.kernel)
    (hinstruction : ∀ g ∈ inspected fs, ∃ j, g.instruction = .ok j)
    (hnone : ∀ g ∈ inspected fs, ¬ Matches p o.classId g) :
    ∃ w', unwind p t x w = .ok (.escaped (record p t x o)) w' ∧
      w'.kernel.frames t = fs.drop (inspected fs).length ∧
      w.kernel.Sheds t (inspected fs) w'.kernel := by
  obtain ⟨above, last, below, hsplit, hinspected, hgoes, hstop⟩ := exists_inspected hfs
  have hall : ∀ g ∈ above ++ [last], handlerFor p o.classId g = .ok none ∧
      g.Leavable w.kernel := by
    intro g hg
    rw [← hinspected] at hg
    exact ⟨handlerFor_eq_none hp (hinstruction g hg) (hnone g hg),
      hleavable g ((isPrefix_inspected fs).subset hg)⟩
  obtain ⟨w', hsearch, hleft, hsheds⟩ := exists_search_escaped (x := x)
    (w := { w with events := w.events.push (.exceptionThrown t x) }) (hframes.trans hsplit) hgoes
    hall hstop ho
  rw [← hsplit] at hsearch
  refine ⟨w', unwind_of_search hframes hfs ho hsearch, ?_, hinspected ▸ hsheds⟩
  rw [hleft, hinspected, hsplit, List.append_cons above last below, List.drop_left]

end Unwound

end Interleave

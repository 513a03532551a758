import Interleave.Proofs.Step.Perform
import Interleave.Proofs.Stubs

/-!
# What moves leave alone

Moves of one thread leave the frames of the others alone, can only make them runnable, and do not
take a monitor away from anybody. When they make a monitor free, nobody is left waiting for it.
Objects keep their classes, and classes their class objects.

`Kernel.Advance` says all this at once. It is transitive, so it need only be shown for the smallest
changes that moves are made of.
-/

namespace Interleave

open Relation

namespace Program

/-- A method that frames may be of: a method of the program, or a stub. -/
def Runs (p : Program) (m : Method) : Prop := p.Declares m ∨ m.IsStub

/-- A method that a thread may come to run: a method of the program, or the stub of a class
initializer. -/
inductive Enters (p : Program) (m : Method) : Prop where
  | declared (h : p.Declares m)
  | initializer {i : ClassId} {c : Class} {body : Method} (found : p.class? i = some c)
    (init : c.classInit? = some body) (made : body.directCallStub "[clinit]" p.stamp = .ok m)

theorem Enters.runs {p : Program} {m : Method} (h : p.Enters m) : p.Runs m := by
  cases h with
  | declared h => exact .inl h
  | initializer _ _ made => exact .inr (Method.isStub_of_directCallStub made)

end Program

namespace Monitor

variable {t u : ThreadId} {m m' : Monitor} {n : Nat}

/-- A monitor is not to be had exactly if another thread owns it. -/
theorem lock_eq_none_iff : m.lock t = none ↔ ∃ u, m.owner? = some u ∧ u ≠ t := by
  cases m with
  | free => simp [lock, owner?]
  | held u n => simp [lock, owner?]

/-- A monitor that was acquired is owned. -/
theorem owner?_of_lock (h : m.lock t = some m') : m'.owner? = some t := by
  cases m with
  | free =>
    cases h
    rfl
  | held u n =>
    simp only [lock] at h
    split at h
    · rename_i hu
      cases h
      exact congrArg some hu
    · cases h

/-- A monitor that is still held after it was released is owned by the same thread. -/
theorem owner?_of_unlock (h : m.unlock t = some (held u n)) : (held u n).owner? = some t := by
  cases m with
  | free => cases h
  | held v k =>
    simp only [unlock] at h
    split at h
    · rename_i hv
      cases k with
      | zero => cases h
      | succ k =>
        cases h
        exact congrArg some hv
    · cases h

end Monitor

namespace Kernel

/-- A method is the stub by which the thread of an object runs the body of the object. -/
def RunsBody (p : Program) (k : Kernel) (r : ObjRef) (m : Method) : Prop :=
  ∃ o body, k.heap.get? r = some o ∧ p.findMethod? o.classId "run()V" = some body ∧
    body.directCallStub "[run]" p.stamp = .ok m

theorem RunsBody.runs {p : Program} {k : Kernel} {r : ObjRef} {m : Method}
    (h : k.RunsBody p r m) : p.Runs m := by
  obtain ⟨_, _, -, -, made⟩ := h
  exact .inr (Method.isStub_of_directCallStub made)

/-- The body of an object depends on its class. -/
theorem RunsBody.of_objects {p : Program} {k k' : Kernel} {r : ObjRef} {m : Method}
    (h : k.RunsBody p r m) (hobjects : ∀ r o, k.heap.get? r = some o →
      ∃ o', k'.heap.get? r = some o' ∧ o'.classId = o.classId) : k'.RunsBody p r m := by
  obtain ⟨o, body, ho, hbody, made⟩ := h
  obtain ⟨o', ho', hc⟩ := hobjects r o ho
  exact ⟨o', body, ho', hc ▸ hbody, made⟩

/-- A call lands in the same method as long as objects have their classes. -/
theorem callTarget_of_objects {p : Program} {k k' : Kernel} {f : Frame} {i : Instruction} {m : Method}
    (hobjects : ∀ r o, k.heap.get? r = some o →
      ∃ o', k'.heap.get? r = some o' ∧ o'.classId = o.classId)
    (h : p.callTarget k f i = .ok (some m)) : p.callTarget k' f i = .ok (some m) := by
  unfold Program.callTarget at h ⊢
  simp only [bind, Except.bind] at h ⊢
  cases hr : i.methodRef with
  | error e => simp [hr] at h
  | ok ref =>
    simp only [hr] at h ⊢
    cases hd : p.resolveMethod ref with
    | error e => simp [hd] at h
    | ok declared =>
      simp only [hd] at h ⊢
      split at h
      · rename_i hstatic
        rwa [if_pos hstatic]
      · rename_i hstatic
        rw [if_neg hstatic]
        cases hpeek : f.peekRef (declared.argSlots - 1) with
        | error e => simp [hpeek] at h
        | ok receiver =>
          simp only [hpeek] at h ⊢
          split at h
          · cases h
          · rename_i hnull
            rw [if_neg hnull]
            split at h
            · rename_i hop
              rwa [if_pos hop]
            · rename_i hop
              rw [if_neg hop]
              cases ho : k.object receiver with
              | error e => simp [ho] at h
              | ok o =>
                obtain ⟨o', ho', hc⟩ := hobjects receiver o (object_eq_ok.mp ho)
                rw [object_eq_ok.mpr ho']
                simpa only [ho, hc] using h

/-- How a thread may have changed by moves of the thread `t`, being `u` itself. -/
structure ThreadAdvance (p : Program) (t u : ThreadId) (th th' : Thread) : Prop where
  id : th'.id = th.id
  object : th'.object = th.object
  /-- It may have been woken. -/
  status : th'.status = th.status ∨ th.status ≠ .terminated ∧ th'.status = .runnable
  /-- Only the thread that moves changes its frames. -/
  frames : u ≠ t → th'.frames = th.frames
  /-- It may have entered methods. -/
  methods : ∀ f' ∈ th'.frames, p.Enters f'.method ∨ ∃ f ∈ th.frames, f'.method = f.method

/-- How a state may have changed by moves of the thread `t`. -/
structure Advance (p : Program) (t : ThreadId) (k k' : Kernel) : Prop where
  /-- Threads stay. -/
  old : ∀ (u : ThreadId) (th : Thread), k.threads[u.index]? = some th →
    ∃ th', k'.threads[u.index]? = some th' ∧ ThreadAdvance p t u th th'
  /-- New threads are runnable and run the bodies of their objects. -/
  new : ∀ (u : ThreadId) (th' : Thread), k'.threads[u.index]? = some th' →
    k.threads[u.index]? = none →
    th'.id = u ∧ th'.status = .runnable ∧
      ∀ f ∈ th'.frames, p.Enters f.method ∨ k'.RunsBody p th'.object f.method
  classObjects : k'.classObjects = k.classObjects
  objects : ∀ r o, k.heap.get? r = some o →
    ∃ o', k'.heap.get? r = some o' ∧ o'.classId = o.classId
  /-- A monitor is as it was, or owned by the thread that moves, or free with nobody waiting, be it
  new or not. -/
  monitors : ∀ r o', k'.heap.get? r = some o' →
    (∃ o, k.heap.get? r = some o ∧ o'.monitor = o.monitor) ∨ o'.monitor.owner? = some t ∨
      o'.monitor = .free ∧ (k.heap.get? r = none ∨
        ∀ (u : ThreadId) th', k'.threads[u.index]? = some th' → th'.status ≠ .blocked r)

namespace ThreadAdvance

variable {p : Program} {t u : ThreadId} {th₁ th₂ th₃ : Thread}

protected theorem refl (p : Program) (t u : ThreadId) (th : Thread) : ThreadAdvance p t u th th where
  id := rfl
  object := rfl
  status := .inl rfl
  frames _ := rfl
  methods f hf := .inr ⟨f, hf, rfl⟩

protected theorem trans (h : ThreadAdvance p t u th₁ th₂) (h' : ThreadAdvance p t u th₂ th₃) :
    ThreadAdvance p t u th₁ th₃ where
  id := h'.id.trans h.id
  object := h'.object.trans h.object
  status := by
    rcases h'.status with he | ⟨hne, hr⟩
    · rw [he]
      exact h.status
    · rcases h.status with he' | ⟨hne', -⟩
      · exact .inr ⟨he' ▸ hne, hr⟩
      · exact .inr ⟨hne', hr⟩
  frames hu := (h'.frames hu).trans (h.frames hu)
  methods f' hf' := by
    rcases h'.methods f' hf' with henters | ⟨f, hf, he⟩
    · exact .inl henters
    · rw [he]
      exact h.methods f hf

/-- A thread that waits after moves of another one waited before, for the same. -/
theorem status_eq (h : ThreadAdvance p t u th₁ th₂) (hne : th₂.status ≠ .runnable) :
    th₂.status = th₁.status := by
  rcases h.status with he | ⟨-, hr⟩
  · exact he
  · exact absurd hr hne

end ThreadAdvance

namespace Advance

variable {p : Program} {t u : ThreadId} {k k' k₁ k₂ k₃ : Kernel}

/-- A thread that waits after the moves waited before, for the same. -/
theorem waited (h : Advance p t k k') {th' : Thread} (hth' : k'.threads[u.index]? = some th')
    (hne : th'.status ≠ .runnable) :
    ∃ th, k.threads[u.index]? = some th ∧ th'.status = th.status ∧ ThreadAdvance p t u th th' := by
  cases hth : k.threads[u.index]? with
  | none => exact absurd (h.new u th' hth' hth).2.1 hne
  | some th =>
    obtain ⟨th'', hth'', hthread⟩ := h.old u th hth
    rw [hth'] at hth''
    cases hth''
    exact ⟨th, rfl, hthread.status_eq hne, hthread⟩

/-- A monitor that a thread goes on waiting for stays owned, or the thread that moves has got it. -/
theorem owned (h : Advance p t k k') {r : ObjRef} {o : Object} {v : ThreadId}
    (ho : k.heap.get? r = some o) (howner : o.monitor.owner? = some v) {th' : Thread}
    (hth' : k'.threads[u.index]? = some th') (hblocked : th'.status = .blocked r) :
    ∃ o' v', k'.heap.get? r = some o' ∧ o'.monitor.owner? = some v' ∧ (v' = v ∨ v' = t) := by
  obtain ⟨o', ho', -⟩ := h.objects r o ho
  rcases h.monitors r o' ho' with ⟨o₀, ho₀, hsame⟩ | hmine | ⟨-, hnew | hnobody⟩
  · rw [ho] at ho₀
    cases ho₀
    exact ⟨o', v, ho', hsame ▸ howner, .inl rfl⟩
  · exact ⟨o', t, ho', hmine, .inr rfl⟩
  · rw [ho] at hnew
    cases hnew
  · exact absurd hblocked (hnobody u th' hth')

protected theorem refl (p : Program) (t : ThreadId) (k : Kernel) : Advance p t k k where
  old u th h := ⟨th, h, .refl p t u th⟩
  new u th' h hnone := by
    rw [hnone] at h
    cases h
  classObjects := rfl
  objects r o h := ⟨o, h, rfl⟩
  monitors r o' h := .inl ⟨o', h, rfl⟩

protected theorem trans (h : Advance p t k₁ k₂) (h' : Advance p t k₂ k₃) : Advance p t k₁ k₃ where
  old u th hth := by
    obtain ⟨th₂, hth₂, hadv⟩ := h.old u th hth
    obtain ⟨th₃, hth₃, hadv'⟩ := h'.old u th₂ hth₂
    exact ⟨th₃, hth₃, hadv.trans hadv'⟩
  new u th₃ hth₃ hnone := by
    cases hth₂ : k₂.threads[u.index]? with
    | none => exact h'.new u th₃ hth₃ hth₂
    | some th₂ =>
      obtain ⟨hid, hstatus, hmethods⟩ := h.new u th₂ hth₂ hnone
      obtain ⟨th₃', hth₃', hadv⟩ := h'.old u th₂ hth₂
      rw [hth₃] at hth₃'
      cases hth₃'
      refine ⟨hadv.id.trans hid, ?_, fun f hf => ?_⟩
      · rcases hadv.status with he | ⟨-, hr⟩
        · exact he.trans hstatus
        · exact hr
      · rcases hadv.methods f hf with henters | ⟨f₂, hf₂, he⟩
        · exact .inl henters
        · rw [he, hadv.object]
          exact (hmethods f₂ hf₂).imp_right fun h₂ => h₂.of_objects h'.objects
  classObjects := h'.classObjects.trans h.classObjects
  objects r o ho := by
    obtain ⟨o₂, ho₂, hc⟩ := h.objects r o ho
    obtain ⟨o₃, ho₃, hc'⟩ := h'.objects r o₂ ho₂
    exact ⟨o₃, ho₃, hc'.trans hc⟩
  monitors r o₃ ho₃ := by
    rcases h'.monitors r o₃ ho₃ with ⟨o₂, ho₂, he⟩ | howner | hfree
    · rw [he]
      rcases h.monitors r o₂ ho₂ with hsame | howner | ⟨hfree, hnew | hnobody⟩
      · exact .inl hsame
      · exact .inr (.inl howner)
      · exact .inr (.inr ⟨hfree, .inl hnew⟩)
      · -- nobody waited for the monitor in between, and nobody has come to
        refine .inr (.inr ⟨hfree, .inr fun u th₃ hth₃ hblocked => ?_⟩)
        obtain ⟨th₂, hth₂, he, -⟩ := h'.waited hth₃ (by simp [hblocked])
        exact hnobody u th₂ hth₂ (he.symm.trans hblocked)
    · exact .inr (.inl howner)
    · refine .inr (.inr ⟨hfree.1, hfree.2.imp_left fun hnew => ?_⟩)
      cases ho : k₁.heap.get? r with
      | none => rfl
      | some o =>
        obtain ⟨o₂, ho₂, -⟩ := h.objects r o ho
        rw [hnew] at ho₂
        cases ho₂

/-! ## The changes that moves are made of -/

/-- The thread that moves changes its frames. -/
theorem modifyThread {g : Thread → Thread}
    (hg : ∀ th, k.threads[t.index]? = some th → ThreadAdvance p t t th (g th)) :
    Advance p t k (k.modifyThread t g) where
  old u th hth := by
    rw [getElem?_modifyThread]
    split
    · rename_i htu
      subst htu
      exact ⟨g th, by rw [hth]; rfl, hg th hth⟩
    · exact ⟨th, hth, .refl p t u th⟩
  new u th' hth' hnone := by
    rw [getElem?_modifyThread, hnone] at hth'
    simp at hth'
  classObjects := rfl
  objects r o ho := ⟨o, ho, rfl⟩
  monitors r o' ho' := .inl ⟨o', ho', rfl⟩

/-- Objects are added, and their data changes. -/
theorem heap {h : Heap} (hh : k.heap.Extends h) : Advance p t k { k with heap := h } where
  old u th hth := ⟨th, hth, .refl p t u th⟩
  new u th' hth' hnone := by
    rw [show ({ k with heap := h } : Kernel).threads = k.threads from rfl, hnone] at hth'
    cases hth'
  classObjects := rfl
  objects r o ho := by
    obtain ⟨o', ho', hc, -⟩ := hh.kept r o ho
    exact ⟨o', ho', hc⟩
  monitors r o' ho' := by
    cases ho : k.heap.get? r with
    | none => exact .inr (.inr ⟨hh.fresh r o' ho ho', .inl rfl⟩)
    | some o =>
      obtain ⟨o'', ho'', -, hm⟩ := hh.kept r o ho
      rw [show ({ k with heap := h } : Kernel).heap = h from rfl, ho''] at ho'
      cases ho'
      exact .inl ⟨o, rfl, hm⟩

/-- It is recorded how far classes are initialized. -/
theorem classes {cs : Array ClassState} (hcs : cs.map ClassState.object = k.classObjects) :
    Advance p t k { k with classes := cs } where
  old u th hth := ⟨th, hth, .refl p t u th⟩
  new u th' hth' hnone := by
    rw [show ({ k with classes := cs } : Kernel).threads = k.threads from rfl, hnone] at hth'
    cases hth'
  classObjects := hcs
  objects r o ho := ⟨o, ho, rfl⟩
  monitors r o' ho' := .inl ⟨o', ho', rfl⟩

/-- The thread that moves comes to own a monitor, or makes one free that nobody waits for. -/
theorem setMonitor {r : ObjRef} {m : Monitor}
    (hm : m.owner? = some t ∨ m = .free ∧
      ∀ (u : ThreadId) th, k.threads[u.index]? = some th → th.status ≠ .blocked r) :
    Advance p t k (k.setMonitor r m) where
  old u th hth := ⟨th, hth, .refl p t u th⟩
  new u th' hth' hnone := by
    rw [show (k.setMonitor r m).threads = k.threads from rfl, hnone] at hth'
    cases hth'
  classObjects := rfl
  objects s o ho := by
    rw [get?_setMonitor]
    split
    · exact ⟨{ o with monitor := m }, by rw [ho]; rfl, rfl⟩
    · exact ⟨o, ho, rfl⟩
  monitors s o' ho' := by
    rw [get?_setMonitor] at ho'
    split at ho'
    · rename_i hrs
      subst hrs
      obtain ⟨o, -, rfl⟩ := Option.map_eq_some_iff.mp ho'
      exact .inr (hm.imp_right fun h => ⟨h.1, .inr h.2⟩)
    · exact .inl ⟨o', ho', rfl⟩

/-- Threads that wait for something are woken. -/
theorem wake {s : ThreadStatus} (hs : s ≠ .terminated) : Advance p t k (k.wake s) where
  old u th hth := by
    rw [getElem?_wake, hth]
    refine ⟨if th.status = s then { th with status := .runnable } else th, rfl, ?_⟩
    by_cases he : th.status = s
    · rw [if_pos he]
      exact ⟨rfl, rfl, .inr ⟨he ▸ hs, rfl⟩, fun _ => rfl, fun f hf => .inr ⟨f, hf, rfl⟩⟩
    · rw [if_neg he]
      exact .refl p t u th
  new u th' hth' hnone := by
    rw [getElem?_wake, hnone] at hth'
    cases hth'
  classObjects := rfl
  objects r o ho := ⟨o, ho, rfl⟩
  monitors r o' ho' := .inl ⟨o', ho', rfl⟩

/-- The thread that moves gives back a monitor. -/
theorem released {r : ObjRef} {o : Object} {m : Monitor} (hm : o.monitor.unlock t = some m) :
    Advance p t k (k.released r m) := by
  unfold Kernel.released
  cases m with
  | held u n => exact setMonitor (.inl (Monitor.owner?_of_unlock hm))
  | free =>
    -- it comes to the same to wake those that wait first
    show Advance p t k ((k.wake (.blocked r)).setMonitor r .free)
    have hwake : Advance p t k (k.wake (.blocked r)) := wake (by exact nofun)
    refine hwake.trans (setMonitor (.inr ⟨rfl, fun u th' hth' hblocked => ?_⟩))
    rw [getElem?_wake] at hth'
    obtain ⟨th, -, rfl⟩ := Option.map_eq_some_iff.mp hth'
    split at hblocked
    · cases hblocked
    · rename_i hne
      exact hne hblocked

/-- A thread that runs the body of its object is added. -/
theorem addThread {r : ObjRef} {f : Frame} (hf : k.RunsBody p r f.method) :
    Advance p t k ((k.addThread r).2.modifyThread (k.addThread r).1 (·.pushFrame f)) where
  old u th hth := by
    refine ⟨th, ?_, .refl p t u th⟩
    have hu : u ≠ (k.addThread r).1 := by
      rintro rfl
      simp [Kernel.addThread] at hth
    rw [getElem?_modifyThread, if_neg (Ne.symm hu), getElem?_addThread, if_neg hu, hth]
  new u th' hth' hnone := by
    by_cases hu : u = (k.addThread r).1
    · rw [getElem?_modifyThread, if_pos hu.symm, getElem?_addThread, if_pos hu] at hth'
      cases hth'
      refine ⟨hu.symm, rfl, fun g hg => ?_⟩
      obtain rfl : g = f := by simpa [Thread.pushFrame] using hg
      exact .inr hf
    · rw [getElem?_modifyThread, if_neg (Ne.symm hu), getElem?_addThread, if_neg hu, hnone] at hth'
      cases hth'
  classObjects := rfl
  objects s o ho := ⟨o, ho, rfl⟩
  monitors s o' ho' := .inl ⟨o', ho', rfl⟩

/-! ## Moves -/

theorem setTop {f f' : Frame} (htop : k.topFrame t = .ok f) (hsame : f.SameCall f') :
    Advance p t k (k.modifyThread t (·.setTop f')) := by
  obtain ⟨th₀, rest, hth₀, hframes⟩ := topFrame_eq_ok.mp htop
  refine modifyThread fun th hth => ⟨rfl, rfl, .inl rfl, fun h => absurd rfl h, fun g hg => ?_⟩
  rw [hth₀] at hth
  cases hth
  rcases List.mem_cons.mp hg with rfl | hg
  · exact .inr ⟨f, by rw [hframes]; exact List.mem_cons_self, hsame.method⟩
  · exact .inr ⟨g, List.mem_of_mem_tail hg, rfl⟩

theorem pushFrame {f : Frame} (hf : p.Enters f.method) :
    Advance p t k (k.modifyThread t (·.pushFrame f)) := by
  refine modifyThread fun th _ => ⟨rfl, rfl, .inl rfl, fun h => absurd rfl h, fun g hg => ?_⟩
  rcases List.mem_cons.mp hg with rfl | hg
  · exact .inl hf
  · exact .inr ⟨g, hg, rfl⟩

theorem popFrame {th : Thread} {f : Frame} {rest : List Frame}
    (hth : k.threads[t.index]? = some th) (hframes : th.frames = f :: rest) :
    Advance p t k (k.modifyThread t fun th => { th with frames := rest }) := by
  refine modifyThread fun th' hth' => ⟨rfl, rfl, .inl rfl, fun h => absurd rfl h, fun g hg => ?_⟩
  rw [hth] at hth'
  cases hth'
  exact .inr ⟨g, by rw [hframes]; exact List.mem_cons_of_mem _ hg, rfl⟩

theorem acquired {m : Method} {receiver : ObjRef} {h : Heap} (ha : k.Acquired t m receiver h) :
    Advance p t k { k with heap := h } := by
  cases ha with
  | unneeded => exact .refl p t k
  | locked _ _ _ locked => exact setMonitor (.inl (Monitor.owner?_of_lock locked))

theorem of_released {m : Method} {receiver : ObjRef} (h : k.Released t m receiver k₁) :
    Advance p t k k₁ := by
  cases h with
  | unneeded => exact .refl p t k
  | unlocked _ _ _ unlocked => exact released unlocked
  | gone => exact .refl p t k

/-- A move leaves alone what moves leave alone. -/
theorem of_move (h : Move p t k k₁) : Advance p t k k₁ := by
  cases h with
  | frame top same => exact setTop top same
  | heap extension => exact heap extension
  | settle c => exact classes (k.map_object_marked c _)
  | initializer found init made => exact pushFrame (.initializer found init made)
  | lock _ _ _ locked => exact setMonitor (.inl (Monitor.owner?_of_lock locked))
  | unlock _ _ _ unlocked => exact released unlocked
  | @enter f f' g h cs top same called acquired marks =>
    have hclasses : Advance p t { k with heap := h } { k with heap := h, classes := cs } :=
      classes (objects_of_marks (k := k) marks)
    have htop : Advance p t { k with heap := h, classes := cs } _ := setTop top same
    exact (((Advance.acquired acquired).trans hclasses).trans htop).trans
      (pushFrame (.declared called.declares))
  | @leave f th rest k₂ cs thread frames released marks =>
    have hleft : Advance p t k k₂ := (popFrame thread frames).trans (of_released released)
    exact hleft.trans (classes (marks.objects.trans hleft.classObjects.symm))
  | start _ object body made =>
    refine Advance.trans (addThread ⟨_, _, object, body, made⟩) (heap ?_)
    exact Heap.Extends.modify _ _ fun _ => ⟨rfl, rfl⟩

/-- Any number of moves leave it alone. -/
theorem of_moves (h : ReflTransGen (Move p t) k k₁) : Advance p t k k₁ := by
  induction h with
  | refl => exact .refl p t k
  | tail _ hlast ih => exact ih.trans (of_move hlast)

end Advance

/-! ## Threads that moves bring up -/

variable {p : Program} {k k' : Kernel} {t u : ThreadId}

/-- Those that are woken stay where they are. -/
theorem exists_of_released {r : ObjRef} {l : Monitor} {th' : Thread}
    (h : (k.released r l).threads[u.index]? = some th') :
    ∃ th, k.threads[u.index]? = some th ∧ th'.frames = th.frames := by
  unfold released at h
  split at h
  · exact ⟨th', h, rfl⟩
  · replace h : (k.wake (.blocked r)).threads[u.index]? = some th' := h
    rw [getElem?_wake] at h
    obtain ⟨th, hth, rfl⟩ := Option.map_eq_some_iff.mp h
    exact ⟨th, hth, by split <;> rfl⟩

theorem Released.exists_thread {m : Method} {receiver : ObjRef} {th' : Thread}
    (h : k.Released t m receiver k') (hth' : k'.threads[u.index]? = some th') :
    ∃ th, k.threads[u.index]? = some th ∧ th'.frames = th.frames := by
  cases h with
  | unneeded => exact ⟨th', hth', rfl⟩
  | unlocked => exact exists_of_released hth'
  | gone => exact ⟨th', hth', rfl⟩

/-- A thread that a move brings up comes behind all others, with an object that none of them has. It
is in the stub that runs the body of its object. -/
theorem Move.brings {th' : Thread} (h : Move p t k k') (hnone : k.threads[u.index]? = none)
    (hth' : k'.threads[u.index]? = some th') :
    u.index = k.threads.size ∧ k.threadOf? th'.object = none ∧
      ∃ f, th'.frames = [f] ∧ k'.RunsBody p th'.object f.method := by
  have hadv := Advance.of_move h
  have hold : ∀ {α : Prop} {th : Thread}, k.threads[u.index]? = some th → α := by
    intro α th hth
    rw [hnone] at hth
    cases hth
  have hmodified : ∀ {α : Prop} {g : Thread → Thread},
      (k.modifyThread t g).threads[u.index]? = some th' → α := by
    intro α g h
    rw [getElem?_modifyThread, hnone, Option.map_none, ite_self] at h
    cases h
  cases h with
  | frame => exact hmodified hth'
  | heap => exact hold hth'
  | settle => exact hold hth'
  | initializer => exact hmodified hth'
  | lock => exact hold hth'
  | unlock =>
    obtain ⟨th, hth, -⟩ := exists_of_released hth'
    exact hold hth
  | @enter f f' g heap cs =>
    rw [getElem?_modifyThread, getElem?_modifyThread,
      show ({ k with heap, classes := cs } : Kernel).threads = k.threads from rfl, hnone] at hth'
    simp at hth'
  | @leave f th₀ rest k₁ cs thread frames released =>
    obtain ⟨th, hth, -⟩ := released.exists_thread hth'
    rw [getElem?_modifyThread, hnone, Option.map_none, ite_self] at hth
    cases hth
  | @start r o run stub new object body made =>
    have hbody : k.RunsBody p r stub := ⟨o, run, object, body, made⟩
    by_cases hu : u = (k.addThread r).1
    · rw [getElem?_modifyThread, if_pos hu.symm] at hth'
      replace hth' : ((k.addThread r).2.threads[u.index]?).map _ = some th' := hth'
      rw [getElem?_addThread, if_pos hu] at hth'
      cases hth'
      exact ⟨congrArg ThreadId.index hu, new, _, rfl, hbody.of_objects hadv.objects⟩
    · rw [getElem?_modifyThread, if_neg (Ne.symm hu)] at hth'
      replace hth' : (k.addThread r).2.threads[u.index]? = some th' := hth'
      rw [getElem?_addThread, if_neg hu] at hth'
      exact hold hth'

end Kernel

end Interleave

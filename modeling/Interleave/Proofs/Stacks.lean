import Interleave.Proofs.Initializers
import Interleave.Proofs.Monitors

/-!
# The methods that threads are in

Which methods a thread is in changes by one method at a time. A move leaves the methods of all
threads alone, or puts a stub on top of those of one thread, or has the thread that moves enter or
leave a method. Only in the last two cases does a class come to be initialized by its initializer.

`Kernel.Shift` says this once for all moves. What an initializer does to its class is read off it.
-/

namespace Interleave

open Relation

/-- A program whose classes are initialized by static initializers that it does not call itself, and
whose monitors are taken by synchronized methods alone. -/
structure Program.InitializesOnUse (p : Program) : Prop where
  wellFormed : p.WellFormed
  made : p.HasMadeMethods
  static : p.HasStaticInitializers
  calls : p.CallsNoInitializers
  monitors : p.HasNoMonitorCode

/-- A method that a thread may be in while classes are initialized on use: it calls no initializer,
and if it is one itself, it holds the monitor of its class. -/
structure Method.Tame (p : Program) (m : Method) : Prop where
  spares : p.SparesInitializers m
  holds : m.attributes.isClassInit = true → m.isSynchronized = true ∧ m.isStatic = true

theorem Method.IsStub.tame {p : Program} {m : Method} (h : m.IsStub) (hm : p.SparesInitializers m) :
    m.Tame p where
  spares := hm
  holds hinit := by
    rw [h.classInit] at hinit
    cases hinit

theorem Method.IsStub.isClassInitOf {m : Method} (h : m.IsStub) (c : ClassId) :
    m.isClassInitOf c = false := by
  simp [Method.isClassInitOf, h.classInit]

namespace Kernel

variable {p : Program} {k k' : Kernel} {t u : ThreadId} {m : Method}

/-! ## Stacks -/

/-- The methods that a thread is in, the last one entered first. -/
def stack (k : Kernel) (u : ThreadId) : List Method :=
  ((k.threads[u.index]?).map fun th => th.frames.map Frame.method).getD []

theorem stack_of_thread {th : Thread} (h : k.threads[u.index]? = some th) :
    k.stack u = th.frames.map Frame.method := by
  unfold stack
  rw [h]
  rfl

/-- A thread that is not there is in no method. -/
theorem exists_thread_of_mem_stack (h : m ∈ k.stack u) :
    ∃ th, k.threads[u.index]? = some th ∧ ∃ f ∈ th.frames, f.method = m := by
  unfold stack at h
  cases hth : k.threads[u.index]? with
  | none =>
    rw [hth] at h
    cases h
  | some th =>
    rw [hth] at h
    exact ⟨th, rfl, List.mem_map.mp h⟩

theorem stack_modifyThread (k : Kernel) (t u : ThreadId) (g : Thread → Thread) :
    (k.modifyThread t g).stack u =
      if t = u then ((k.threads[u.index]?).map fun th => (g th).frames.map Frame.method).getD []
      else k.stack u := by
  unfold stack
  rw [getElem?_modifyThread]
  split
  · rw [Option.map_map]
    rfl
  · rfl

theorem stack_modifyThread_self {th : Thread} {g : Thread → Thread}
    (h : k.threads[t.index]? = some th) :
    (k.modifyThread t g).stack t = (g th).frames.map Frame.method := by
  rw [stack_modifyThread, if_pos rfl, h]
  rfl

theorem stack_modifyThread_of_ne {g : Thread → Thread} (h : u ≠ t) :
    (k.modifyThread t g).stack u = k.stack u := by
  rw [stack_modifyThread, if_neg (Ne.symm h)]

/-- Those that are woken stay in their methods. -/
theorem stack_wake (k : Kernel) (s : ThreadStatus) : (k.wake s).stack = k.stack := by
  funext u
  unfold stack
  rw [getElem?_wake, Option.map_map]
  congr 2
  funext th
  simp only [Function.comp_apply]
  split <;> rfl

/-- Giving back a monitor takes no thread out of its methods. -/
theorem Released.stack {receiver : ObjRef} (h : k.Released t m receiver k') :
    k'.stack = k.stack := by
  cases h with
  | unneeded => rfl
  | unlocked =>
    unfold released
    split
    · rfl
    · exact stack_wake _ _
  | gone => rfl

/-- The method of the frame on top is the last one that was entered. -/
theorem method_mem_stack_of_topFrame {f : Frame} (h : k.topFrame t = .ok f) :
    f.method ∈ k.stack t := by
  obtain ⟨th, rest, hth, hframes⟩ := topFrame_eq_ok.mp h
  rw [stack_of_thread hth, hframes]
  exact List.mem_cons_self

/-! ## Moves -/

/-- No other thread holds the monitor that a thread takes when it enters a method. -/
theorem Acquired.others {receiver r : ObjRef} {h : Heap} (ha : k.Acquired t m receiver h)
    (hs : m.isSynchronized = true) (hr : k.lockTarget m receiver = .ok r) (hu : u ≠ t) :
    k.heap.heldBy r u = 0 := by
  cases ha with
  | unneeded hunneeded =>
    rw [hs] at hunneeded
    cases hunneeded
  | locked _ target object locked =>
    rw [hr] at target
    cases target
    have howner := Monitor.owner?_of_lock locked
    have hbefore := Monitor.heldBy_of_lock (u := u) locked
    simp only [Heap.heldBy, object]
    simp only [Monitor.heldBy, howner, Option.some.injEq, Ne.symm hu, if_false] at hbefore
    unfold Monitor.heldBy
    omega

/-- The class object of a class is there whose monitor is taken. -/
theorem Acquired.target {receiver : ObjRef} {h : Heap} (ha : k.Acquired t m receiver h)
    (hs : m.isSynchronized = true) : ∃ r, k.lockTarget m receiver = .ok r := by
  cases ha with
  | unneeded hunneeded =>
    rw [hs] at hunneeded
    cases hunneeded
  | locked _ target => exact ⟨_, target⟩

/-- What a move of a thread does to the methods that threads are in, and to how far classes are
initialized. -/
inductive Shift (p : Program) (t : ThreadId) (k k' : Kernel) : Prop where
  /-- Threads stay in their methods. It may be recorded that a class is initialized. -/
  | stays (stack : k'.stack = k.stack)
    (classes : k'.classes = k.classes ∨ ∃ c, k'.classes = k.marked c .initialized)
  /-- A thread comes to be in a stub. -/
  | stub {u : ThreadId} {m : Method} (stub : m.IsStub) (spares : p.SparesInitializers m)
    (stack : k'.stack u = m :: k.stack u) (others : ∀ v, v ≠ u → k'.stack v = k.stack v)
    (classes : k'.classes = k.classes)
  /-- The thread enters a method, and nobody else holds the monitor that the method needs. -/
  | enters {m : Method} {receiver : ObjRef} {h : Heap} (called : k.Calls p t m)
    (acquired : k.Acquired t m receiver h) (stack : k'.stack t = m :: k.stack t)
    (others : ∀ v, v ≠ t → k'.stack v = k.stack v)
    (marks : if m.isSynchronized then k.Marks m (.initializing t) k'.classes
      else k'.classes = k.classes)
  /-- The thread leaves a method. -/
  | leaves {m : Method} (stack : k.stack t = m :: k'.stack t)
    (others : ∀ v, v ≠ t → k'.stack v = k.stack v) (marks : k.Marks m .initialized k'.classes)

/-- Every move does one of these things. -/
theorem Move.shift (hp : p.InitializesOnUse) (ht : k.Runs t) (h : Move p t k k') :
    Shift p t k k' := by
  cases h with
  | @frame f f' top same =>
    obtain ⟨th, rest, hth, hframes⟩ := topFrame_eq_ok.mp top
    refine .stays (funext fun u => ?_) (.inl rfl)
    by_cases hu : u = t
    · subst hu
      rw [stack_modifyThread_self hth, stack_of_thread hth]
      simp only [Thread.setTop, hframes, List.tail_cons, List.map_cons, same.method]
    · exact stack_modifyThread_of_ne hu
  | heap => exact .stays rfl (.inl rfl)
  | settle c => exact .stays rfl (.inr ⟨c, rfl⟩)
  | @initializer i c m stub j found init made =>
    obtain ⟨th, hth, -⟩ := ht
    have henters : p.Enters stub := .initializer found init made
    refine .stub (Method.isStub_of_directCallStub made)
      (henters.sparesInitializers hp.wellFormed hp.made hp.static hp.calls) ?_
      (fun v hv => stack_modifyThread_of_ne hv) rfl
    rw [stack_modifyThread_self hth, stack_of_thread hth]
    rfl
  | lock => exact .stays rfl (.inl rfl)
  | @unlock i r o m stands op object unlocked =>
    have hclasses : (k.released r m).classes = k.classes := by unfold released; split <;> rfl
    refine .stays ?_ (.inl hclasses)
    unfold released
    split
    · rfl
    · exact stack_wake _ _
  | @enter f f' g heap cs top same called acquired marks =>
    obtain ⟨th, rest, hth, hframes⟩ := topFrame_eq_ok.mp top
    refine .enters called acquired ?_ (fun v hv => ?_) marks
    · have hset : (({ k with heap, classes := cs } : Kernel).modifyThread t
          (·.setTop f')).threads[t.index]? = some (th.setTop f') := by
        rw [getElem?_modifyThread, if_pos rfl]
        exact congrArg (Option.map _) hth
      rw [stack_modifyThread_self hset, stack_of_thread hth]
      simp only [Thread.pushFrame, Thread.setTop, hframes, List.tail_cons, List.map_cons,
        same.method]
    · rw [stack_modifyThread_of_ne hv, stack_modifyThread_of_ne hv]
      rfl
  | @leave f th rest k₁ cs thread frames released marks =>
    have hstack : ({ k₁ with classes := cs } : Kernel).stack = _ := released.stack
    refine .leaves ?_ (fun v hv => ?_) marks
    · rw [hstack, stack_modifyThread_self thread, stack_of_thread thread, frames]
      rfl
    · rw [hstack, stack_modifyThread_of_ne hv]
  | @start r o run stub new object body made =>
    have hbody : k.RunsBody p r stub := ⟨o, run, object, body, made⟩
    have hadded : ((k.addThread r).2.markShared r).threads[(k.addThread r).1.index]? =
        some { id := (k.addThread r).1, object := r } := by
      show (k.addThread r).2.threads[(k.addThread r).1.index]? = _
      rw [getElem?_addThread, if_pos rfl]
    have hnone : k.stack (k.addThread r).1 = [] := by simp [stack, addThread]
    refine .stub (u := (k.addThread r).1) (Method.isStub_of_directCallStub made)
      hbody.sparesInitializers ?_ (fun v hv => ?_) rfl
    · rw [stack_modifyThread_self hadded, hnone]
      rfl
    · rw [stack_modifyThread_of_ne hv]
      unfold stack
      show (((k.addThread r).2.threads[v.index]?).map _).getD [] = _
      rw [getElem?_addThread, if_neg hv]

/-! ## Calls of tame methods -/

/-- From a method that calls no initializers, the initializer of a class is entered only because the
class is due. -/
theorem Calls.initializes (hp : p.InitializesOnUse) (hstack : ∀ m ∈ k.stack t, m.Tame p)
    (h : k.Calls p t m) (hinit : m.attributes.isClassInit = true) :
    ∃ i c, p.class? i = some c ∧ c.classInit? = some m ∧ ¬ k.Usable t i ∧
      ∀ s, c.superclass = some s → ∀ d ∈ p.chain s, k.Usable t d := by
  have hdeclares := h.declares
  cases h with
  | @method f i top instruction op callee =>
    have hname := (Program.isClassInit_iff hp.wellFormed hp.made hdeclares).mp hinit
    have hspares := (hstack _ (method_mem_stack_of_topFrame top)).spares i
      (Frame.mem_code_of_instruction instruction) op
    rw [Program.namesInitializer_of_callTarget hname callee] at hspares
    cases hspares
  | @initializer i c found init due above =>
    exact ⟨i, c, found, init, due (hp.wellFormed.ids i c found), above⟩

theorem Calls.tame (hp : p.InitializesOnUse) (hstack : ∀ m ∈ k.stack t, m.Tame p)
    (h : k.Calls p t m) : m.Tame p := by
  refine ⟨hp.calls m h.declares, fun hinit => ?_⟩
  obtain ⟨i, c, found, init, -⟩ := h.initializes hp hstack hinit
  obtain ⟨-, hs, hstatic, -⟩ :=
    Program.classInit?_eq_some hp.wellFormed hp.made hp.static found init
  exact ⟨hs, hstatic⟩

/-- When a thread enters the initializer of a class, it may not use the class yet, and may use the
superclasses. -/
theorem Calls.of_isClassInitOf (hp : p.InitializesOnUse) (hstack : ∀ m ∈ k.stack t, m.Tame p)
    (h : k.Calls p t m) {c : ClassId} (hc : m.isClassInitOf c = true) :
    ¬ k.Usable t c ∧ ∀ d ∈ (p.chain c).tail, k.Usable t d := by
  simp only [Method.isClassInitOf, Bool.and_eq_true, beq_iff_eq] at hc
  obtain ⟨i, k₀, found, init, due, above⟩ := h.initializes hp hstack hc.1
  obtain ⟨-, -, -, hclass⟩ :=
    Program.classInit?_eq_some hp.wellFormed hp.made hp.static found init
  obtain rfl : i = c := Option.some.inj (hclass.symm.trans hc.2)
  refine ⟨due, fun d hd => ?_⟩
  rw [Program.chain, Program.superclass?, found] at hd
  cases hs : k₀.superclass with
  | none => simp [hs] at hd
  | some s =>
    simp only [Option.bind_some, hs, List.tail_cons] at hd
    split at hd
    · exact above s hs d hd
    · cases hd

end Kernel

end Interleave

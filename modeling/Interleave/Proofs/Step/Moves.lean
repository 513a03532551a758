import Interleave.Proofs.Step.Operations
import Interleave.Step.Memory
import Mathlib.Logic.Relation

/-!
# What a step can do to the state

Whatever instruction a thread runs, it changes the state of the program by a handful of moves. A
move is as small as possible while the state in front of it and the one behind it both make sense on
their own: taking the monitor of a method and pushing its frame is one move, since a monitor is held
for a frame; so is popping a frame and giving back its monitor, with those woken that wait for it.

`Kernel.Move` lists the moves. What holds in front of each of them and is kept by each of them holds
along every run.
-/

namespace Interleave

/-- Two frames are of the same call. -/
structure Frame.SameCall (f f' : Frame) : Prop where
  method : f'.method = f.method
  receiver : f'.receiver = f.receiver

instance : IsPreorder Frame Frame.SameCall where
  refl _ := ⟨rfl, rfl⟩
  trans _ _ _ h h' := ⟨h'.method.trans h.method, h'.receiver.trans h.receiver⟩

/-- A method of some class of the program. -/
def Program.Declares (p : Program) (m : Method) : Prop :=
  ∃ i c, p.class? i = some c ∧ m ∈ c.methods

theorem Program.forall_declares_iff {p : Program} {q : Method → Prop} :
    (∀ m, p.Declares m → q m) ↔ ∀ c ∈ p.classes.toList, ∀ m ∈ c.methods, q m := by
  constructor
  · intro h c hc m hm
    obtain ⟨i, hi⟩ := List.getElem?_of_mem hc
    exact h m ⟨⟨i⟩, c, by simpa [class?] using hi, hm⟩
  · rintro h m ⟨i, c, hc, hm⟩
    exact h c (List.mem_of_getElem? (by simpa [class?] using hc)) m hm

/-- Does an instruction check a class before it does anything else? -/
def Opcode.checksClass (op : Opcode) : Bool :=
  op == .new || op == .getStatic || op == .putStatic || op == .invokeStatic

/-- The class that an instruction checks: the one that it names, or the one that declares the static
field. -/
def Program.checkedClass (p : Program) (i : Instruction) : Except Fault ClassId := do
  match i.op with
  | .new => return (← p.resolveClass (← i.className)).id
  | .getStatic | .putStatic => return (← Memory.staticField p (← i.fieldRef)).1
  | _ => return (← p.resolveClass (← i.methodRef).className).id

/-- An instruction needs a class: it checks the class or one below it, or it runs the initializer of
one below it. -/
inductive Program.Needs (p : Program) (i : Instruction) (d : ClassId) : Prop where
  | checked {c : ClassId} (op : i.op.checksClass = true) (named : p.checkedClass i = .ok c)
    (mem : d ∈ p.chain c)
  | above {name : String} {c : Class} {s : ClassId} (op : i.op = .invokeClinit)
    (operand : i.className = .ok name) (found : p.resolveClass name = .ok c)
    (superclass : c.superclass = some s) (mem : d ∈ p.chain s)

/-- A heap to which objects were added, and whose objects were changed in nothing but their data. -/
structure Heap.Extends (h h' : Heap) : Prop where
  /-- Objects keep their class and their monitor. -/
  kept : ∀ r o, h.get? r = some o →
    ∃ o', h'.get? r = some o' ∧ o'.classId = o.classId ∧ o'.monitor = o.monitor
  /-- Nobody owns the monitor of a new object. -/
  fresh : ∀ r o', h.get? r = none → h'.get? r = some o' → o'.monitor = .free

namespace Heap.Extends

protected theorem refl (h : Heap) : h.Extends h where
  kept _ o ho := ⟨o, ho, rfl, rfl⟩
  fresh _ _ hnone ho' := by
    rw [hnone] at ho'
    cases ho'

protected theorem trans {h₁ h₂ h₃ : Heap} (h : h₁.Extends h₂) (h' : h₂.Extends h₃) :
    h₁.Extends h₃ where
  kept r o ho := by
    obtain ⟨o₂, ho₂, hc, hm⟩ := h.kept r o ho
    obtain ⟨o₃, ho₃, hc', hm'⟩ := h'.kept r o₂ ho₂
    exact ⟨o₃, ho₃, hc'.trans hc, hm'.trans hm⟩
  fresh r o₃ hnone ho₃ := by
    cases ho₂ : h₂.get? r with
    | none => exact h'.fresh r o₃ ho₂ ho₃
    | some o₂ =>
      obtain ⟨o₃', ho₃', -, hm⟩ := h'.kept r o₂ ho₂
      rw [ho₃] at ho₃'
      cases ho₃'
      exact hm.trans (h.fresh r o₂ hnone ho₂)

theorem modify (h : Heap) (r : ObjRef) {f : Object → Object}
    (hf : ∀ o, (f o).classId = o.classId ∧ (f o).monitor = o.monitor) :
    h.Extends (h.modify r f) where
  kept s o ho := by
    rw [get?_modify]
    split
    · exact ⟨f o, by rw [ho]; rfl, (hf o).1, (hf o).2⟩
    · exact ⟨o, ho, rfl, rfl⟩
  fresh s o' hnone ho' := by
    rw [get?_modify, hnone] at ho'
    simp at ho'

theorem push (h : Heap) {o : Object} (hfree : o.monitor = .free) : h.Extends (h.push o).2 where
  kept s o' ho' := by
    rw [get?_push]
    split
    · rename_i hs
      rw [hs, get?_push_fst] at ho'
      cases ho'
    · exact ⟨o', ho', rfl, rfl⟩
  fresh s o' hnone ho' := by
    rw [get?_push] at ho'
    split at ho'
    · cases ho'
      exact hfree
    · rw [hnone] at ho'
      cases ho'

end Heap.Extends

namespace Kernel

/-- The heap after a thread has taken the monitor that a call of a method holds, if it holds
one. -/
inductive Acquired (k : Kernel) (t : ThreadId) (m : Method) (receiver : ObjRef) : Heap → Prop where
  /-- The method is not synchronized. -/
  | unneeded (h : m.isSynchronized = false) : Acquired k t m receiver k.heap
  /-- The thread could have the monitor. -/
  | locked {r : ObjRef} {o : Object} {l : Monitor} (h : m.isSynchronized = true)
    (target : k.lockTarget m receiver = .ok r) (object : k.heap.get? r = some o)
    (locked : o.monitor.lock t = some l) : Acquired k t m receiver (k.setMonitor r l).heap

/-- The state after a thread has given back the monitor that a call of a method held, if it held
one. -/
inductive Released (k : Kernel) (t : ThreadId) (m : Method) (receiver : ObjRef) :
    Kernel → Prop where
  /-- The method is not synchronized. -/
  | unneeded (h : m.isSynchronized = false) : Released k t m receiver k
  /-- The thread owned the monitor. -/
  | unlocked {r : ObjRef} {o : Object} {l : Monitor} (h : m.isSynchronized = true)
    (target : k.lockTarget m receiver = .ok r) (object : k.heap.get? r = some o)
    (unlocked : o.monitor.unlock t = some l) : Released k t m receiver (k.released r l)
  /-- The monitor had been given back before. -/
  | gone {r : ObjRef} {o : Object} (h : m.isSynchronized = true)
    (target : k.lockTarget m receiver = .ok r) (object : k.heap.get? r = some o)
    (owner : o.monitor.owner? ≠ some t) : Released k t m receiver k

theorem Released.classes {k k' : Kernel} {t : ThreadId} {m : Method} {receiver : ObjRef}
    (h : k.Released t m receiver k') : k'.classes = k.classes := by
  cases h with
  | unneeded => rfl
  | unlocked =>
    unfold released
    split <;> rfl
  | gone => rfl

/-- The states of the classes after a method has been entered or left, if that takes its class this
far. -/
inductive Marks (k : Kernel) (m : Method) (s : ClassStatus) : Array ClassState → Prop where
  /-- The method initializes no class. -/
  | unneeded (h : ∀ c, m.isClassInitOf c = false) : Marks k m s k.classes
  /-- It initializes this class. -/
  | initializer {c : ClassId} (h : m.isClassInitOf c = true) : Marks k m s (k.marked c s)

/-- Classes keep their class objects whatever is marked. -/
theorem Marks.objects {k : Kernel} {m : Method} {s : ClassStatus} {cs : Array ClassState}
    (h : k.Marks m s cs) : cs.map ClassState.object = k.classObjects := by
  cases h with
  | unneeded => rfl
  | initializer => exact k.map_object_marked _ s

/-- The same when only synchronized methods mark their classes. -/
theorem objects_of_marks {k : Kernel} {m : Method} {s : ClassStatus} {cs : Array ClassState}
    (h : if m.isSynchronized then k.Marks m s cs else cs = k.classes) :
    cs.map ClassState.object = k.classObjects := by
  split at h
  · exact h.objects
  · rw [h]
    rfl

/-- A method that initializes no class marks none, and another one its class. -/
theorem Marks.classStatus {k k' : Kernel} {m : Method} {s : ClassStatus}
    (h : k.Marks m s k'.classes) (c : ClassId) :
    k'.classStatus c =
      if m.isClassInitOf c then (k.classStatus c).map fun _ => s else k.classStatus c := by
  generalize hcs : k'.classes = cs at h
  cases h with
  | unneeded h =>
    rw [h c, classStatus_congr hcs]
    rfl
  | @initializer d h =>
    have hd : d = c ↔ m.isClassInitOf c = true := by
      simp only [Method.isClassInitOf, Bool.and_eq_true, beq_iff_eq] at h ⊢
      rw [h.2]
      simp [h.1]
    rw [classStatus_of_marked hcs]
    simp only [hd]

/-- A thread is about to run an instruction. -/
def At (k : Kernel) (t : ThreadId) (i : Instruction) : Prop :=
  ∃ f, k.topFrame t = .ok f ∧ f.instruction = .ok i

/-- A thread may use a class: it is initialized, or the thread is initializing it. -/
def Usable (k : Kernel) (t : ThreadId) (c : ClassId) : Prop :=
  k.classStatus c = .ok .initialized ∨ k.classStatus c = .ok (.initializing t)

theorem usable_congr {k k' : Kernel} {t : ThreadId} {c : ClassId} (h : k'.classes = k.classes) :
    k'.Usable t c ↔ k.Usable t c := by
  unfold Usable classStatus classState
  rw [h]

/-- The reasons for which a thread enters a method. -/
inductive Calls (p : Program) (k : Kernel) (t : ThreadId) (m : Method) : Prop where
  /-- It is about to run a call that lands in the method. -/
  | method {f : Frame} {i : Instruction} (top : k.topFrame t = .ok f)
    (instruction : f.instruction = .ok i) (op : i.op.isInvoke = true)
    (callee : p.callTarget k f i = .ok (some m))
  /-- The method is the initializer of a class that the thread may not use yet, while it may use the
  superclasses. -/
  | initializer {i : ClassId} {c : Class} (found : p.class? i = some c)
    (init : c.classInit? = some m) (due : c.id = i → ¬ k.Usable t i)
    (above : ∀ s, c.superclass = some s → ∀ d ∈ p.chain s, k.Usable t d)

/-- A change that a thread makes to the state of a program as a part of an instruction. -/
inductive Move (p : Program) (t : ThreadId) (k : Kernel) : Kernel → Prop where
  /-- It works on its top frame. -/
  | frame {f f' : Frame} (top : k.topFrame t = .ok f) (same : f.SameCall f') :
    Move p t k (k.modifyThread t (·.setTop f'))
  /-- It allocates objects or works on their data. -/
  | heap {h : Heap} (extension : k.heap.Extends h) : Move p t k { k with heap := h }
  /-- It records that a class is initialized. -/
  | settle (c : ClassId) : Move p t k { k with classes := k.marked c .initialized }
  /-- It pushes the stub of the initializer of a class that its instruction needs. -/
  | initializer {i : ClassId} {c : Class} {m stub : Method} {j : Instruction}
    (found : p.class? i = some c) (init : c.classInit? = some m)
    (made : m.directCallStub "[clinit]" p.stamp = .ok stub) (stands : k.At t j)
    (needs : p.Needs j i) :
    Move p t k (k.modifyThread t (·.pushFrame (Frame.enter stub .null)))
  /-- It takes a monitor. -/
  | lock {i : Instruction} {r : ObjRef} {o : Object} {m : Monitor} (stands : k.At t i)
    (op : i.op = .monitorEnter) (object : k.heap.get? r = some o)
    (locked : o.monitor.lock t = some m) : Move p t k (k.setMonitor r m)
  /-- It gives back a monitor. -/
  | unlock {i : Instruction} {r : ObjRef} {o : Object} {m : Monitor} (stands : k.At t i)
    (op : i.op = .monitorExit) (object : k.heap.get? r = some o)
    (unlocked : o.monitor.unlock t = some m) : Move p t k (k.released r m)
  /-- It enters a method, with its monitor if there is one, and takes the arguments off its top
  frame. A class is being initialized from the moment the monitor of its initializer is taken. -/
  | enter {f f' g : Frame} {h : Heap} {cs : Array ClassState} (top : k.topFrame t = .ok f)
    (same : f.SameCall f') (called : k.Calls p t g.method)
    (acquired : k.Acquired t g.method g.receiver h)
    (marks : if g.method.isSynchronized then k.Marks g.method (.initializing t) cs
      else cs = k.classes) :
    Move p t k
      (({ k with heap := h, classes := cs }.modifyThread t (·.setTop f')).modifyThread t
        (·.pushFrame g))
  /-- It leaves its top frame, and gives back its monitor if there is one. A class is initialized
  once its initializer has been left. -/
  | leave {f : Frame} {th : Thread} {rest : List Frame} {k' : Kernel} {cs : Array ClassState}
    (thread : k.threads[t.index]? = some th) (frames : th.frames = f :: rest)
    (released : (k.modifyThread t fun th => { th with frames := rest }).Released t f.method
      f.receiver k')
    (marks : k.Marks f.method .initialized cs) :
    Move p t k { k' with classes := cs }
  /-- It starts the thread of an object. -/
  | start {r : ObjRef} {o : Object} {run stub : Method} (new : k.threadOf? r = none)
    (object : k.heap.get? r = some o) (body : p.findMethod? o.classId "run()V" = some run)
    (made : run.directCallStub "[run]" p.stamp = .ok stub) :
    Move p t k (((k.addThread r).2.markShared r).modifyThread (k.addThread r).1
      (·.pushFrame ((Frame.enter stub r).pushed r.toSlot)))

end Kernel

/-- A part of a step has made some moves, and has neither consumed a choice nor left one behind. -/
structure Work.Moved (p : Program) (t : ThreadId) (w w' : Work) : Prop where
  /-- The state of the program is reached by moves. -/
  moves : Relation.ReflTransGen (Kernel.Move p t) w.kernel w'.kernel
  choice : w'.choice = w.choice
  pending : w'.pending = w.pending

instance (p : Program) (t : ThreadId) : IsPreorder Work (Work.Moved p t) where
  refl _ := ⟨.refl, rfl, rfl⟩
  trans _ _ _ h h' :=
    ⟨h.moves.trans h'.moves, h'.choice.trans h.choice, h'.pending.trans h.pending⟩

/-- The second work differs from the first one by this state, and by what it reports. -/
structure Work.Becomes (w : Work) (k : Kernel) (w' : Work) : Prop where
  kernel : w'.kernel = k
  choice : w'.choice = w.choice
  pending : w'.pending = w.pending

/-- Work that differs by one move. -/
theorem Work.Moved.of_becomes {p : Program} {t : ThreadId} {w w' : Work} {k : Kernel}
    (h : Kernel.Move p t w.kernel k) (hw : w.Becomes k w') : Work.Moved p t w w' :=
  ⟨hw.kernel ▸ .single h, hw.choice, hw.pending⟩

theorem Work.Moved.single {p : Program} {t : ThreadId} {w : Work} {k : Kernel}
    (h : Kernel.Move p t w.kernel k) : Work.Moved p t w { w with kernel := k } :=
  .of_becomes h ⟨rfl, rfl, rfl⟩

end Interleave

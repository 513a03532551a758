import Interleave.Proofs.Effect
import Interleave.Step.Execute

/-!
# Faults of instructions

Calls from outside are given up with faults of their own: an exception has left the call, or the
call needs a decision of the scheduler. A loop that has used up its bound has a fault of its own
too. No instruction fails with one of these. So whoever sees such a fault knows that it is the call
which was given up, or the loop which did not come to its end.

Among the faults of instructions, those of a thread or a frame that is not there stand apart. Most
of what an instruction looks up is something else.
-/

namespace Interleave

open Effect

/-- Is it a fault with which a call from outside is given up? -/
def Fault.givesUp : Fault → Bool
  | .hostCallSuspended _ => true
  | .unhandledException _ _ => true
  | _ => false

/-- Is it a fault that an instruction may fail with? -/
def Fault.isInner : Fault → Bool
  | .budgetExhausted => false
  | e => !e.givesUp

theorem Fault.givesUp_of_isInner {e : Fault} (h : e.isInner = true) : e.givesUp = false := by
  unfold isInner at h
  split at h
  · cases h
  · simpa using h

/-- Is it a fault that an instruction may fail with although its thread is there and has a
frame? -/
def Fault.isMishap : Fault → Bool
  | .noActiveFrame _ => false
  | .noSuchThread _ => false
  | e => e.isInner

theorem Fault.isInner_of_isMishap {e : Fault} (h : e.isMishap = true) : e.isInner = true := by
  unfold isMishap at h
  split at h
  · cases h
  · cases h
  · exact h

/-- If this is a failure, it is one of an instruction. -/
def Fault.Inner {α : Type} (x : Except Fault α) : Prop := ∀ e, x = .error e → e.isInner = true

/-- If this is a failure, something else than a thread or a frame has been looked for and is not
there. -/
def Fault.Sought {α : Type} (x : Except Fault α) : Prop := ∀ e, x = .error e → e.isMishap = true

namespace Fault.Inner

variable {α : Type}

theorem ok (a : α) : Inner (.ok a) := fun _ h => nomatch h

theorem error {e : Fault} (h : e.isInner = true) : Inner (.error e : Except Fault α) := by
  intro e' he
  cases he
  exact h

end Fault.Inner

namespace Fault.Sought

variable {α β : Type}

theorem ok (a : α) : Sought (.ok a) := fun _ h => nomatch h

theorem error {e : Fault} (h : e.isMishap = true) : Sought (.error e : Except Fault α) := by
  intro e' he
  cases he
  exact h

theorem inner {x : Except Fault α} (hx : Sought x) : Inner x := fun e he =>
  isInner_of_isMishap (hx e he)

theorem bind {x : Except Fault α} {f : α → Except Fault β} (hx : Sought x)
    (hf : ∀ a, Sought (f a)) : Sought (x >>= f) := by
  intro e h
  cases x with
  | ok a => exact hf a e h
  | error e' =>
    cases h
    exact hx e rfl

theorem map {x : Except Fault α} (hx : Sought x) (f : α → β) : Sought (x.map f) := by
  intro e h
  cases x with
  | ok a => cases h
  | error e' =>
    cases h
    exact hx e rfl

theorem mapM {f : α → Except Fault β} (hf : ∀ a, Sought (f a)) (as : List α) :
    Sought (as.mapM f) := by
  induction as with
  | nil => exact ok _
  | cons a as ih =>
    rw [List.mapM_cons]
    exact (hf a).bind fun b => ih.bind fun bs => ok _

end Fault.Sought

open Fault

/-! ## Looking things up -/

namespace Instruction

variable (i : Instruction)

theorem sought_localSlot : Sought i.localSlot := by
  unfold localSlot
  split
  · exact .ok _
  · exact .error rfl

theorem sought_intValue : Sought i.intValue := by
  unfold intValue
  split
  · exact .ok _
  · exact .error rfl

theorem sought_doubleBits : Sought i.doubleBits := by
  unfold doubleBits
  split
  · exact .ok _
  · exact .error rfl

theorem sought_increment : Sought i.increment := by
  unfold increment
  split
  · exact .ok _
  · exact .error rfl

theorem sought_target : Sought i.target := by
  unfold target
  split
  · exact .ok _
  · exact .error rfl

theorem sought_typeCode : Sought i.typeCode := by
  unfold typeCode
  split
  · exact .ok _
  · exact .error rfl

theorem sought_className : Sought i.className := by
  unfold className
  split
  · exact .ok _
  · exact .ok _
  · exact .ok _
  · exact .error rfl

theorem sought_fieldRef : Sought i.fieldRef := by
  unfold fieldRef
  split
  · exact .ok _
  · exact .error rfl

theorem sought_methodRef : Sought i.methodRef := by
  unfold methodRef
  split
  · exact .ok _
  · exact .error rfl

end Instruction

namespace Frame

variable (f : Frame)

theorem sought_instruction : Sought f.instruction := by
  unfold instruction
  split
  · exact .ok _
  · exact .error rfl

theorem sought_peek (n : Nat) : Sought (f.peek n) := by
  unfold peek
  split
  · exact .ok _
  · exact .error rfl

theorem sought_peekRef (n : Nat) : Sought (f.peekRef n) := (f.sought_peek n).map _

theorem sought_peekInt (n : Nat) : Sought (f.peekInt n) := (f.sought_peek n).map _

theorem sought_local? (n : Nat) : Sought (f.local? n) := by
  unfold local?
  split
  · exact .ok _
  · exact .error rfl

end Frame

theorem Thread.inner_top (th : Thread) : Inner th.top := by
  unfold top
  split
  · exact .ok _
  · exact .error rfl

namespace Kernel

variable (k : Kernel)

theorem inner_thread (t : ThreadId) : Inner (k.thread t) := by
  unfold thread
  split
  · exact .ok _
  · exact .error rfl

theorem inner_topFrame (t : ThreadId) : Inner (k.topFrame t) := by
  unfold topFrame
  split
  · rename_i th _
    exact th.inner_top
  · rename_i e he
    exact .error (k.inner_thread t e he)

theorem sought_object (r : ObjRef) : Sought (k.object r) := by
  unfold object
  split
  · exact .ok _
  · exact .error rfl

theorem sought_classState (c : ClassId) : Sought (k.classState c) := by
  unfold classState
  split
  · exact .ok _
  · exact .error rfl

theorem sought_classStatus (c : ClassId) : Sought (k.classStatus c) := (k.sought_classState c).map _

theorem sought_classObject (c : ClassId) : Sought (k.classObject c) := (k.sought_classState c).map _

theorem sought_setClassStatus (c : ClassId) (s : ClassStatus) : Sought (k.setClassStatus c s) := by
  unfold setClassStatus
  split
  · exact .ok _
  · exact .error rfl

theorem sought_lockTarget (m : Method) (receiver : ObjRef) : Sought (k.lockTarget m receiver) := by
  unfold lockTarget
  split
  · split
    · exact .error rfl
    · exact k.sought_classObject _
  · exact .ok _

end Kernel

namespace Method

theorem sought_stub (m : Method) (id : MethodId) (name : String) (stamp : Stamp) :
    Sought (m.stub id name stamp) := by
  unfold Method.stub
  cases m.owner with
  | none => exact .error rfl
  | some c =>
    -- no call has a branch or a handler that would have to be resolved
    unfold stubCall
    dsimp only
    split
    · split
      · exact .ok _
      · exact .ok _
    · split
      · exact .ok _
      · exact .ok _

theorem sought_directCallStub (m : Method) (name : String) (stamp : Stamp) :
    Sought (m.directCallStub name stamp) :=
  m.sought_stub _ _ _

theorem sought_instructionAt (m : Method) (position : Nat) : Sought (m.instructionAt position) := by
  unfold instructionAt
  split
  · exact .ok _
  · exact .error rfl

end Method

namespace Program

variable (p : Program)

theorem sought_resolveClass (name : String) : Sought (p.resolveClass name) := by
  unfold resolveClass
  split
  · exact .ok _
  · exact .error rfl

theorem sought_resolveMethod (r : MethodRef) : Sought (p.resolveMethod r) := by
  unfold resolveMethod
  split
  · rename_i e he
    exact .error (p.sought_resolveClass _ e he)
  · split
    · exact .ok _
    · exact .error rfl

theorem sought_callTarget (k : Kernel) (f : Frame) (i : Instruction) :
    Sought (p.callTarget k f i) := by
  refine i.sought_methodRef.bind fun r => (p.sought_resolveMethod r).bind fun declared => ?_
  split
  · exact .ok _
  · refine (f.sought_peekRef _).bind fun receiver => ?_
    split
    · exact .ok _
    · split
      · exact .ok _
      · exact (k.sought_object receiver).bind fun o => .ok _

end Program

namespace Memory

variable (p : Program)

theorem sought_instanceField (r : FieldRef) : Sought (instanceField p r) := by
  refine (p.sought_resolveClass _).bind fun c => ?_
  split
  · exact .ok _
  · exact .error rfl

theorem sought_staticField (r : FieldRef) : Sought (staticField p r) := by
  refine (p.sought_resolveClass _).bind fun c => ?_
  split
  · exact .ok _
  · exact .error rfl

theorem sought_readField (r : ObjRef) (o : Object) (slot : Nat) (form : ObjectForm) :
    Sought (readField r o slot form) := by
  unfold readField
  split
  · exact .ok _
  · exact .error rfl

theorem sought_elementCode (i : Instruction) : Sought (elementCode p i) := by
  unfold elementCode
  split
  · exact i.sought_typeCode
  · exact i.sought_className.bind fun name => (p.sought_resolveClass name).bind fun _ => .ok _

end Memory

namespace Call

theorem sought_sourceDomain (m : Method) (s : ValueSource) (f : Frame) :
    Sought (sourceDomain m s f) := by
  unfold sourceDomain
  split
  · exact .ok _
  · split
    · exact (f.sought_peekInt _).bind fun _ => (f.sought_peekInt _).bind fun _ => .ok _
    · exact .error rfl
  · split
    · exact (f.sought_peek _).bind fun _ => (f.sought_peek _).bind fun _ => .ok _
    · exact .error rfl
  · exact .ok _
  · exact .ok _
  · split
    · exact .error rfl
    · exact (Sought.mapM f.sought_peekRef _).bind fun _ => .ok _
  · exact .error rfl

end Call

namespace Unwound

theorem sought_handlerFor (p : Program) (c : ClassId) (f : Frame) : Sought (handlerFor p c f) := by
  unfold handlerFor
  split
  · rename_i e he
    exact .error (f.sought_instruction e he)
  · exact .ok _

end Unwound

/-! ## Work on one frame -/

/-- The computation faults only as instructions do. -/
abbrev Inwardly {σ α : Type} (x : EStateM Fault σ α) : Prop := Faults (fun e => e.isInner = true) x

/-- The computation faults only because something else than a thread or a frame is not there. -/
abbrev Seeks {σ α : Type} (x : EStateM Fault σ α) : Prop := Faults (fun e => e.isMishap = true) x

theorem Seeks.inwardly {σ α : Type} {x : EStateM Fault σ α} (h : Seeks x) : Inwardly x :=
  fun _ _ _ hx => Fault.isInner_of_isMishap (h hx)

namespace Frame

theorem seeks_lift {α : Type} {x : Except Fault α} (hx : Sought x) :
    Seeks (Action.lift x) := by
  cases x with
  | ok a => exact .pure a
  | error e => exact .throw (hx e rfl)

theorem seeks_push (v : Slot) : Seeks (push v) := .modify _

theorem seeks_pushInt (v : Int32) : Seeks (pushInt v) := seeks_push _

theorem seeks_pushRef (r : ObjRef) : Seeks (pushRef r) := seeks_push _

theorem seeks_pop : Seeks pop := by
  refine Faults.bind .get fun f => ?_
  split
  · exact .throw rfl
  · exact Faults.bind (.set _) fun _ => .pure _

theorem seeks_popSlots (n : Nat) : Seeks (popSlots n) := by
  refine Faults.bind .get fun f => ?_
  dsimp only
  split
  · exact Faults.bind (.throw rfl) fun _ => Faults.bind (.set _) fun _ => .pure _
  · exact Faults.bind (.set _) fun _ => .pure _

theorem seeks_popInt : Seeks popInt := seeks_pop.bind fun _ => .pure _

theorem seeks_popRef : Seeks popRef := seeks_pop.bind fun _ => .pure _

theorem seeks_pushWide (v : Slot) : Seeks (pushWide v) :=
  (seeks_push v).bind fun _ => seeks_push 0

theorem seeks_pushLong (v : Int64) : Seeks (pushLong v) := seeks_pushWide _

theorem seeks_popWide : Seeks popWide := seeks_pop.bind fun _ => seeks_pop

theorem seeks_popLong : Seeks popLong := seeks_popWide.bind fun _ => .pure _

theorem seeks_setLocal (slot : Nat) (v : Slot) : Seeks (setLocal slot v) := by
  refine Faults.bind .get fun f => ?_
  split
  · exact .set _
  · exact .throw rfl

theorem seeks_setLocalWide (slot : Nat) (v : Slot) : Seeks (setLocalWide slot v) :=
  (seeks_setLocal slot v).bind fun _ => seeks_setLocal _ 0

end Frame

namespace Local

open Interleave.Frame

theorem seeks_next (i : Instruction) : Seeks (next i) := .pure _

theorem seeks_branchTaken (op : Opcode) : Seeks (branchTaken op) := by
  unfold branchTaken
  split <;>
    repeat' with_reducible first
      | exact .pure _
      | exact seeks_popInt
      | exact seeks_popRef
      | refine Faults.bind ?_ fun _ => ?_

/-- An instruction that runs on its frame alone. -/
theorem seeks_execute (i : Instruction) : Seeks (execute i) := by
  unfold execute
  split <;>
    repeat' with_reducible first
      | exact .pure _
      | exact .get
      | exact seeks_next i
      | exact seeks_lift i.sought_intValue
      | exact seeks_lift i.sought_doubleBits
      | exact seeks_lift i.sought_localSlot
      | exact seeks_lift i.sought_increment
      | exact seeks_lift i.sought_target
      | exact seeks_lift (Frame.sought_local? _ _)
      | exact seeks_lift (Frame.sought_peek _ _)
      | exact seeks_push _
      | exact seeks_pop
      | exact seeks_pushInt _
      | exact seeks_popInt
      | exact seeks_pushWide _
      | exact seeks_pushLong _
      | exact seeks_popWide
      | exact seeks_popLong
      | exact seeks_popRef
      | exact seeks_setLocal _ _
      | exact seeks_setLocalWide _ _
      | exact seeks_branchTaken _
      | refine Faults.bind ?_ fun _ => ?_
      | split

end Local

end Interleave

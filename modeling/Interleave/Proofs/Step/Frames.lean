import Interleave.Proofs.Step.Moves

/-!
# Work on one frame

Computations on a frame leave it a frame of the same call, whatever they do to its locals and its
operands. In particular this holds of the instructions that run on a frame alone.
-/

namespace Interleave

open Effect

namespace Frame

variable {α : Type}

/-- The current instruction is one of the method. -/
theorem mem_code_of_instruction {f : Frame} {i : Instruction} (h : f.instruction = .ok i) :
    i ∈ f.method.code.toList := by
  unfold instruction instruction? Method.instruction? at h
  split at h
  · rename_i hget
    cases h
    exact Array.mem_toList_iff.mpr (Array.mem_of_getElem? hget)
  · cases h

theorem peek_eq_ok {f : Frame} {n : Nat} {v : Slot} :
    f.peek n = .ok v ↔ f.operands[n]? = some v := by
  unfold peek
  cases f.operands[n]? with
  | none => simp
  | some u => simp

theorem peekRef_eq_ok {f : Frame} {n : Nat} {r : ObjRef} :
    f.peekRef n = .ok r ↔ ∃ v, f.operands[n]? = some v ∧ r = ObjRef.ofSlot v := by
  simp only [← peek_eq_ok, peekRef]
  cases f.peek n with
  | error e => simp [Except.map]
  | ok v => simp [Except.map, eq_comm]

theorem peekInt_eq_ok {f : Frame} {n : Nat} {i : Int32} :
    f.peekInt n = .ok i ↔ ∃ v, f.operands[n]? = some v ∧ i = Slot.toInt v := by
  simp only [← peek_eq_ok, peekInt]
  cases f.peek n with
  | error e => simp [Except.map]
  | ok v => simp [Except.map, eq_comm]

theorem keeps_lift (e : Except Fault α) : Keeps SameCall (Action.lift e) := by
  cases e with
  | ok a => exact .pure a
  | error e => exact .throw e

/-- A change of locals, operands and position alone. -/
theorem keeps_modify {g : Frame → Frame} (h : ∀ f, SameCall f (g f)) :
    Keeps SameCall (modify g : Action Unit) := by
  intro f _ f' hf
  rw [modify_eq_ok] at hf
  exact hf ▸ h f

theorem keeps_push (v : Slot) : Keeps SameCall (push v) := keeps_modify fun _ => ⟨rfl, rfl⟩

theorem pop_eq_ok {f f' : Frame} {v : Slot} :
    pop f = .ok v f' ↔ ∃ rest, f.operands = v :: rest ∧ f' = { f with operands := rest } := by
  unfold pop
  rw [get_bind]
  cases hf : f.operands with
  | nil => simp
  | cons u rest =>
    simp only [bind_eq_ok, set_eq_ok, pure_eq_ok, List.cons.injEq]
    constructor
    · rintro ⟨_, _, rfl, rfl, rfl⟩
      exact ⟨rest, ⟨rfl, rfl⟩, rfl⟩
    · rintro ⟨_, ⟨rfl, rfl⟩, rfl⟩
      exact ⟨(), _, rfl, rfl, rfl⟩

theorem keeps_pop : Keeps SameCall pop := by
  intro f v f' h
  obtain ⟨rest, -, rfl⟩ := pop_eq_ok.mp h
  exact ⟨rfl, rfl⟩

theorem popSlots_eq_ok {n : Nat} {f f' : Frame} {vs : List Slot} :
    popSlots n f = .ok vs f' ↔ n ≤ f.operands.length ∧ vs = (f.operands.take n).reverse ∧
      f' = { f with operands := f.operands.drop n } := by
  unfold popSlots
  rw [get_bind]
  by_cases hn : f.operands.length < n
  · simp only [hn, if_true, bind_eq_ok, throw_eq_ok, false_and, exists_false, Nat.not_le.mpr hn]
  · simp only [hn, if_false, bind_eq_ok, set_eq_ok, pure_eq_ok]
    constructor
    · rintro ⟨_, _, rfl, rfl, rfl⟩
      exact ⟨Nat.not_lt.mp hn, rfl, rfl⟩
    · rintro ⟨-, rfl, rfl⟩
      exact ⟨(), _, rfl, rfl, rfl⟩

theorem keeps_popSlots (n : Nat) : Keeps SameCall (popSlots n) := by
  intro f vs f' h
  obtain ⟨-, -, rfl⟩ := popSlots_eq_ok.mp h
  exact ⟨rfl, rfl⟩

theorem keeps_pushInt (v : Int32) : Keeps SameCall (pushInt v) := keeps_push _

theorem keeps_popInt : Keeps SameCall popInt := keeps_pop.bind fun _ => .pure _

theorem keeps_pushWide (v : Slot) : Keeps SameCall (pushWide v) :=
  (keeps_push v).bind fun _ => keeps_push 0

theorem keeps_popWide : Keeps SameCall popWide := keeps_pop.bind fun _ => keeps_pop

theorem keeps_pushLong (v : Int64) : Keeps SameCall (pushLong v) := keeps_pushWide _

theorem keeps_popLong : Keeps SameCall popLong := keeps_popWide.bind fun _ => .pure _

theorem keeps_pushRef (r : ObjRef) : Keeps SameCall (pushRef r) := keeps_push _

theorem keeps_popRef : Keeps SameCall popRef := keeps_pop.bind fun _ => .pure _

theorem keeps_setLocal (slot : Nat) (v : Slot) : Keeps SameCall (setLocal slot v) := by
  intro f _ f' h
  unfold setLocal at h
  rw [get_bind] at h
  split at h
  · rw [set_eq_ok] at h
    exact h ▸ ⟨rfl, rfl⟩
  · simp at h

theorem keeps_setLocalWide (slot : Nat) (v : Slot) : Keeps SameCall (setLocalWide slot v) :=
  (keeps_setLocal slot v).bind fun _ => keeps_setLocal _ 0

end Frame

namespace Local

open Interleave.Frame

theorem keeps_next (i : Instruction) : Keeps SameCall (next i) := .pure _

theorem keeps_branchTaken (op : Opcode) : Keeps SameCall (branchTaken op) := by
  unfold branchTaken
  split <;>
    repeat' with_reducible first
      | exact .pure _
      | exact keeps_popInt
      | exact keeps_popRef
      | refine Keeps.bind ?_ fun _ => ?_

/-- An instruction that runs on its frame alone stays in its call. -/
theorem keeps_execute (i : Instruction) : Keeps SameCall (execute i) := by
  unfold execute
  split <;>
    repeat' with_reducible first
      | exact .pure _
      | exact .get
      | exact keeps_next i
      | exact keeps_lift _
      | exact keeps_push _
      | exact keeps_pop
      | exact keeps_pushInt _
      | exact keeps_popInt
      | exact keeps_pushWide _
      | exact keeps_popWide
      | exact keeps_pushLong _
      | exact keeps_popLong
      | exact keeps_popRef
      | exact keeps_setLocal _ _
      | exact keeps_setLocalWide _ _
      | exact keeps_branchTaken _
      | refine Keeps.bind ?_ fun _ => ?_
      | split

end Local

end Interleave

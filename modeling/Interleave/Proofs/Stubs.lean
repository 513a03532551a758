import Interleave.Method.Stub
import Mathlib.Tactic.Common

/-!
# What stubs look like

A stub consists of two instructions, a call and the one that leaves the stub. It belongs to no
class, holds no monitor, and is a firewall.
-/

namespace Interleave

namespace Method

/-- A method that calls another one for the machine. -/
structure IsStub (m : Method) : Prop where
  id : m.id = .directCall
  owner : m.owner = none
  synchronized : m.isSynchronized = false
  classInit : m.attributes.isClassInit = false
  /-- It calls a method, and then leaves. -/
  code : ∃ call ∈ [Opcode.invokeClinit, .invokeStatic, .invokeSpecial, .invokeVirtual],
    m.code.toList.map Instruction.op = [call, .directCallReturn]

theorem IsStub.isMachineOwned {m : Method} (h : m.IsStub) : m.isMachineOwned = true := by
  rw [Method.isMachineOwned, h.owner]
  rfl

/-- The first instruction of a stub is a call. It names the method that the stub is for, unless it
is the one that runs the initializer of a class. -/
theorem stubCall_eq (m : Method) (c : ClassRef) (a : Assembly) :
    ∃ call ∈ [Opcode.invokeClinit, .invokeStatic, .invokeSpecial, .invokeVirtual],
      ∃ operand, m.stubCall c a = a.emit call operand ∧
        (call = .invokeClinit ∨ (m.isStatic && m.attributes.isClassInit) = false ∧
          ∃ r : MethodRef, operand = .method r ∧ r.uniqueName = m.uniqueName) := by
  unfold stubCall
  split
  · split
    · exact ⟨.invokeClinit, by simp, _, rfl, .inl rfl⟩
    · rename_i hinit
      exact ⟨.invokeStatic, by simp, _, rfl, .inr ⟨by simp [hinit], _, rfl, rfl⟩⟩
  · rename_i hstatic
    split
    · exact ⟨.invokeSpecial, by simp, _, rfl, .inr ⟨by simp [hstatic], _, rfl, rfl⟩⟩
    · exact ⟨.invokeVirtual, by simp, _, rfl, .inr ⟨by simp [hstatic], _, rfl, rfl⟩⟩

/-- Every stub, whatever its id, holds no monitor, is a firewall, calls a method and then leaves. -/
theorem shape_of_stub {m stub : Method} {id : MethodId} {name : String} {stamp : Stamp}
    (h : m.stub id name stamp = .ok stub) :
    stub.id = id ∧ stub.owner = none ∧ stub.isSynchronized = false ∧
      stub.attributes.isClassInit = false ∧ stub.attributes.firewall = true ∧
      ∃ call ∈ [Opcode.invokeClinit, .invokeStatic, .invokeSpecial, .invokeVirtual],
        stub.code.toList.map Instruction.op = [call, .directCallReturn] := by
  unfold Method.stub at h
  cases howner : m.owner with
  | none => simp [howner] at h
  | some c =>
    obtain ⟨call, hcall, operand, he, -⟩ := m.stubCall_eq c { stamp }
    simp only [howner, he] at h
    have hstub : ∀ flags : Modifiers, flags.isSynchronized = false →
        ∀ stub, (({ stamp : Assembly }.emit call operand).emit .directCallReturn).install
          { make none name "()V" m.receiverSlots (m.callerSlots % 65536) flags with
            id, locals? := some [],
            attributes := { (make none name "()V" m.receiverSlots (m.callerSlots % 65536)
              flags).attributes with firewall := true } } = .ok stub →
        stub.id = id ∧ stub.owner = none ∧ stub.isSynchronized = false ∧
          stub.attributes.isClassInit = false ∧ stub.attributes.firewall = true ∧
          ∃ call ∈ [Opcode.invokeClinit, .invokeStatic, .invokeSpecial, .invokeVirtual],
            stub.code.toList.map Instruction.op = [call, .directCallReturn] := by
      intro flags hflags stub hinstall
      cases hinstall
      exact ⟨rfl, rfl, hflags, rfl, rfl, call, hcall, rfl⟩
    refine hstub _ ?_ stub h
    split <;> decide

/-- The stub for a direct call is one. -/
theorem isStub_of_directCallStub {m stub : Method} {name : String} {stamp : Stamp}
    (h : m.directCallStub name stamp = .ok stub) : stub.IsStub := by
  obtain ⟨hid, howner, hsynchronized, hinit, -, hcode⟩ := shape_of_stub h
  exact ⟨hid, howner, hsynchronized, hinit, hcode⟩

/-- A call in a stub names the method that the stub is for, which is not the initializer of a
class. -/
theorem methodRef_of_directCallStub {m stub : Method} {name : String} {stamp : Stamp}
    (h : m.directCallStub name stamp = .ok stub) {i : Instruction} (hi : i ∈ stub.code.toList)
    (hop : i.op.isInvoke = true) : (m.isStatic && m.attributes.isClassInit) = false ∧
      ∃ r, i.methodRef = .ok r ∧ r.uniqueName = m.uniqueName := by
  unfold directCallStub Method.stub at h
  cases howner : m.owner with
  | none => simp [howner] at h
  | some c =>
    obtain ⟨call, -, operand, he, hnames⟩ := m.stubCall_eq c { stamp }
    simp only [howner, he] at h
    cases h
    replace hi : i.op = call ∧ i.operand = operand ∨ i.op = .directCallReturn := by
      rcases List.mem_cons.mp hi with rfl | hi
      · exact .inl ⟨rfl, rfl⟩
      · rw [List.mem_singleton.mp hi]
        exact .inr rfl
    rcases hi with ⟨rfl, rfl⟩ | hreturn
    · rcases hnames with hclinit | ⟨hm, r, hr, hname⟩
      · rw [hclinit] at hop
        cases hop
      · exact ⟨hm, r, by simp [Instruction.methodRef, hr], hname⟩
    · rw [hreturn] at hop
      cases hop

end Method

end Interleave

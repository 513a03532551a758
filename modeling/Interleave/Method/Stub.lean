import Interleave.Assembly

/-!
# Call stubs

A stub is a short method of the machine that calls one method of the program and then leaves. The
machine pushes a frame for a stub wherever it has to call something that no instruction names: the
main method, the body of a new thread, a class initializer, a call from outside.

A stub takes its arguments on its own operand stack, has no signature to speak of, and is a
firewall.
-/

namespace Interleave.Method

/-- The instruction by which a stub calls a method of a class. -/
def stubCall (m : Method) (c : ClassRef) (a : Assembly) : Assembly :=
  if m.isStatic then
    if m.attributes.isClassInit then a.onClass .invokeClinit c.name
    else a.invoke .invokeStatic c.name m.name m.signature
  else if m.isConstructor || m.modifiers.contains .privateAccess then
    a.invoke .invokeSpecial c.name m.name m.signature
  else a.invoke .invokeVirtual c.name m.name m.signature

/-- A stub that calls the method, under a name of its own. -/
def stub (m : Method) (id : MethodId) (name : String) (stamp : Stamp) : Except Fault Method :=
  match m.owner with
  | none => .error (.stubWithoutClass m.uniqueName)
  | some c =>
    let bare := make none name "()V" m.receiverSlots (m.callerSlots % 65536)
      (if m.isStatic then .static else .empty)
    let a : Assembly := { stamp }
    (m.stubCall c a |>.emit .directCallReturn).install
      { bare with id, locals? := some [], attributes := { bare.attributes with firewall := true } }

/-- A stub for a direct call. -/
def directCallStub (m : Method) (name : String) (stamp : Stamp) : Except Fault Method :=
  m.stub .directCall name stamp

/-- A stub for a reflective call. -/
def reflectiveCallStub (m : Method) (stamp : Stamp) : Except Fault Method :=
  m.stub .reflectiveCall "[reflection]" stamp

end Interleave.Method

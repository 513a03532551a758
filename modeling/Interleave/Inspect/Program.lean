import Interleave.Inspect.Basic

/-!
# Descriptions of programs

What is shown of types, instructions, methods and classes.
-/

namespace Interleave

/-- A kind of value. -/
def TypeCode.describe (c : TypeCode) : Datum :=
  .record [("name", c.name), ("code", c.number), ("char", String.singleton c.letter),
    ("size", c.slotSize), ("ref", c.isReference), ("int", c.isIntLike), ("primitive", c.keyword?),
    ("choice", ChoiceKind.ofResult c)]

/-- An operation. -/
def Opcode.describe (op : Opcode) : Datum :=
  .record [("name", op.name), ("len", op.length), ("branch", op.isBranch), ("invoke", op.isInvoke),
    ("return", op.isReturn), ("extended", op.isExtended), ("mnemonic", op.mnemonic),
    ("choice_id", Relevance.pointName op)]

/-- A set of flags. -/
def Modifiers.describe (m : Modifiers) : Datum :=
  .list [m.bits, m.text, m.isStatic, m.isSynchronized, m.isVolatile]

/-- The readings of a text as a field descriptor. -/
def Descriptor.describe (text : String) : Datum :=
  .record [("check", check text), ("code", codeOf text), ("name", sourceName text),
    ("class", dottedName text)]

/-- A signature. -/
def Signature.describe (s : Signature) : Datum :=
  .record [("args", s.args), ("ret", s.result), ("check", true), ("types", s.argCodes),
    ("count", s.args.length), ("size", s.argSlots), ("names", s.argNames), ("ret_sig", s.result),
    ("ret_code", s.resultCode), ("ret_name", s.resultName), ("slots_static", s.callerSlots true),
    ("slots_virtual", s.callerSlots false)]

/-- An instruction with every reading of its operand. -/
def Instruction.describe (i : Instruction) : Datum :=
  .record [("show", i), ("first", i.isFirst), ("back", i.isBackJump), ("next", i.nextIndex),
    ("len", i.length), ("point", i.point), ("local", i.localSlot), ("int", i.intValue),
    ("double", i.doubleBits.map doubleBitsText), ("iinc", i.increment), ("target", i.target),
    ("type", i.typeCode), ("class", i.className), ("field", i.fieldRef.map FieldRef.name),
    ("method", i.methodRef.map MethodRef.uniqueName), ("message", i.message?)]

namespace Inspect

instance : Inspect ExceptionHandler :=
  ⟨fun h => .list [h.startPc, h.endPc, h.handlerPc, h.catchType]⟩

instance : Inspect Annotation := ⟨fun a => .list [a.typeName, a.values]⟩

instance : Inspect LocalVar := ⟨fun v => .list [v.name, v.slot]⟩

instance : Inspect Field where
  inspect f :=
    .list [f.name, f.descriptor, f.code, f.modifiers.bits, f.slot, f.modifiers.isVolatile]

instance : Inspect Class where
  inspect c := .record [("id", c.id), ("name", c.name), ("super", c.superclass),
    ("mods", c.modifiers.bits), ("source", c.sourceFile), ("interface", c.isInterface),
    ("fields", c.instanceFields), ("statics", c.staticFields),
    ("methods", c.methods.map fun m => (m.uniqueName, m.id)),
    ("clinit", c.classInit?.map Method.id)]

end Inspect

/-- A local variable with its scope. -/
def LocalVar.describe (v : LocalVar) : Datum :=
  .list [v.name, v.signature, v.genericSignature, v.startPc, v.length, v.slot]

namespace Method

/-- The properties that hold of a method, by name. -/
def properties (m : Method) : List String :=
  let has := m.modifiers.contains
  let a := m.attributes
  let all := [
    ("static", m.isStatic), ("synchronized", m.isSynchronized), ("public", has .publicAccess),
    ("private", has .privateAccess), ("protected", has .protectedAccess),
    ("package", m.isPackagePrivate), ("final", has .final), ("native", m.isNative),
    ("abstract", m.isAbstract), ("unresolved_native", m.isUnresolvedNative),
    ("synthetic", has .synthetic), ("varargs", has .varargs), ("atomic", a.atomic),
    ("hidden", a.hidden), ("firewall", a.firewall), ("clinit", a.isClassInit),
    ("init", a.isInstanceInit), ("ctor", m.isConstructor), ("internal", m.isInternal),
    ("sync_relevant", m.isSyncRelevant), ("vm_internal", m.isMachineOwned),
    ("direct_stub", m.isDirectCallStub), ("reflect_stub", m.isReflectiveCallStub),
    ("ref_return", m.resultCode.isReference), ("registered", m.id.isRegistered),
    ("has_annotations", m.annotations?.isSome)]
  (all.filter Prod.snd).map Prod.fst

/-- The names and numbers of a method. -/
def describe (m : Method) : Datum :=
  let a := m.attributes
  .record [("id", m.id), ("name", m.name), ("signature", m.signature),
    ("generic", m.genericSignature), ("unique", m.uniqueName), ("class_id", m.classId?),
    ("class", m.className), ("source", m.sourceFile), ("full", m.fullName), ("base", m.baseName),
    ("trace", m.traceName), ("long", m.longName), ("jni", m.nativeName),
    ("java", Mangling.methodName (some m.className) m.name none), ("n_args", m.arity),
    ("n_stack_args", m.stackArity), ("arg_size", m.argSlots), ("arg_types", m.argCodes),
    ("arg_names", m.argNames), ("ret", m.result), ("ret_name", m.resultName),
    ("ret_code", m.resultCode), ("ret_size", m.resultSlots), ("caller_slots", m.callerSlots),
    ("choice_kind", m.choiceKind), ("mods", m.modifiers.bits), ("flags", m.modifiers.text),
    ("max", (m.maxLocals, m.maxStack)), ("is", m.properties),
    ("attrs", [a.atomic, a.hidden, a.firewall, a.isClassInit, a.isInstanceInit])]

/-- The body of a method. -/
def describeBody (m : Method) : Datum :=
  .record [("code", m.code), ("has_code", m.code?.isSome), ("count", m.code.size),
    ("last", m.code.back?), ("empty", m.hasEmptyBody), ("handlers", m.handlers),
    ("lines", m.lines?), ("locals", m.locals?.map (·.map LocalVar.describe)), ("thrown", m.thrown),
    ("name", m.uniqueName), ("mods", m.modifiers.bits), ("firewall", m.attributes.firewall),
    ("max", (m.maxLocals, m.maxStack))]

end Method

end Interleave

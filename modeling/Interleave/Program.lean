import Interleave.Method.Stub

/-!
# Programs

A program is a table of classes and a table of methods. Classes are declared one by one, each after
its superclass, and methods are added to them; nothing is ever removed or changed. A program starts
with the classes that the machine itself refers to.

An object keeps the slots of its superclass in front of its own, so a field has the same slot in
every subclass.

Classes are looked up by name in the order in which they were declared, and so are the methods of a
class. No name is entered twice, so tables that are kept beside the lists, with a name entered when
a class or a method is appended, give the same answers. An operation that may fail checks everything
before it changes anything; a failed one leaves neither a list nor a table half changed.
-/

namespace Interleave

/-! ## Names of the classes every program has -/

namespace Builtin

/-- The superclass of all classes. -/
def object : String := "java/lang/Object"

/-- The class of the objects that stand for classes. -/
def classObject : String := "java/lang/Class"

/-- The class of threads. -/
def thread : String := "java/lang/Thread"

/-- The superclass of everything that can be thrown. -/
def throwable : String := "java/lang/Throwable"

/-- The superclass of exceptions. -/
def exception : String := "java/lang/Exception"

/-- The superclass of exceptions that instructions raise. -/
def runtimeException : String := "java/lang/RuntimeException"

/-- The superclass of errors. -/
def error : String := "java/lang/Error"

/-- Raised by an assertion that fails. -/
def assertionError : String := "java/lang/AssertionError"

/-- Raised by the use of the null reference. -/
def nullPointer : String := "java/lang/NullPointerException"

/-- Raised by a division by zero. -/
def arithmetic : String := "java/lang/ArithmeticException"

/-- Raised by an index outside an array. -/
def arrayIndex : String := "java/lang/ArrayIndexOutOfBoundsException"

/-- Raised by an array with a negative length. -/
def negativeArraySize : String := "java/lang/NegativeArraySizeException"

/-- Raised by giving back a lock that the thread does not hold. -/
def illegalMonitorState : String := "java/lang/IllegalMonitorStateException"

/-- Raised by starting a thread twice. -/
def illegalThreadState : String := "java/lang/IllegalThreadStateException"

/-- Raised by a call of a native method without a source of values. -/
def unsatisfiedLink : String := "java/lang/UnsatisfiedLinkError"

/-- Raised by a call of an abstract method. -/
def abstractMethod : String := "java/lang/AbstractMethodError"

end Builtin

/-- A field to declare. -/
structure FieldDecl where
  name : String
  /-- The descriptor of its type. -/
  descriptor : String
  modifiers : Modifiers := .empty
deriving DecidableEq, Repr, Inhabited

/-- A class to declare. -/
structure ClassDecl where
  name : String
  /-- The name of its superclass. -/
  superclass : String := Builtin.object
  modifiers : Modifiers := .publicAccess
  /-- The file it was compiled from. -/
  sourceFile : Option String := none
  /-- The fields it adds. -/
  fields : List FieldDecl := []
deriving DecidableEq, Repr, Inhabited

/-- A declared field. -/
structure Field where
  name : String
  /-- The descriptor of its type. -/
  descriptor : String
  /-- The kind of its type. -/
  code : TypeCode
  modifiers : Modifiers
  /-- Its slot in an instance, or in the class if it is static. -/
  slot : Nat
deriving DecidableEq, Repr, Inhabited

/-- A declared class. -/
structure Class where
  id : ClassId
  name : String
  /-- Its superclass; only the root of all classes has none. -/
  superclass : Option ClassId
  modifiers : Modifiers := .publicAccess
  /-- The file it was compiled from. -/
  sourceFile : Option String := none
  /-- The fields of an instance, those of the superclass first. -/
  instanceFields : List Field := []
  /-- The fields of the class itself. -/
  staticFields : List Field := []
  methods : List Method := []
deriving Inhabited

namespace Class

/-- Is the class an interface? -/
def isInterface (c : Class) : Bool := c.modifiers.contains .interface

/-- What the methods of the class know about it. -/
def ref (c : Class) : ClassRef :=
  { id := c.id, name := c.name, sourceFile := c.sourceFile, isInterface := c.isInterface }

/-- The declared method with a unique name. -/
def method? (c : Class) (uniqueName : String) : Option Method :=
  c.methods.find? (·.uniqueName == uniqueName)

/-- The class initializer, if one is declared. -/
def classInit? (c : Class) : Option Method := c.method? "<clinit>()V"

end Class

/-- Gives consecutive slots to fields. -/
def numberFields (start : Nat) (fields : List Field) : List Field :=
  fields.mapIdx fun i f => { f with slot := start + i }

/-- A program. -/
structure Program where
  /-- The classes, by number. -/
  classes : Array Class := #[]
  /-- The methods, by number. -/
  methods : Array Method := #[]
  /-- Decides the attachments of instructions. -/
  stamp : Stamp := .plain
deriving Inhabited

namespace Program

/-! ## Looking things up -/

/-- The class with a number. -/
def class? (p : Program) (c : ClassId) : Option Class := p.classes[c.index]?

/-- The number of the class with a name. -/
def classId? (p : Program) (name : String) : Option ClassId :=
  (p.classes.findIdx? (·.name == name)).map ClassId.mk

/-- The class with a name. -/
def classNamed? (p : Program) (name : String) : Option Class :=
  (p.classId? name).bind p.class?

/-- The class with a name, which must be there. -/
def resolveClass (p : Program) (name : String) : Except Fault Class :=
  match p.classNamed? name with
  | some c => .ok c
  | none => .error (.noSuchClass name)

/-- The superclass of a class. It is declared earlier, which is what makes chains end. -/
def superclass? (p : Program) (c : ClassId) : Option ClassId :=
  (p.class? c).bind Class.superclass

/-- A class, its superclass, and so on up to the root. -/
def chain (p : Program) (c : ClassId) : List ClassId :=
  c :: match p.superclass? c with
    | none => []
    | some s => if s.index < c.index then p.chain s else []
termination_by c.index

/-- Is the first class the second one or below it? -/
def isSubclass (p : Program) (sub sup : ClassId) : Bool := sup ∈ p.chain sub

/-- Is the class the named one or below it? -/
def isSubclassOfNamed (p : Program) (sub : ClassId) (name : String) : Bool :=
  (p.classId? name).any (p.isSubclass sub)

/-- The method that a class has under a unique name: the nearest one along its chain. -/
def findMethod? (p : Program) (c : ClassId) (uniqueName : String) : Option Method :=
  (p.chain c).findSome? fun c => (p.class? c).bind (·.method? uniqueName)

/-- The method that a reference denotes. -/
def resolveMethod (p : Program) (r : MethodRef) : Except Fault Method :=
  match p.resolveClass r.className with
  | .error e => .error e
  | .ok c =>
    match p.findMethod? c.id r.uniqueName with
    | some m => .ok m
    | none => .error (.noSuchMethod (r.className ++ "." ++ r.uniqueName))

/-- The method that a class declares itself under a unique name. -/
def declaredMethod (p : Program) (className uniqueName : String) : Except Fault Method :=
  match p.resolveClass className with
  | .error e => .error e
  | .ok c =>
    match c.method? uniqueName with
    | some m => .ok m
    | none => .error (.noSuchMethod (className ++ "." ++ uniqueName))

/-- The field of this name in the instances of a class; the last declared one hides the others. -/
def instanceField? (p : Program) (c : ClassId) (name : String) : Option Field :=
  (p.class? c).bind fun c => c.instanceFields.reverse.find? (·.name == name)

/-- The static field of this name along the chain of a class, and the class that declares it. -/
def staticField? (p : Program) (c : ClassId) (name : String) : Option (ClassId × Field) :=
  (p.chain c).findSome? fun c =>
    ((p.class? c).bind fun k => k.staticFields.find? (·.name == name)).map fun f => (c, f)

/-- The method that an id denotes. -/
def method? (p : Program) (m : MethodId) : Option Method := m.position?.bind (p.methods[·]?)

/-! ## Declaring -/

/-- Appends a class without fields of its own. -/
def pushClass (p : Program) (name : String) (superclass : Option ClassId) : Program :=
  let inherited := ((superclass.bind p.class?).map Class.instanceFields).getD []
  { p with
    classes := p.classes.push
      { id := ⟨p.classes.size⟩, name, superclass, instanceFields := inherited } }

/-- Appends a method to the table, where it takes its number. -/
def register (p : Program) (m : Method) : Method × Program :=
  let m := m.withId (.registered p.methods.size)
  (m, { p with methods := p.methods.push m })

/-- Appends a method to the table and to a class. -/
def attach (p : Program) (c : ClassId) (m : Method) : Method × Program :=
  let (m, p) := p.register m
  let classes := p.classes.modify c.index fun k => { k with methods := k.methods ++ [m] }
  (m, { p with classes })

/-- A field with its type read. -/
def checkField (className : String) (f : FieldDecl) : Except LoadFault Field :=
  match Descriptor.check f.descriptor with
  | .error e => .error (.invalidField className f.name e)
  | .ok code =>
    .ok { name := f.name, descriptor := f.descriptor, code, modifiers := f.modifiers, slot := 0 }

/-- Declares a class. -/
def declareClass (p : Program) (d : ClassDecl) : Except LoadFault (ClassId × Program) := do
  if (p.classId? d.name).isSome then .error (.duplicateClass d.name)
  else
    match p.classId? d.superclass with
    | none => .error (.unknownSuperclass d.name d.superclass)
    | some s =>
      let fields ← d.fields.mapM (checkField d.name)
      let (statics, own) := fields.partition (·.modifiers.isStatic)
      let p := p.pushClass d.name (some s)
      let id : ClassId := ⟨p.classes.size - 1⟩
      let fill (c : Class) : Class :=
        { c with
          modifiers := d.modifiers
          sourceFile := d.sourceFile
          instanceFields :=
            c.instanceFields ++ numberFields c.instanceFields.length own
          staticFields := numberFields 0 statics }
      .ok (id, { p with classes := p.classes.modify id.index fill })

/-- A method of a class, yet to be given a body and added. -/
def newMethod (p : Program) (c : ClassId) (name signature : String) (maxLocals maxStack : Nat)
    (modifiers : Modifiers) : Except Fault Method :=
  match p.class? c with
  | none => .error (.load (.unknownClass c))
  | some k => Method.new (some k.ref) name signature maxLocals maxStack modifiers

/-- Adds a method to its class. -/
def addMethod (p : Program) (m : Method) : Except LoadFault (Method × Program) :=
  match m.classId? with
  | none => .error (.methodWithoutClass m.uniqueName)
  | some c =>
    match p.class? c with
    | none => .error (.unknownClass c)
    | some k =>
      if (k.method? m.uniqueName).isSome then .error (.duplicateMethod k.name m.uniqueName)
      else .ok (p.attach c m)

/-- An assembly for a method of this program. -/
def assembly (p : Program) : Assembly := { stamp := p.stamp }

/-- Declares a method with a body. -/
def defineMethod (p : Program) (c : ClassId) (name signature : String) (modifiers : Modifiers)
    (maxLocals maxStack : Nat) (body : Assembly → Assembly) : Except Fault (Method × Program) := do
  let m ← p.newMethod c name signature maxLocals maxStack modifiers
  let m ← (body p.assembly).install m
  match p.addMethod m with
  | .ok r => .ok r
  | .error e => .error (.load e)

/-! ## The first classes -/

/-- Adds a method without arguments that returns at once. -/
def withEmptyMethod (c : ClassId) (name : String) (p : Program) : Program :=
  match p.class? c with
  | none => p
  | some k =>
    let m := Method.make (some k.ref) name "()V" 1 0 .publicAccess
    (p.attach c (m.withCode [{ op := .voidReturn }])).2

/-- Adds a class below another one. -/
def withSubclass (superclass : Nat) (p : Program) (name : String) : Program :=
  p.pushClass name (some ⟨superclass⟩)

/-- A program with nothing but the classes every program has. -/
def base (stamp : Stamp) : Program :=
  let p : Program := { stamp }
  let p := (p.pushClass Builtin.object none).withEmptyMethod ⟨0⟩ "<init>"
  let p := p.withSubclass 0 Builtin.classObject
  let p := p.withSubclass 0 Builtin.thread
  let p := (p.withEmptyMethod ⟨2⟩ "<init>").withEmptyMethod ⟨2⟩ "run"
  let p := (p.withSubclass 0 Builtin.throwable).withEmptyMethod ⟨3⟩ "<init>"
  let p := p.withSubclass 3 Builtin.exception
  let p := p.withSubclass 3 Builtin.error
  let p := p.withSubclass 4 Builtin.runtimeException
  let p := [Builtin.nullPointer, Builtin.arithmetic, Builtin.arrayIndex,
    Builtin.negativeArraySize, Builtin.illegalMonitorState, Builtin.illegalThreadState].foldl
      (withSubclass 6) p
  [Builtin.assertionError, Builtin.unsatisfiedLink, Builtin.abstractMethod].foldl
    (withSubclass 5) p

end Program

end Interleave

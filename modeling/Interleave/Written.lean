import Interleave.Program

/-!
# Written programs

Programs as they are written down: code in which places go by names, methods, and classes each with
its methods. Reading a written program declares its classes one after another, so a superclass has
to come before the classes below it. Names of classes, fields and methods inside code are not looked
up before the code runs.

A name of a place stands for the label whose number is the position at which the name is first
mentioned, so a name that is never given a place can be reported by its number.
-/

namespace Interleave

namespace Written

/-- A line of code. -/
inductive Line where
  /-- Names the place of the next instruction. -/
  | place (name : String)
  /-- Sets the source line of the instructions to come. -/
  | number (line : Nat)
  | plain (op : Opcode) (operand : Operand)
  /-- A branch to a named place. -/
  | branch (op : Opcode) (name : String)
deriving DecidableEq, Repr

/-- The place that a line mentions. -/
def Line.mentioned : Line → Option String
  | place n => some n
  | branch _ n => some n
  | _ => none

/-- An exception handler between named places. -/
structure Handler where
  /-- Where the range begins. -/
  start : String
  /-- Where the range has ended. -/
  stop : String
  /-- Where handling begins. -/
  handler : String
  /-- The class of exceptions that are handled; none stands for all. -/
  catchType : Option String := none
deriving DecidableEq, Repr

/-- The places that a handler mentions. -/
def Handler.mentioned (h : Handler) : List String := [h.start, h.stop, h.handler]

/-- Code with its exception handlers. -/
structure Code where
  lines : List Line
  handlers : List Handler := []
deriving DecidableEq, Repr

namespace Code

/-- The names of places, in the order in which they are first mentioned. -/
def names (c : Code) : List String :=
  (c.lines.filterMap Line.mentioned ++ c.handlers.flatMap Handler.mentioned).eraseDups

/-- The label that a name stands for, given all names. -/
def labelAmong (names : List String) (name : String) : Label := ⟨names.idxOf name⟩

/-- Adds a line to an assembly. -/
def emitLine (label : String → Label) (a : Assembly) : Line → Assembly
  | .place n => a.bind (label n)
  | .number n => a.line n
  | .plain op operand => a.emit op operand
  | .branch op n => a.branch op (label n)

/-- Adds a handler to an assembly. -/
def addHandler (label : String → Label) (a : Assembly) (h : Handler) : Assembly :=
  a.handler { start := label h.start, stop := label h.stop, handler := label h.handler,
              catchType := h.catchType }

/-- The code as an assembly. -/
def assembly (c : Code) (stamp : Stamp) : Assembly :=
  let names := c.names
  let label := labelAmong names
  let a : Assembly := { stamp, labels := .replicate names.length none }
  c.handlers.foldl (addHandler label) (c.lines.foldl (emitLine label) a)

end Code

/-- A method. -/
structure Method where
  name : String
  signature : String
  modifiers : Modifiers := .empty
  /-- The number of local slots. -/
  maxLocals : Nat := 4
  /-- The number of operand slots. -/
  maxStack : Nat := 4
  /-- Its code, if it has any. -/
  code : Option Code := none
  /-- Whether it is atomic, if that is said. -/
  atomic : Option Bool := none
  /-- Whether it is left out of reports, if that is said. -/
  hidden : Option Bool := none
  /-- Whether it is a firewall, if that is said. -/
  firewall : Option Bool := none
  /-- The values it may return, if it is a source of values. -/
  values : Option ValueSource := none
deriving Repr

/-- A class. -/
structure Class where
  decl : ClassDecl
  methods : List Method := []
deriving Repr

/-- The attributes of a method, where those that are said replace the given ones. -/
def Method.attributes (w : Method) (a : MethodAttributes) : MethodAttributes :=
  { a with
    atomic := w.atomic.getD a.atomic
    hidden := w.hidden.getD a.hidden
    firewall := w.firewall.getD a.firewall }

end Written

namespace Program

/-- Adds a written method to a class. -/
def addWritten (p : Program) (c : ClassId) (w : Written.Method) :
    Except Fault (Method × Program) := do
  let m ← p.newMethod c w.name w.signature w.maxLocals w.maxStack w.modifiers
  let m := { m with attributes := w.attributes m.attributes, attachments := { source := w.values } }
  let m ← match w.code with
    | none => pure m
    | some code => (code.assembly p.stamp).install m
  match p.addMethod m with
  | .ok r => .ok r
  | .error e => .error (.load e)

/-- Adds a written class with its methods. -/
def addWrittenClass (p : Program) (w : Written.Class) : Except Fault Program :=
  match p.declareClass w.decl with
  | .error e => .error (.load e)
  | .ok (c, p) => w.methods.foldlM (fun p m => (p.addWritten c m).map Prod.snd) p

/-- The program that has the written classes besides those that every program has. -/
def ofWritten (stamp : Stamp) (classes : List Written.Class) : Except Fault Program :=
  classes.foldlM addWrittenClass (base stamp)

end Program

end Interleave

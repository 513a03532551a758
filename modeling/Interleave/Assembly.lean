import Interleave.Method.Draft

/-!
# Assembly

Code is written by emitting instructions one after another. A branch goes to a label, which may be
bound to a place before or after the branch; lines and exception handlers are recorded on the way.
Installing the result in a method resolves the labels and lays the code out.

Every instruction of an assembly can carry attachments that depend on how many instructions came
before it; `Stamp` says which.
-/

namespace Interleave

/-- The attachments of the instruction with a given serial number in its assembly. -/
structure Stamp where
  /-- The attachments by number. -/
  attach : Nat → Attachments := fun _ => {}
deriving Inhabited

namespace Stamp

/-- No attachments. -/
def plain : Stamp := {}

/-- Each instruction carries its number. -/
def numbered : Stamp := ⟨fun n => { serial := some (UInt32.ofNat n) }⟩

end Stamp

/-- A place in code that may not be known yet, by the order in which it was made. -/
structure Label where
  number : Nat
deriving DecidableEq, Repr, Inhabited

/-- An exception handler between labels. -/
structure LabelledHandler where
  /-- Where the range begins. -/
  start : Label
  /-- Where the range has ended. -/
  stop : Label
  /-- Where handling begins. -/
  handler : Label
  /-- The class of exceptions that are handled; none stands for all. -/
  catchType : Option String := none
deriving DecidableEq, Repr, Inhabited

/-- Code under way. -/
structure Assembly where
  /-- Decides the attachments. -/
  stamp : Stamp := .plain
  /-- The instructions emitted so far. -/
  code : Array Instruction := #[]
  /-- The instruction each label is bound to, as an index. -/
  labels : Array (Option Nat) := #[]
  /-- The branches to resolve: the index of the instruction and its label. -/
  branches : Array (Nat × Label) := #[]
  /-- The lines recorded so far: the index of an instruction and its line. -/
  lines : Array (Nat × Nat) := #[]
  /-- The line of the instructions to come. -/
  line? : Option Nat := none
  handlers : List LabelledHandler := []
deriving Inhabited

namespace Assembly

/-- The index of the next instruction. -/
def nextIndex (a : Assembly) : Nat := a.code.size

/-- A new label. -/
def newLabel (a : Assembly) : Label × Assembly :=
  (⟨a.labels.size⟩, { a with labels := a.labels.push none })

/-- Binds a label to the next instruction. -/
def bind (a : Assembly) (l : Label) : Assembly :=
  { a with labels := a.labels.setIfInBounds l.number (some a.nextIndex) }

/-- Sets the line of the instructions to come. -/
def line (a : Assembly) (n : Nat) : Assembly := { a with line? := some n }

/-- Declares an exception handler. -/
def handler (a : Assembly) (h : LabelledHandler) : Assembly :=
  { a with handlers := a.handlers ++ [h] }

/-- Emits an instruction. -/
def emit (a : Assembly) (op : Opcode) (operand : Operand := .none) : Assembly :=
  { a with
    code := a.code.push { op, operand, attachments := a.stamp.attach a.code.size }
    lines := match a.line? with
      | some n => a.lines.push (a.nextIndex, n)
      | none => a.lines }

/-- Emits a branch to a label. -/
def branch (a : Assembly) (op : Opcode) (l : Label) : Assembly :=
  { a.emit op (.target 0) with branches := a.branches.push (a.nextIndex, l) }

/-- The index of the instruction that a label is bound to. -/
def indexOf (a : Assembly) (l : Label) : Except Fault Nat :=
  match a.labels[l.number]? with
  | some (some i) => .ok i
  | _ => .error (.unboundLabel l.number)

/-- Resolves branches one after another. -/
def resolveBranches (a : Assembly) : List (Nat × Label) → Array Instruction →
    Except Fault (Array Instruction)
  | [], code => .ok code
  | (i, l) :: rest, code =>
    match a.indexOf l with
    | .error e => .error e
    | .ok t => a.resolveBranches rest (code.modify i fun insn => { insn with operand := .target t })

/-- The instructions with their branches resolved. -/
def finish (a : Assembly) : Except Fault (List Instruction) :=
  (a.resolveBranches a.branches.toList a.code).map Array.toList

/-- A handler with the labels replaced by byte positions. -/
def resolveHandler (a : Assembly) (positionOf : Nat → Nat) (h : LabelledHandler) :
    Except Fault ExceptionHandler := do
  let start ← a.indexOf h.start
  let stop ← a.indexOf h.stop
  let handler ← a.indexOf h.handler
  pure { startPc := positionOf start, endPc := positionOf stop,
         handlerPc := positionOf handler, catchType := h.catchType }

/-- The byte at which the instruction with an index starts, or the end of the code. -/
def positionOf (code : List Instruction) (index : Nat) : Nat :=
  sumOf ((code.take index).map Instruction.length)

/-- The method with the assembled code, lines and handlers. Without lines or handlers of its own, an
assembly leaves those of the method in place. Handlers are resolved before branches, and lines are
entered at the bytes at which their instructions start. -/
def install (a : Assembly) (m : Method) : Except Fault Method := do
  let handlers ← a.handlers.mapM (a.resolveHandler (positionOf a.code.toList))
  let code ← a.finish
  let m := m.withCode code
  let m :=
    if a.lines.isEmpty then m
    else
      (a.lines.foldl (fun m (i, n) => m.setLineAt (positionOf code i) n)
        m.withBlankLines).withFilledLines
  pure (if handlers.isEmpty then m else { m with handlers? := some handlers })

/-! ## Shorthands -/

/-- Emits an instruction that loads or stores a local. -/
def onLocal (a : Assembly) (op : Opcode) (slot : Nat) : Assembly := a.emit op (.slot slot)

/-- Emits an int constant. -/
def iconst (a : Assembly) (v : Int32) : Assembly := a.emit .iConst (.int v.toInt64)

/-- Emits an instruction on a class. -/
def onClass (a : Assembly) (op : Opcode) (className : String) : Assembly :=
  a.emit op (.className className)

/-- Emits an instruction on a field. -/
def onField (a : Assembly) (op : Opcode) (className name descriptor : String) : Assembly :=
  a.emit op (.field { className, name, descriptor })

/-- Emits a call. -/
def invoke (a : Assembly) (op : Opcode) (className name signature : String) : Assembly :=
  a.emit op (.method { className, name, signature })

/-- Emits a check of the int on top of the stack. -/
def assertTrue (a : Assembly) (message : String) : Assembly := a.emit .assert (.message message)

end Assembly

/-- Installs an assembly in the method of a draft. The tables that the assembly brings along replace
those under way. -/
def Draft.install (a : Assembly) : Draft.Edit Unit := do
  let m ← Draft.lift (a.install (← get).method)
  modify fun d =>
    { d with
      method := m
      lineCount := if a.lines.isEmpty then d.lineCount else none
      handlers := if a.handlers.isEmpty then d.handlers else none }

end Interleave

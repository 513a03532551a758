import Interleave.Method.Lines

/-!
# Methods in the making

The tables of a method arrive entry by entry: a table is started with a number of entries, each
entry is set by its index, and finishing the table installs it. A table with an entry missing is not
installed, and is gone all the same.

The operations act on a draft, which is a method together with the tables under way. A fault leaves
the draft as the operation had it at that moment.
-/

namespace Interleave

/-- The entries of a table under way. -/
abbrev Entries (α : Type) := Array (Option α)

namespace Entries

variable {α : Type}

/-- A table without any entry set. -/
def blank (count : Nat) : Entries α := Array.replicate count none

/-- Sets an entry. -/
def put (es : Entries α) (table : MethodTable) (index : Nat) (value : α) :
    Except Fault (Entries α) :=
  if index < es.size then .ok (es.set! index (some value))
  else .error (.tableIndexOutOfRange table index)

/-- The values of all entries; the first one that is not set is a fault. -/
def values (es : Entries α) (table : MethodTable) : Except Fault (List α) :=
  go 0 es.toList
where
  go (index : Nat) : List (Option α) → Except Fault (List α)
    | [] => .ok []
    | none :: _ => .error (.missingTableEntry table index)
    | some v :: rest =>
      match go (index + 1) rest with
      | .error e => .error e
      | .ok vs => .ok (v :: vs)

end Entries

/-- A method and its tables under way. -/
structure Draft where
  /-- The method so far. -/
  method : Method
  /-- The exception handlers under way. -/
  handlers : Option (Entries ExceptionHandler) := none
  /-- The local variables under way. -/
  locals : Option (Entries LocalVar) := none
  /-- The number of line entries announced. -/
  lineCount : Option Nat := none
  /-- The parameter annotations under way. -/
  annotations : Option (Entries (List Annotation)) := none
  /-- The declared exceptions under way. -/
  thrown : Option (Entries String) := none
deriving Inhabited

namespace Draft

/-- A computation that changes a draft. -/
abbrev Edit := EStateM Fault Draft

/-- The entries of a table that has been started. -/
def started {α : Type} (table : MethodTable) (es : Option (Entries α)) : Edit (Entries α) :=
  match es with
  | some es => pure es
  | none => throw (.tableNotStarted table)

/-- The outcome of a computation that changes nothing. -/
def lift {α : Type} : Except Fault α → Edit α
  | .ok a => pure a
  | .error e => throw e

/-! ## Exception handlers -/

/-- Starts the table. -/
def startHandlers (count : Nat) : Edit Unit :=
  modify fun d => { d with handlers := some (.blank count) }

/-- Sets an entry. -/
def setHandler (index : Nat) (h : ExceptionHandler) : Edit Unit := do
  let es ← started .handlers (← get).handlers
  let es ← lift (es.put .handlers index h)
  modify fun d => { d with handlers := some es }

/-- Installs the table. -/
def finishHandlers : Edit Unit := do
  let es ← started .handlers (← get).handlers
  modify fun d => { d with handlers := none }
  let hs ← lift (es.values .handlers)
  modify fun d => { d with method := { d.method with handlers? := some hs } }

/-! ## Local variables -/

/-- Starts the table. -/
def startLocals (count : Nat) : Edit Unit :=
  modify fun d => { d with locals := some (.blank count) }

/-- Sets an entry. -/
def setLocal (index : Nat) (v : LocalVar) : Edit Unit := do
  let es ← started .locals (← get).locals
  let es ← lift (es.put .locals index v)
  modify fun d => { d with locals := some es }

/-- Installs the table. -/
def finishLocals : Edit Unit := do
  let es ← started .locals (← get).locals
  modify fun d => { d with locals := none }
  let vs ← lift (es.values .locals)
  modify fun d => { d with method := { d.method with locals? := some vs } }

/-! ## Source lines -/

/-- Starts the table, which needs code to refer to. -/
def startLines (count : Nat) : Edit Unit := do
  let m := (← get).method
  if m.code?.isNone then throw (.noCode m.fullName)
  modify fun d => { d with method := d.method.withBlankLines, lineCount := some count }

/-- Sets the line that begins at a byte. -/
def setLine (index line position : Nat) : Edit Unit := do
  match (← get).lineCount with
  | none => throw (.tableNotStarted .lines)
  | some count =>
    if count ≤ index then throw (.tableIndexOutOfRange .lines index)
    modify fun d => { d with method := d.method.setLineAt position line }

/-- Fills the gaps of the table. -/
def finishLines : Edit Unit :=
  modify fun d => { d with method := d.method.withFilledLines, lineCount := none }

/-! ## Annotations and declared exceptions -/

/-- Starts the table of parameter annotations. -/
def startAnnotations (count : Nat) : Edit Unit :=
  modify fun d => { d with annotations := some (.blank count) }

/-- Sets the annotations of a parameter. -/
def setAnnotations (index : Nat) (annotations : List Annotation) : Edit Unit := do
  let es ← started .annotations (← get).annotations
  let es ← lift (es.put .annotations index annotations)
  modify fun d => { d with annotations := some es }

/-- Installs the table of parameter annotations. -/
def finishAnnotations : Edit Unit := do
  let es ← started .annotations (← get).annotations
  modify fun d => { d with annotations := none }
  let vs ← lift (es.values .annotations)
  modify fun d => { d with method := { d.method with annotations? := some vs } }

/-- Starts the table of declared exceptions. -/
def startThrown (count : Nat) : Edit Unit :=
  modify fun d => { d with thrown := some (.blank count) }

/-- Sets a declared exception, given by its name or its descriptor. -/
def setThrown (index : Nat) (typeName : String) : Edit Unit := do
  let es ← started .thrown (← get).thrown
  let es ← lift (es.put .thrown index (Descriptor.dottedName typeName))
  modify fun d => { d with thrown := some es }

/-- Installs the table of declared exceptions. -/
def finishThrown : Edit Unit := do
  let es ← started .thrown (← get).thrown
  modify fun d => { d with thrown := none }
  let vs ← lift (es.values .thrown)
  modify fun d => { d with method := { d.method with thrown? := some vs } }

end Draft

end Interleave

import Interleave.Program

/-!
# Demonstration programs

Small programs with a known outcome: a race, its repair, a deadlock, and an assertion about
values that are picked at will.
-/

namespace Interleave

namespace Demo

/-- The class of the main method of every demonstration. -/
def mainClass : String := "demo/Main"

/-- The class of the threads that count. -/
def workerClass : String := "demo/Worker"

/-- The descriptor of a lock. -/
def lockDescriptor : String := "Ljava/lang/Object;"

/-- The flags of a main method. -/
def mainModifiers : Modifiers := .publicAccess ∪ .static

/-- A computation that adds to a program. -/
abbrev Build := StateT Program (Except Fault)

/-- Declares a class. -/
def declare (d : ClassDecl) : Build ClassId := do
  match (← get).declareClass d with
  | .error e => throw (.load e)
  | .ok (c, p) =>
    set p
    pure c

/-- Declares the main class with static fields. -/
def declareMain (statics : List (String × String)) : Build ClassId :=
  declare
    { name := mainClass
      fields := statics.map fun (name, descriptor) =>
        { name, descriptor, modifiers := .static } }

/-- Declares a method without arguments and result. -/
def define (c : ClassId) (name : String) (modifiers : Modifiers) (maxLocals : Nat)
    (body : Assembly → Assembly) : Build Unit := do
  let (_, p) ← (← get).defineMethod c name "()V" modifiers maxLocals 4 body
  set p

/-- Declares a class of threads with a body. -/
def defineWorker (className : String) (body : Assembly → Assembly) : Build Unit := do
  let c ← declare { name := className, superclass := Builtin.thread }
  define c "run" .publicAccess 1 body

/-! ## Pieces of code -/

/-- Makes an object and runs its constructor. -/
def newObject (className : String) (a : Assembly) : Assembly :=
  ((a.onClass .new className).emit .dup).invoke .invokeSpecial className "<init>" "()V"

/-- Makes a lock and stores it in a static field. -/
def newLock (field : String) (a : Assembly) : Assembly :=
  (newObject Builtin.object a).onField .putStatic mainClass field lockDescriptor

/-- Makes threads, starts them, and waits for them. -/
def startAndJoin (workers : List String) (a : Assembly) : Assembly :=
  let slots := List.range workers.length
  let a := (workers.zip slots).foldl (fun a (c, s) => (newObject c a).onLocal .aStore s) a
  let a := slots.foldl (fun a s => (a.onLocal .aLoad s).emit .threadStart) a
  slots.foldl (fun a s => (a.onLocal .aLoad s).emit .threadJoin) a

/-- Asserts that a comparison of the two ints on top takes its branch. -/
def assertBranch (op : Opcode) (message : String) (a : Assembly) : Assembly :=
  let (taken, a) := a.newLabel
  let (done, a) := a.newLabel
  let a := ((a.branch op taken).iconst 0).branch .goto done
  let a := (a.bind taken).iconst 1
  (a.bind done).assertTrue message

/-- Adds one to the counter. -/
def increment (a : Assembly) : Assembly :=
  (((a.onField .getStatic mainClass "count" "I").iconst 1).emit .iAdd).onField .putStatic mainClass
    "count" "I"

/-- Lets two threads count and asserts that both did. -/
def counterMain (a : Assembly) : Assembly :=
  let a := startAndJoin [workerClass, workerClass] a
  let a := (a.onField .getStatic mainClass "count" "I").iconst 2
  (assertBranch .ifICmpEq "count == 2" a).emit .voidReturn

/-! ## The programs -/

/-- Two threads count without a lock. -/
def racyCounter : Build Unit := do
  let main ← declareMain [("count", "I")]
  defineWorker workerClass fun a => (increment a).emit .voidReturn
  define main "main" mainModifiers 2 counterMain

/-- Two threads count in a synchronized method. -/
def syncCounter : Build Unit := do
  let main ← declareMain [("count", "I")]
  define main "inc" (.static ∪ .synchronized) 0 fun a => (increment a).emit .voidReturn
  defineWorker workerClass fun a =>
    (a.invoke .invokeStatic mainClass "inc" "()V").emit .voidReturn
  define main "main" mainModifiers 2 counterMain

/-- Takes or gives back the locks in two static fields. -/
def onLocks (op : Opcode) (fields : List String) (a : Assembly) : Assembly :=
  fields.foldl (fun a f => (a.onField .getStatic mainClass f lockDescriptor).emit op) a

/-- Two threads take two locks in opposite order. -/
def deadlock : Build Unit := do
  let main ← declareMain [("left", lockDescriptor), ("right", lockDescriptor)]
  let takeBoth (first second : String) (a : Assembly) : Assembly :=
    (onLocks .monitorExit [second, first] (onLocks .monitorEnter [first, second] a)).emit
      .voidReturn
  defineWorker "demo/LeftFirst" (takeBoth "left" "right")
  defineWorker "demo/RightFirst" (takeBoth "right" "left")
  define main "main" mainModifiers 2 fun a =>
    (startAndJoin ["demo/LeftFirst", "demo/RightFirst"] (newLock "right" (newLock "left" a))).emit
      .voidReturn

/-- Picks three values and asserts that they are not all equal. -/
def pickThree (a : Assembly) : Assembly :=
  let a := (List.range 3).foldl (fun a s =>
    (((a.iconst 0).iconst 2).invoke .invokeStatic "demo/Verify" "randomInt" "(II)I").onLocal
      .iStore s) a
  let (differ, a) := a.newLabel
  let (done, a) := a.newLabel
  let a := ((a.onLocal .iLoad 0).onLocal .iLoad 1).branch .ifICmpNe differ
  let a := ((a.onLocal .iLoad 1).onLocal .iLoad 2).branch .ifICmpNe differ
  let a := (a.iconst 0).branch .goto done
  let a := (a.bind differ).iconst 1
  ((a.bind done).assertTrue "values not all equal").emit .voidReturn

/-- Declares a source of ints. -/
def defineSource : Build Unit := do
  let verify ← declare { name := "demo/Verify" }
  let m ← (← get).newMethod verify "randomInt" "(II)I" 2 0
    (.publicAccess ∪ .static ∪ .native)
  match (← get).addMethod { m with attachments := { source := some {} } } with
  | .error e => throw (.load e)
  | .ok (_, p) => set p

/-- A source of ints and a main method that picks three of them. -/
def nondet : Build Unit := do
  let main ← declareMain []
  defineSource
  define main "main" mainModifiers 3 pickThree

end Demo

/-- A demonstration. -/
structure Demo where
  name : String
  /-- What it does, in a line. -/
  about : String
  /-- Makes the program. -/
  build : Demo.Build Unit

namespace Demo

/-- The demonstrations. -/
def all : List Demo :=
  [{ name := "racy-counter", about := "two threads increment a shared counter without a lock",
     build := racyCounter },
   { name := "sync-counter",
     about := "the same counter, incremented in a static synchronized method",
     build := syncCounter },
   { name := "deadlock", about := "two threads take two locks in opposite order",
     build := deadlock },
   { name := "nondet",
     about := "main picks three values in [0, 2] and asserts they are not all equal",
     build := nondet }]

/-- The demonstration of a name. -/
def find? (name : String) : Option Demo := all.find? (·.name == name)

/-- The program of a demonstration. -/
def program (d : Demo) : Except Fault Program :=
  (d.build.run (Program.base .plain)).map Prod.snd

end Demo

end Interleave

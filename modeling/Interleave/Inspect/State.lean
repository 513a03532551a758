import Interleave.Inspect.Basic
import Interleave.Machine.Walk

/-!
# Descriptions of states

What is shown of decisions, threads, objects, and of a machine as a whole. Frames and operands are
shown from the bottom up. Class objects are left out of the heap and shown with their classes, of
which only those are shown that anything has happened to.
-/

namespace Interleave

/-- The number of choices that are shown of a decision. -/
def Generator.previewSize : Nat := 8

namespace Inspect

instance : Inspect Generator where
  inspect g := .record [("id", g.id), ("kind", g.domain.kind), ("total", g.total),
    ("processed", g.processed), ("more", g.hasMore), ("cursor", g.cursor), ("current", g.current),
    ("threads", g.isThreadChoice),
    ("choices", (List.range Generator.previewSize).filterMap g.domain.get?)]

instance : Inspect Frame where
  inspect f := .record [("m", f.method.fullName), ("pc", f.pc), ("locals", f.locals),
    ("ops", f.operands.reverse), ("this", f.receiver)]

instance : Inspect Uncaught where
  inspect u := .record [("thread", u.thread), ("obj", u.exception), ("class", u.className),
    ("message", u.message), ("text", u.text)]

instance : Inspect Transient := ⟨fun t => .list [t.callee, t.receiver, t.result]⟩

instance : Inspect Path where
  inspect p := .record [("current", p.current), ("choice", p.choice), ("trail", p.trail),
    ("uncaught", p.uncaught)]

end Inspect

/-- A thread with its scratch data. -/
def Thread.describe (t : Thread) (s : Scratch) : Datum :=
  .record [("id", t.id), ("status", t.status), ("obj", t.object), ("first", s.firstStep),
    ("next", s.next), ("frames", t.frames.reverse)]

/-- An object of a program. -/
def Object.describe (p : Program) (r : ObjRef) (o : Object) : Datum :=
  .record [("ref", r), ("class", ((p.class? o.classId).map Class.name).getD "?"),
    ("kind", o.kind.text), ("data", o.data), ("lock", o.monitor), ("creator", o.creator),
    ("shared", o.shared), ("detail", o.detail)]

/-- Is an object the class object of a class? -/
def Object.isClassObject (o : Object) : Bool :=
  match o.kind with
  | .statics _ => true
  | _ => false

/-- The object that a reference denotes in the state of a program. -/
def Kernel.describeObject (k : Kernel) (p : Program) (r : ObjRef) : Datum :=
  (k.object r).map (Object.describe p r)

/-- The state of a class, if anything has happened to it. -/
def Kernel.describeClass (k : Kernel) (c : Class) (s : ClassState) : Option Datum :=
  let o := k.heap.get? s.object
  let statics := (o.map Object.data).getD #[]
  let monitor := (o.map Object.monitor).getD .free
  if s.status = .uninitialized ∧ statics.isEmpty ∧ monitor = .free then none
  else
    some (.record [("name", c.name), ("status", s.status), ("obj", s.object), ("statics", statics),
      ("lock", monitor)])

namespace Machine

/-- The whole state of a machine. -/
def describe (m : Machine) : Datum :=
  let k := m.kernel
  .record [("heap_len", k.heap.size),
    ("heap", (k.heap.entries.filter (!·.2.isClassObject)).map fun e =>
      e.2.describe m.program e.1),
    ("classes", (m.program.classes.toList.zip k.classes.toList).filterMap fun c =>
      k.describeClass c.1 c.2),
    ("threads", k.threads.map fun t => t.describe (m.scratchOf t.id)), ("system", m.path)]

/-- How a machine stands. -/
def describeStanding (m : Machine) : Datum :=
  .record [("started", m.path.started), ("end", m.kernel.isEndState),
    ("deadlocked", m.kernel.isDeadlocked), ("terminal", m.isTerminal),
    ("pending", m.pending.map Generator.id), ("depth", m.depth), ("current", m.current),
    ("uncaught", m.path.uncaught.map Uncaught.text)]

/-- The current instruction of a thread, and what its scheduling point would be. -/
def describeNext (m : Machine) (t : ThreadId) : Except Fault (Option Datum) :=
  (m.kernel.thread t).map fun th =>
    (th.frames.head?.bind Frame.instruction?).map fun i =>
      .list [i.op.mnemonic, Relevance.isRelevant m.program m.kernel t i, Relevance.pointName i.op]

end Machine

/-- A walk, with a line for each step and one more if it did not finish. -/
def Walk.describe (w : Walk) : List Datum :=
  let steps := w.steps.map fun s => (.text (s.1.text ++ " " ++ s.2.text) : Datum)
  match w.stop with
  | .finished => steps
  | .emptyChoice g => steps ++ [.text (g ++ " empty")]
  | .fault e => steps ++ [inspect e]

end Interleave

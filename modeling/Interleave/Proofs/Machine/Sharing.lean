import Interleave.Proofs.Machine.History
import Interleave.Proofs.Step.Stores

/-!
# What marks of shared objects mean

Once an object is marked as shared, it stays marked, and class objects are marked from the
beginning. A reference that is stored into a marked object marks what it refers to. But what an
object refers to at the moment it is marked stays as it is, and whatever is stored without regard to
what it may refer to marks nothing. So a mark may be missing: a marked object refers to one that is
not marked. Along a run, this comes about in these ways and in no others.
-/

namespace Interleave

open Effect

/-- Marks have not been taken away, from objects or from class objects. -/
structure Kernel.KeepsMarks (k k' : Kernel) : Prop where
  shared : ∀ r, k.heap.IsShared r → k'.heap.IsShared r
  statics : k.heap.SharesStatics → k'.heap.SharesStatics

instance : IsPreorder Kernel Kernel.KeepsMarks where
  refl _ := ⟨fun _ h => h, fun h => h⟩
  trans _ _ _ h h' := ⟨fun r hr => h'.shared r (h.shared r hr), fun hs => h'.statics (h.statics hs)⟩

/-- The heap of the first state has new objects only. -/
theorem Kernel.kept_initial (p : Program) : ({} : Heap).Kept (initial p).heap := by
  have halloc : ∀ (c : ClassId) (cs : List Class) (h : Heap) (states : Array ClassState),
      h.Kept (allocClassObjects c cs (h, states)).1 := by
    intro c cs
    induction cs with
    | nil => exact fun h _ => .refl h
    | cons d ds ih => exact fun h states => (Heap.Kept.allocClassObject h c d.id _).trans (ih _ _)
  exact halloc _ _ _ _

namespace Machine

variable {p : Program} {config : Config} {m : Machine} {x : Performed} {xs : List Performed}
  {k k' : Kernel} {r : ObjRef} {n : Nat} {v : Slot}

theorem kept_of_start {listening : Bool} {name : String} {u : Unit}
    (h : start name (Machine.new p config listening) = .ok u m) :
    ({} : Heap).Kept m.kernel.heap := by
  obtain ⟨c, main, stub, f, r, heap, -, -, -, -, -, -, hkept, -, hsame⟩ := start_spawns h
  rw [hsame.kernel]
  exact (Kernel.kept_initial p).trans hkept

/-- An instruction has stored a value into a slot without regard to what it may refer to. -/
def Performed.StoresPlainly (x : Performed) (r : ObjRef) (n : Nat) (v : Slot) : Prop :=
  x.machine.program.WritesPlain x.instruction n ∧ ¬ x.before.heap.Holds r n v ∧
    x.after.heap.Holds r n v

/-- How it has come about that an object that is referred to is not marked. -/
inductive Omits (xs : List Performed) (k : Kernel) (r : ObjRef) (n : Nat) (v : Slot) : Prop where
  /-- The reference was there when the object that holds it was not marked yet. -/
  | unshared {k' : Kernel} (mem : k' ∈ states xs k) (holds : k'.heap.Holds r n v)
    (unmarked : ¬ k'.heap.IsShared r)
  /-- The value was there when it did not refer to any object yet. -/
  | dangling {k' : Kernel} (mem : k' ∈ states xs k) (holds : k'.heap.Holds r n v)
    (none : k'.heap.get? (.ofSlot v) = none)
  /-- The value was not stored as a reference. -/
  | plain {x : Performed} (mem : x ∈ xs) (stores : x.StoresPlainly r n v)

theorem Omits.cons (x : Performed) (h : Omits xs k r n v) : Omits (x :: xs) k r n v := by
  cases h with
  | unshared mem holds unmarked => exact .unshared (List.mem_cons_of_mem _ mem) holds unmarked
  | dangling mem holds none => exact .dangling (List.mem_cons_of_mem _ mem) holds none
  | plain mem stores => exact .plain (List.mem_cons_of_mem _ mem) stores

namespace Performed.LeadsTo

/-- An instruction writes no slot, or it stores one value. -/
theorem kept_or_stored (h : x.LeadsTo m) : x.before.heap.Kept x.after.heap ∨
    ∃ r n v, x.before.heap.Stored x.machine.program x.instruction r n v x.after.heap := by
  rw [x.heap_after]
  exact Step.spares_or_stored h.performed

theorem keepsMarks (h : x.LeadsTo m) : x.before.KeepsMarks x.after := by
  rcases h.kept_or_stored with hkept | ⟨_, _, _, hstored⟩
  · exact ⟨fun _ => hkept.isShared, hkept.sharesStatics⟩
  · exact ⟨fun _ => hstored.isShared, hstored.sharesStatics⟩

/-- If a mark is missing after an instruction, it was missing before, or the instruction is one of
those that leave a mark out. -/
theorem lacks (h : x.LeadsTo m) (hlacks : x.after.heap.Lacks r n v) :
    x.before.heap.Lacks r n v ∨ Omits (x :: xs) k r n v := by
  have hholds : x.before.heap.Holds r n v ∨
      x.machine.program.WritesPlain x.instruction n := by
    rcases h.kept_or_stored with hkept | ⟨_, _, _, hstored⟩
    · exact .inl (hkept.holds hlacks.ne_zero hlacks.holds)
    · exact hstored.holds hlacks
  -- was the reference there before, was the object that holds it marked, was there an object?
  have hmem : x.before ∈ states (x :: xs) k := List.mem_cons_self
  by_cases hbefore : x.before.heap.Holds r n v
  · by_cases hshared : x.before.heap.IsShared r
    · cases hobject : x.before.heap.get? (.ofSlot v) with
      | none => exact .inr (.dangling hmem hbefore hobject)
      | some o =>
        refine .inl ⟨hshared, hbefore, ⟨o, hobject⟩, fun hmarked => ?_⟩
        exact hlacks.unmarked (h.keepsMarks.shared _ hmarked)
    · exact .inr (.unshared hmem hbefore hshared)
  · have hplain := hholds.resolve_left hbefore
    exact .inr (.plain List.mem_cons_self ⟨hplain, hbefore, hlacks.holds⟩)

end Performed.LeadsTo

/-- If a mark is missing at the end of a run, it was missing at the beginning, or it was left out on
the way. -/
theorem Succession.lacks (h : Succession p k xs k') (hlacks : k'.heap.Lacks r n v) :
    k.heap.Lacks r n v ∨ Omits xs k' r n v := by
  induction h with
  | nil => exact .inl hlacks
  | @cons x xs m k k' before program runs leads rest ih =>
    subst before
    rcases ih hlacks with hafter | homits
    · exact leads.lacks hafter
    · exact .inr (homits.cons x)

/-- What marks mean along a run that goes through these instructions to this state. -/
structure MarksShared (xs : List Performed) (k : Kernel) : Prop where
  /-- What is marked stays marked. -/
  stays : (states xs k).Pairwise fun k₁ k₂ => ∀ r, k₁.heap.IsShared r → k₂.heap.IsShared r
  /-- Class objects are marked at all times. -/
  statics : ∀ k' ∈ states xs k, k'.heap.SharesStatics
  /-- What a marked object refers to is marked, unless the mark was left out. -/
  closed : ∀ r n v, k.heap.IsShared r → k.heap.Holds r n v →
    (∃ o, k.heap.get? (.ofSlot v) = some o) → k.heap.IsShared (.ofSlot v) ∨ Omits xs k r n v

/-- **Marks are missing only where they were left out.** Along every run, what is marked as shared
stays marked, class objects are marked at all times, and an object that a slot of a marked object
refers to is marked too, unless the slot held the reference before its object was marked, or before
there was an object to refer to, or the slot was written by an instruction for values that are no
references. -/
theorem Recorded.marksShared (h : Recorded p config xs m) : MarksShared xs m.kernel := by
  obtain ⟨listening, name, m₀, hstart, hsuccession⟩ := h.exists_start
  have hfresh := kept_of_start hstart
  obtain ⟨hpairwise, hall⟩ :=
    hsuccession.pairwise (R := Kernel.KeepsMarks) fun _ _ _ h => h.keepsMarks
  refine ⟨hpairwise.imp fun h => h.shared, fun k' hk' => (hall k' hk').statics ?_, ?_⟩
  · exact hfresh.sharesStatics fun r o c ho => by simp [Heap.get?] at ho
  · intro r n v hshared hholds hobject
    by_contra hnot
    obtain ⟨hunmarked, homitted⟩ := not_or.mp hnot
    have hlacks : m.kernel.heap.Lacks r n v := ⟨hshared, hholds, hobject, hunmarked⟩
    rcases hsuccession.lacks hlacks with hbefore | homits
    · -- slots are blank at the beginning
      obtain ⟨o, ho, -⟩ := hfresh.holds hbefore.ne_zero hbefore.holds
      simp [Heap.get?] at ho
    · exact homitted homits

/-! ## An example -/

/-- An object is stored into another one, and this one into a static field. -/
def unmarkedTail : Demo.Build Unit := do
  let node := "demo/Node"
  let _ ← Demo.declare { name := node, fields := [{ name := "next", descriptor := "Ldemo/Node;" }] }
  let main ← Demo.declareMain [("root", "Ldemo/Node;")]
  Demo.define main "main" Demo.mainModifiers 0 fun a =>
    let a := ((a.onClass .new node).emit .dup).onClass .new node
    let a := a.onField .putField node "next" "Ldemo/Node;"
    (a.onField .putStatic Demo.mainClass "root" "Ldemo/Node;").emit .voidReturn

/-- In the end the object in the static field is marked, and the one that its field refers to is
not. -/
theorem exists_unmarkedTail : ∃ p m o c f,
    unmarkedTail.run (Program.base .plain) = .ok ((), p) ∧ Driven p {} m ∧
      m.kernel.heap.Lacks ⟨20⟩ 0 21 ∧ m.kernel.heap.get? ⟨20⟩ = some o ∧
      p.class? o.classId = some c ∧ c.instanceFields[0]? = some f ∧ f.slot = 0 ∧
      f.code.isReference = true := by
  obtain ⟨p, m, hbuild, hdriven, htest⟩ := Driven.exists_of_demo unmarkedTail [0]
    (fun p m => (m.kernel.heap.get? ⟨20⟩).any (fun o => o.shared && o.data[0]? == some 21 &&
      (p.class? o.classId).any fun c => (c.instanceFields[0]?).any fun f : Field =>
        decide (f.slot = 0) && f.code.isReference) &&
      (m.kernel.heap.get? (.ofSlot 21)).any fun o => !o.shared) (by decide +kernel)
  simp only [Bool.and_eq_true, Option.any_eq_true, beq_iff_eq, decide_eq_true_eq,
    Bool.not_eq_true'] at htest
  obtain ⟨⟨o, ho, ⟨hshared, hdata⟩, c, hc, f, hf, hslot, hreference⟩, o', ho', hunmarked⟩ := htest
  refine ⟨p, m, o, c, f, hbuild, hdriven, ⟨⟨o, ho, hshared⟩, ⟨o, ho, hdata⟩, ⟨o', ho'⟩, ?_⟩, ho, hc,
    hf, hslot, hreference⟩
  rintro ⟨o'', ho'', hmarked⟩
  rw [ho'] at ho''
  cases ho''
  rw [hunmarked] at hmarked
  cases hmarked

/-- The mark is missing because the reference was there when the object was marked. -/
theorem Recorded.marksShared_unmarkedTail : ∃ p xs m,
    unmarkedTail.run (Program.base .plain) = .ok ((), p) ∧ Recorded p {} xs m ∧
      MarksShared xs m.kernel ∧ m.kernel.heap.Lacks ⟨20⟩ 0 21 ∧ Omits xs m.kernel ⟨20⟩ 0 21 := by
  obtain ⟨p, m, o, c, f, hbuild, hdriven, hlacks, -⟩ := exists_unmarkedTail
  obtain ⟨xs, hrecorded⟩ := hdriven.exists_recorded
  have hmarks := hrecorded.marksShared
  refine ⟨p, xs, m, hbuild, hrecorded, hmarks, hlacks, ?_⟩
  exact (hmarks.closed ⟨20⟩ 0 21 hlacks.shared hlacks.holds hlacks.object).resolve_left
    hlacks.unmarked

/-- So marks are not closed under references: a reference field of a marked object may refer to an
object that is not marked. -/
theorem exists_unmarked_of_shared : ∃ p m r n v o c f,
    unmarkedTail.run (Program.base .plain) = .ok ((), p) ∧ Driven p {} m ∧
      m.kernel.heap.get? r = some o ∧ p.class? o.classId = some c ∧
      c.instanceFields[n]? = some f ∧ f.slot = n ∧ f.code.isReference = true ∧
      m.kernel.heap.IsShared r ∧ m.kernel.heap.Holds r n v ∧
      (∃ o', m.kernel.heap.get? (.ofSlot v) = some o') ∧ ¬ m.kernel.heap.IsShared (.ofSlot v) := by
  obtain ⟨p, m, o, c, f, hbuild, hdriven, hlacks, ho, hc, hf, hslot, hreference⟩ :=
    exists_unmarkedTail
  exact ⟨p, m, ⟨20⟩, 0, 21, o, c, f, hbuild, hdriven, ho, hc, hf, hslot, hreference, hlacks.shared,
    hlacks.holds, hlacks.object, hlacks.unmarked⟩

end Machine

end Interleave

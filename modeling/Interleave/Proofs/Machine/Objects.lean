import Interleave.Proofs.Machine.Driven
import Interleave.Proofs.Step.Stores

/-!
# What a step does to the objects that are there

Objects are appended and never removed, and little of an object ever changes. A step of a thread may
mark objects as shared, and it may store one value: then the instruction is one of those made for
that, it goes to the next instruction, the value was on top of the operands, and it is written to
the slot of the place that the operands below it denote. Whatever is loaded from that place
afterwards is the value. All other slots are left alone.
-/

namespace Interleave

open Effect

/-! ## Objects that last -/

/-- An object later in a run. -/
structure Object.Lasts (o o' : Object) : Prop where
  classId : o'.classId = o.classId
  creator : o'.creator = o.creator
  detail : o'.detail = o.detail
  /-- An instance, an array of such elements, or the class object of a class. -/
  kind : o'.kind = o.kind
  size : o'.data.size = o.data.size
  shared : o.shared = true → o'.shared = true

namespace Object

theorem Kept.lasts {o o' : Object} (h : o.Kept o') : o.Lasts o' where
  classId := h.classId
  creator := h.creator
  detail := h.detail
  kind := h.kind
  size := congrArg Array.size h.data
  shared := h.shared

theorem Lasts.setSlot (o : Object) (n : Nat) (v : Slot) : o.Lasts (o.setSlot n v) :=
  ⟨rfl, rfl, rfl, rfl, Array.size_setIfInBounds, id⟩

protected theorem Lasts.trans {o₁ o₂ o₃ : Object} (h : o₁.Lasts o₂) (h' : o₂.Lasts o₃) :
    o₁.Lasts o₃ where
  classId := h'.classId.trans h.classId
  creator := h'.creator.trans h.creator
  detail := h'.detail.trans h.detail
  kind := h'.kind.trans h.kind
  size := h'.size.trans h.size
  shared := h'.shared ∘ h.shared

end Object

namespace Heap

variable {h h' : Heap} {p : Program} {i : Instruction} {r s : ObjRef} {n : Nat} {v : Slot}

/-- References are handed out in order, so there are not fewer objects as long as those that are
there stay. -/
theorem size_le_of_old (hold : ∀ r o, h.get? r = some o → ∃ o', h'.get? r = some o') :
    h.size ≤ h'.size := by
  by_contra hlt
  have hsize : h'.objects.size < h.objects.size := Nat.lt_of_not_le hlt
  have hget : ∀ h₁ : Heap, h₁.get? ⟨h.objects.size⟩ = h₁.objects[h.objects.size - 1]? := by
    intro h₁
    refine if_neg ?_
    simp only [ObjRef.isNull, beq_iff_eq]
    omega
  obtain ⟨o', ho'⟩ := hold ⟨h.objects.size⟩ (h.objects[h.objects.size - 1]) (by
    rw [hget]
    exact Array.getElem?_eq_getElem (by omega))
  rw [hget] at ho'
  obtain ⟨hn, -⟩ := Array.getElem?_eq_some_iff.mp ho'
  omega

/-- A stored value is the only change of slots. -/
theorem Stored.old (hstored : Stored p i h r n v h') {o : Object} (ho : h.get? s = some o) :
    ∃ o', h'.get? s = some o' ∧ o.Lasts o' ∧
      o'.data = if r = s then o.data.setIfInBounds n v else o.data := by
  obtain ⟨h₁, hbefore, hafter⟩ := hstored.exists_setSlot
  obtain ⟨o₁, ho₁, hkept₁⟩ := hbefore.old s o ho
  by_cases hrs : r = s
  · obtain ⟨o', ho', hkept'⟩ := hafter.old s (o₁.setSlot n v) (by
      rw [get?_setSlot, if_pos hrs, ho₁]
      rfl)
    refine ⟨o', ho', (hkept₁.lasts.trans (.setSlot o₁ n v)).trans hkept'.lasts, ?_⟩
    rw [if_pos hrs, hkept'.data, ← hkept₁.data]
    rfl
  · obtain ⟨o', ho', hkept'⟩ := hafter.old s o₁ (by rw [get?_setSlot, if_neg hrs, ho₁])
    refine ⟨o', ho', hkept₁.lasts.trans hkept'.lasts, ?_⟩
    rw [if_neg hrs, hkept'.data, hkept₁.data]

end Heap

theorem Step.classObjects_of_perform {p : Program} {t : ThreadId} {i : Instruction} {w w' : Work}
    {out : Outcome} (hi : w.kernel.At t i) (h : perform p t i w = .ok out w') :
    w'.kernel.classObjects = w.kernel.classObjects := by
  rcases perform_eq_ok hi h with hran | ⟨-, hpaused⟩
  · exact (Kernel.Advance.of_moves hran.moves).classObjects
  · cases hpaused with
    | stalled hmoved _ status =>
      rw [status.kernel]
      exact (Kernel.Advance.of_moves hmoved.moves).classObjects
    | asked _ _ _ _ hmoved => exact (Kernel.Advance.of_moves hmoved.moves).classObjects

/-! ## Steps -/

namespace Machine

variable {m m' : Machine} {t : ThreadId}

/-- A thread completes an instruction: it neither raises an exception nor has to run the instruction
again, but goes to the next one. -/
def Completes (m : Machine) (t : ThreadId) (i : Instruction) : Prop :=
  ∃ w, Step.execute m.program t i m.work = .ok (.goto i.nextIndex) w

/-- A step has stored a value into a place, which denotes this slot of this object. -/
structure StoresInto (m : Machine) (t : ThreadId) (i : Instruction) (place : Place) (r : ObjRef)
    (n : Nat) (wide : Bool) (v : Slot) (m' : Machine) : Prop where
  denotes : place.Denotes m.program m.kernel r n wide
  /-- The value and the operands for the place are popped, and the thread goes on. -/
  popped : ∃ f pad address rest, m.kernel.topFrame t = .ok f ∧
    f.operands = Frame.row wide pad v ++ (address ++ rest) ∧ i.Stores address place ∧
    m'.kernel.topFrame t = .ok { f with operands := rest, pc := i.nextIndex }
  /-- The value is written, and nothing else. -/
  written : ∀ s o, m.kernel.heap.get? s = some o → ∃ o', m'.kernel.heap.get? s = some o' ∧
    o'.data = if r = s then o.data.setIfInBounds n v else o.data
  /-- It is what is loaded from the place then; other threads may have to initialize the class of a
  static field first. -/
  loaded : ∀ (w : Work) u j address f rest, w.kernel.heap = m'.kernel.heap →
    w.kernel.classes = m'.kernel.classes → (u = t ∨ ∀ ref, place ≠ .static ref) →
    j.Loads address place → w.kernel.topFrame u = .ok f → f.operands = address ++ rest →
    ∃ w', Step.execute m.program u j w = .ok (.goto j.nextIndex) w' ∧
      w'.kernel.topFrame u = .ok { f with operands := Frame.row wide 0 v ++ rest }

/-- How objects and classes evolve in a step of a thread. -/
structure Evolves (m : Machine) (t : ThreadId) (m' : Machine) : Prop where
  /-- Objects are appended. -/
  appended : m.kernel.heap.size ≤ m'.kernel.heap.size
  lasts : ∀ r o, m.kernel.heap.get? r = some o →
    ∃ o', m'.kernel.heap.get? r = some o' ∧ o.Lasts o'
  classObjects : m'.kernel.classObjects = m.kernel.classObjects
  /-- A store that is completed writes the value to the place, and nothing else. -/
  stored : ∀ i, m.kernel.At t i → i.op.stores = true → m.Completes t i →
    ∃ place r n wide v, m.StoresInto t i place r n wide v m'
  /-- Other instructions write no slot. -/
  spared : ∀ i, m.kernel.At t i → ¬ (i.op.stores = true ∧ m.Completes t i) → ∀ r o,
    m.kernel.heap.get? r = some o → ∃ o', m'.kernel.heap.get? r = some o' ∧ o'.data = o.data

theorem settle_objects (m : Machine) (t : ThreadId) (out : Outcome) :
    (m.settle t out).2.kernel.heap = m.kernel.heap ∧
      (m.settle t out).2.kernel.classes = m.kernel.classes := by
  cases out with
  | running => exact ⟨rfl, rfl⟩
  | finished => exact ⟨rfl, rfl⟩
  | escaped r =>
    simp only [settle, settle.escape]
    split
    · split
      · exact ⟨rfl, rfl⟩
      · exact ⟨rfl, rfl⟩
    · exact ⟨rfl, rfl⟩

/-- What a store that is completed leaves behind, when the machine has settled it. -/
theorem StoresInto.of_store {i : Instruction} {w w' : Work} {out : Outcome} {place : Place}
    {r : ObjRef} {n : Nat} {wide : Bool} {v : Slot}
    (hstore : Memory.Store m.program t i m.work place r n wide v w)
    (hfollow : Step.follow m.program t (.goto i.nextIndex) w = .ok out w')
    (hm' : out = .running → m'.kernel = w'.kernel)
    (hclasses : m'.kernel.classObjects = m.kernel.classObjects) :
    m.StoresInto t i place r n wide v m' := by
  obtain ⟨_, w₁, hgoto, hout⟩ := bind_eq_ok.mp hfollow
  obtain ⟨rfl, rfl⟩ := pure_eq_ok.mp hout
  obtain ⟨f₁, f₂, hf₁, hf₂, htop, hheap, hsame⟩ := Step.topFrame_of_onFrame hgoto
  obtain ⟨f, pad, address, rest, hf, hoperands, hstores, htop₁⟩ := hstore.operands
  rw [← hm' rfl] at htop hheap hsame
  have hold : ∀ s o, m.kernel.heap.get? s = some o → ∃ o', m'.kernel.heap.get? s = some o' ∧
      o.Lasts o' ∧ o'.data = if r = s then o.data.setIfInBounds n v else o.data := by
    intro s o ho
    rw [hheap]
    exact hstore.heap.old ho
  refine ⟨hstore.denotes, ⟨f, pad, address, rest, hf, hoperands, hstores, ?_⟩, ?_, ?_⟩
  · cases htop₁.symm.trans hf₁
    rw [htop, modify_eq_ok.mp hf₂]
  · intro s o ho
    obtain ⟨o', ho', -, hdata⟩ := hold s o ho
    exact ⟨o', ho', hdata⟩
  · intro w u j address f rest hwheap hwclasses hu hj hfu hfoperands
    have hdenotes : place.Denotes m.program w.kernel r n wide := by
      refine hstore.denotes.mono ?_ fun o ho => ?_
      · unfold Kernel.classObjects
        rw [hwclasses]
        exact hclasses
      · obtain ⟨o', ho', hlasts, -⟩ := hold r o ho
        exact ⟨o', hwheap ▸ ho', hlasts.kind, hlasts.size⟩
    have hholds : w.kernel.heap.Holds r n v := by
      obtain ⟨o, ho, hn⟩ := hstore.denotes.exists_object
      obtain ⟨o', ho', -, hdata⟩ := hold r o ho
      refine ⟨o', hwheap ▸ ho', ?_⟩
      rw [hdata, if_pos rfl, Array.getElem?_setIfInBounds_self_of_lt hn]
    have husable : place.Usable m.program w.kernel u := by
      intro ref c fd hplace hfound d hd
      rcases hu with rfl | hfield
      · exact (Kernel.usable_congr (hwclasses.trans hsame)).mpr
          (hstore.usable ref c fd hplace hfound d hd)
      · exact absurd hplace (hfield ref)
    exact Step.execute_of_loads hj hdenotes husable hholds hfu hfoperands

/-- **How objects evolve.** In a step of any thread objects are only appended, and those that are
there keep what they are and stay marked. Their slots are left alone, unless an instruction that
stores a value is completed: that one writes the value on top of its operands to the slot that its
place denotes, and this is what is loaded from the place afterwards. -/
theorem evolves_of_step {escaped : Bool} (h : step t m = .ok escaped m') : m.Evolves t m' := by
  obtain ⟨i, out, w', n, hat, hperform, ⟨-, -, -, hkernel, -, -⟩, -, hafter⟩ := step_eq_ok h
  have hm' : out = .running → m'.kernel = w'.kernel := by
    rintro rfl
    rw [hafter.kernel]
    exact hkernel
  obtain ⟨hheap, hclasses⟩ := settle_objects n t out
  rw [← hafter.kernel, hkernel] at hheap hclasses
  have hclassObjects : m'.kernel.classObjects = m.kernel.classObjects := by
    unfold Kernel.classObjects
    rw [hclasses]
    exact Step.classObjects_of_perform hat hperform
  have hsame : ∀ {j}, m.kernel.At t j → j = i := by
    rintro j ⟨f, hf, hj⟩
    obtain ⟨f', hf', hi⟩ := hat
    cases hf.symm.trans hf'
    cases hj.symm.trans hi
    rfl
  obtain ⟨flow, w₁, hexecute, hfollow⟩ := bind_eq_ok.mp hperform
  -- a store changes one slot; in all other respects objects last through any instruction
  have hlasts : ∀ r o, m.kernel.heap.get? r = some o →
      ∃ o', m'.kernel.heap.get? r = some o' ∧ o.Lasts o' := by
    intro r o ho
    rw [hheap]
    rcases Step.spares_or_stored hperform with hspares | ⟨s, k, v, hstored⟩
    · obtain ⟨o', ho', hkept⟩ := hspares.old r o ho
      exact ⟨o', ho', hkept.lasts⟩
    · obtain ⟨o', ho', hobject, -⟩ := hstored.old ho
      exact ⟨o', ho', hobject⟩
  refine ⟨Heap.size_le_of_old fun r o ho => ?_, hlasts, hclassObjects, ?_, ?_⟩
  · obtain ⟨o', ho', -⟩ := hlasts r o ho
    exact ⟨o', ho'⟩
  · rintro j hj hop ⟨w₂, hcompletes⟩
    obtain rfl := hsame hj
    cases hexecute.symm.trans hcompletes
    rcases Step.execute_stores hop hexecute with ⟨hflow, -⟩ | ⟨-, place, r, k, wide, v, hstore⟩
    · exact absurd rfl hflow
    · exact ⟨place, r, k, wide, v, .of_store hstore hfollow hm' hclassObjects⟩
  · intro j hj hother r o ho
    obtain rfl := hsame hj
    have hspares : m.work.Spares w₁ := by
      cases hop : j.op.stores with
      | false => exact Step.execute_spares hop hexecute
      | true =>
        rcases Step.execute_stores hop hexecute with ⟨-, hspares⟩ | ⟨rfl, -⟩
        · exact hspares
        · exact absurd ⟨hop, w₁, hexecute⟩ hother
    have hfollowed : w₁.Spares w' := (Step.leaving_follow flow).keeps hfollow
    obtain ⟨o', ho', hkept⟩ := (hspares.trans hfollowed).old r o ho
    rw [hheap]
    exact ⟨o', ho', hkept.data⟩

/-- A long is stored into a field of a new object. -/
def wideStore : Demo.Build Unit := do
  let cell := "demo/Cell"
  let _ ← Demo.declare { name := cell, fields := [{ name := "value", descriptor := "J" }] }
  let main ← Demo.declareMain []
  Demo.define main "main" Demo.mainModifiers 0 fun a =>
    let a := ((a.onClass .new cell).emit .dup).emit .lConst (.int 7)
    let a := (a.onField .putField cell "value" "J").onField .getField cell "value" "J"
    ((a.emit .pop).emit .pop).emit .voidReturn

/-- When the transition is broken in front of the store, the field is blank, and the next step
writes it. -/
theorem evolves_of_step_wideStore : ∃ p m m' r i,
    wideStore.run (Program.base .plain) = .ok ((), p) ∧
      Driven p { maxTransitionLength := 4 } m ∧ m.kernel.At .main i ∧ i.op = .putField ∧
      step .main m = .ok false m' ∧ m.Evolves .main m' ∧
      m.kernel.heap.Holds r 0 0 ∧ m'.kernel.heap.Holds r 0 7 := by
  obtain ⟨p, m, hbuild, hstart, htest⟩ := exists_start_of_build wideStore
    { maxTransitionLength := 4 }
    (fun _ m => m.pending.any fun (g : Generator) =>
      gives (transition (g.select 0).2) m fun _ m => gives (step .main) m fun b m' =>
        !b && ((m.kernel.topFrame .main).toOption.any fun f =>
          f.instruction.toOption.any fun i => i.op == .putField) &&
        ((m.kernel.heap.get? ⟨m.kernel.heap.size⟩).any fun o => o.data[0]? == some 0) &&
        (m'.kernel.heap.get? ⟨m.kernel.heap.size⟩).any fun o => o.data[0]? == some 7)
    (by decide +kernel)
  simp only [Option.any_eq_true, Bool.and_eq_true, beq_iff_eq, gives_iff, Bool.not_eq_true'] at htest
  obtain ⟨g, hg, e, m₁, hm₁, b, m', hstep, ⟨⟨rfl, f, hf, i, hi, hop⟩, o, ho, hbefore⟩, o', ho',
    hafter⟩ := htest
  have hdriven : Driven p { maxTransitionLength := 4 } m₁ := .transition (.start hstart) hm₁
  have hat : m₁.kernel.At .main i := by
    refine ⟨f, ?_, ?_⟩
    · cases htop : m₁.kernel.topFrame .main with
      | ok f' => simpa [htop, Except.toOption] using hf
      | error e => simp [htop, Except.toOption] at hf
    · cases hinstruction : f.instruction with
      | ok i' => simpa [hinstruction, Except.toOption] using hi
      | error e => simp [hinstruction, Except.toOption] at hi
  exact ⟨p, m₁, m', _, i, hbuild, hdriven, hat, hop, hstep, evolves_of_step hstep, ⟨o, ho, hbefore⟩,
    ⟨o', ho', hafter⟩⟩

end Machine

end Interleave

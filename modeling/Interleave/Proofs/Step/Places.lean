import Interleave.Proofs.Step.Calls
import Interleave.Proofs.Slots
import Interleave.Proofs.Step.Sources

/-!
# Where instructions store and load

An instance field, a static field or an element of an array is a place. Instructions that store into
a place and instructions that load from it take the same operands to find it; a value to be stored
lies above them. A value takes one operand, or two, of which the one on top is only padding.

A place denotes a slot of an object that is there. What that slot holds is what a load from the
place pushes, with a blank padding.
-/

namespace Interleave

open Effect

namespace Frame

/-- The operands of a value, the top one first. -/
def row (wide : Bool) (pad v : Slot) : List Slot := if wide then [pad, v] else [v]

theorem popInt_eq_ok {f f' : Frame} {n : Int32} : popInt f = .ok n f' ↔
    ∃ s rest, f.operands = s :: rest ∧ n = Slot.toInt s ∧ f' = { f with operands := rest } := by
  simp only [popInt, bind_eq_ok, pop_eq_ok, pure_eq_ok]
  constructor
  · rintro ⟨s, _, ⟨rest, hf, rfl⟩, rfl, rfl⟩
    exact ⟨s, rest, hf, rfl, rfl⟩
  · rintro ⟨s, rest, hf, rfl, rfl⟩
    exact ⟨s, _, ⟨rest, hf, rfl⟩, rfl, rfl⟩

theorem popRef_eq_ok {f f' : Frame} {r : ObjRef} : popRef f = .ok r f' ↔
    ∃ s rest, f.operands = s :: rest ∧ r = .ofSlot s ∧ f' = { f with operands := rest } := by
  simp only [popRef, bind_eq_ok, pop_eq_ok, pure_eq_ok]
  constructor
  · rintro ⟨s, _, ⟨rest, hf, rfl⟩, rfl, rfl⟩
    exact ⟨s, rest, hf, rfl, rfl⟩
  · rintro ⟨s, rest, hf, rfl, rfl⟩
    exact ⟨s, _, ⟨rest, hf, rfl⟩, rfl, rfl⟩

end Frame

namespace Memory

theorem popValue_eq_ok {code : TypeCode} {f f' : Frame} {v : Slot}
    (h : popValue code f = .ok v f') : ∃ pad rest,
      f.operands = Frame.row (code.slotSize = 2) pad v ++ rest ∧
        f' = { f with operands := rest } := by
  unfold popValue at h
  unfold Frame.row
  split at h
  · rename_i hwide
    unfold Frame.popWide at h
    simp only [bind_eq_ok, Frame.pop_eq_ok] at h
    obtain ⟨pad, _, ⟨rest, hpad, rfl⟩, rest', hv, rfl⟩ := h
    refine ⟨pad, rest', ?_, rfl⟩
    rw [hpad, show rest = v :: rest' from hv]
    simp [hwide]
  · rename_i hnarrow
    obtain ⟨rest, hv, rfl⟩ := Frame.pop_eq_ok.mp h
    refine ⟨0, rest, ?_, rfl⟩
    rw [hv]
    simp [hnarrow]

theorem pushValue_eq_ok (code : TypeCode) (v : Slot) (f : Frame) : pushValue code v f = .ok ()
    { f with operands := Frame.row (code.slotSize = 2) 0 v ++ f.operands } := by
  unfold pushValue Frame.row
  split
  · rename_i hwide
    simp only [hwide, decide_true, if_true]
    rfl
  · rename_i hnarrow
    simp only [hnarrow, decide_false, Bool.false_eq_true, if_false]
    rfl

end Memory

/-! ## Places -/

/-- Where a value may be stored. -/
inductive Place where
  /-- An instance field of an object. -/
  | field (ref : FieldRef) (object : ObjRef)
  | static (ref : FieldRef)
  | element (array : ObjRef) (index : Int32)

namespace Instruction

/-- With these operands below the value, the instruction stores the value into this place. -/
inductive Stores (i : Instruction) : List Slot → Place → Prop where
  | field {ref : FieldRef} {s : Slot} (op : i.op = .putField) (operand : i.fieldRef = .ok ref) :
    Stores i [s] (.field ref (.ofSlot s))
  | static {ref : FieldRef} (op : i.op = .putStatic) (operand : i.fieldRef = .ok ref) :
    Stores i [] (.static ref)
  | element {n s : Slot} (op : i.op = .iAStore ∨ i.op = .aAStore) :
    Stores i [n, s] (.element (.ofSlot s) (Slot.toInt n))

/-- With these operands, the instruction loads what is in this place. -/
inductive Loads (i : Instruction) : List Slot → Place → Prop where
  | field {ref : FieldRef} {s : Slot} (op : i.op = .getField) (operand : i.fieldRef = .ok ref) :
    Loads i [s] (.field ref (.ofSlot s))
  | static {ref : FieldRef} (op : i.op = .getStatic) (operand : i.fieldRef = .ok ref) :
    Loads i [] (.static ref)
  | element {n s : Slot} (op : i.op = .iALoad ∨ i.op = .aALoad) :
    Loads i [n, s] (.element (.ofSlot s) (Slot.toInt n))

end Instruction

namespace Place

/-- The place is this slot of this object, and its values are wide or not. -/
inductive Denotes (p : Program) (k : Kernel) : Place → ObjRef → Nat → Bool → Prop where
  | field {ref : FieldRef} {r : ObjRef} {f : Field} {o : Object}
    (found : Memory.instanceField p ref = .ok f) (object : k.heap.get? r = some o)
    (form : o.isArray = false) (there : f.slot < o.data.size) :
    Denotes p k (.field ref r) r f.slot (f.code.slotSize = 2)
  | static {ref : FieldRef} {c : ClassId} {f : Field} {r : ObjRef} {o : Object}
    (found : Memory.staticField p ref = .ok (c, f)) (classObject : k.classObject c = .ok r)
    (object : k.heap.get? r = some o) (form : o.isArray = false) (there : f.slot < o.data.size) :
    Denotes p k (.static ref) r f.slot (f.code.slotSize = 2)
  | element {r : ObjRef} {index : Int32} {o : Object} (object : k.heap.get? r = some o)
    (form : o.isArray = true) (there : Memory.inBounds index o.data.size = true) :
    Denotes p k (.element r index) r index.toInt.toNat false

/-- If it is a static field, a thread may use the class. -/
def Usable (p : Program) (k : Kernel) (t : ThreadId) (place : Place) : Prop :=
  ∀ ref c f, place = .static ref → Memory.staticField p ref = .ok (c, f) →
    ∀ d ∈ p.chain c, k.Usable t d

variable {p : Program} {k k' : Kernel} {place : Place} {r : ObjRef} {n : Nat} {wide : Bool}

theorem Denotes.exists_object (h : place.Denotes p k r n wide) :
    ∃ o, k.heap.get? r = some o ∧ n < o.data.size := by
  cases h with
  | field _ object _ there => exact ⟨_, object, there⟩
  | static _ _ object _ there => exact ⟨_, object, there⟩
  | element object _ there =>
    refine ⟨_, object, ?_⟩
    simp only [Memory.inBounds, Bool.and_eq_true, decide_eq_true_eq] at there
    have hnonneg := Int32.le_iff_toInt_le.mp there.1
    rw [show (0 : Int32).toInt = 0 from rfl] at hnonneg
    omega

/-- A place denotes the same slot as long as objects keep their kind and their size. -/
theorem Denotes.mono (h : place.Denotes p k r n wide) (hclasses : k'.classObjects = k.classObjects)
    (hheap : ∀ o, k.heap.get? r = some o → ∃ o', k'.heap.get? r = some o' ∧ o'.kind = o.kind ∧
      o'.data.size = o.data.size) : place.Denotes p k' r n wide := by
  have harray : ∀ {o o' : Object}, o'.kind = o.kind → o'.isArray = o.isArray := fun hkind => by
    unfold Object.isArray
    rw [hkind]
  cases h with
  | field found object form there =>
    obtain ⟨o', ho', hkind, hsize⟩ := hheap _ object
    exact .field found ho' ((harray hkind).trans form) (hsize ▸ there)
  | static found classObject object form there =>
    obtain ⟨o', ho', hkind, hsize⟩ := hheap _ object
    rw [Kernel.classObject_eq_ok, ← hclasses, ← Kernel.classObject_eq_ok] at classObject
    exact .static found classObject ho' ((harray hkind).trans form) (hsize ▸ there)
  | element object form there =>
    obtain ⟨o', ho', hkind, hsize⟩ := hheap _ object
    exact .element ho' ((harray hkind).trans form) (hsize ▸ there)

end Place

/-! ## Loading -/

theorem Heap.isNull_of_get? {h : Heap} {r : ObjRef} {o : Object} (ho : h.get? r = some o) :
    r.isNull = false := by
  cases hr : r.isNull with
  | false => rfl
  | true => simp [get?, hr] at ho

namespace Step

variable {α : Type} {t : ThreadId} {w : Work} {r : ObjRef} {o : Object}

/-- An object that is there can be touched. It is marked at most. -/
theorem exists_touch (ho : w.kernel.heap.get? r = some o) : ∃ w' o', touch t r w = .ok () w' ∧
    w'.kernel.threads = w.kernel.threads ∧ w'.kernel.heap.get? r = some o' ∧ o.Kept o' := by
  unfold touch
  rw [bind_of_ok (object_eq_ok.mpr ⟨ho, rfl⟩)]
  split
  · refine ⟨_, { o with shared := true }, rfl, rfl, ?_, .marked o⟩
    show (w.kernel.heap.modify r _).get? r = _
    rw [Heap.get?_modify, if_pos rfl, ho]
    rfl
  · exact ⟨w, o, rfl, rfl, ho, refl o⟩

/-- Work on the frame on top of a thread leaves the objects alone. -/
theorem exists_onFrame {a : Frame.Action α} {f f' : Frame} {v : α}
    (hf : w.kernel.topFrame t = .ok f) (ha : a f = .ok v f') : ∃ w', onFrame t a w = .ok v w' ∧
      w'.kernel.topFrame t = .ok f' ∧ w'.kernel.heap = w.kernel.heap :=
  ⟨_, onFrame_eq_ok.mpr ⟨f, f', hf, ha, rfl⟩, Kernel.topFrame_setTop hf _, rfl⟩

end Step

namespace Memory

variable {p : Program} {t : ThreadId} {w : Work} {i : Instruction} {f : Frame} {rest : List Slot}
  {r : ObjRef} {n : Nat} {wide : Bool} {v : Slot}

theorem readField_of_get? {o : Object} {form : ObjectForm} (harray : o.isArray = false)
    (hv : o.data[n]? = some v) : readField r o n form = .ok v := by
  simp [readField, Object.fields?, harray, hv]

theorem elements_of_get? {o : Object} (ho : w.kernel.heap.get? r = some o)
    (harray : o.isArray = true) : elements r w = .ok o.data w := by
  unfold elements
  rw [bind_of_ok (Step.object_eq_ok.mpr ⟨ho, rfl⟩)]
  simp only [Object.elements?, harray, if_true]
  rfl

/-- A value that has been read is pushed, and the thread goes on. -/
theorem exists_pushed (hf : w.kernel.topFrame t = .ok f) (code : TypeCode) (index : Nat) :
    ∃ w', (do
        Step.onFrame t (pushValue code v)
        return Flow.goto index : Step Flow) w = .ok (.goto index) w' ∧
      w'.kernel.topFrame t =
        .ok { f with operands := Frame.row (code.slotSize = 2) 0 v ++ f.operands } := by
  obtain ⟨w', hpush, htop, -⟩ := Step.exists_onFrame hf (pushValue_eq_ok code v f)
  rw [bind_of_ok hpush]
  exact ⟨w', rfl, htop⟩

theorem getField_of_denotes {ref : FieldRef} {s : Slot} (hi : i.fieldRef = .ok ref)
    (hd : Place.Denotes p w.kernel (.field ref (.ofSlot s)) r n wide)
    (hv : w.kernel.heap.Holds r n v) (hf : w.kernel.topFrame t = .ok f)
    (hoperands : f.operands = s :: rest) :
    ∃ w', getField p t i w = .ok (.goto i.nextIndex) w' ∧
      w'.kernel.topFrame t = .ok { f with operands := Frame.row wide 0 v ++ rest } := by
  obtain ⟨o, ho, hslot⟩ := hv
  cases hd with
  | @field _ _ fd _ found object form there =>
    cases ho.symm.trans object
    obtain ⟨w₁, hpop, htop, hheap⟩ :=
      Step.exists_onFrame hf (Frame.popRef_eq_ok.mpr ⟨s, rest, hoperands, rfl, rfl⟩)
    obtain ⟨w₂, o', htouch, hthreads, ho', hkept⟩ :=
      Step.exists_touch (t := t) (hheap.symm ▸ ho : w₁.kernel.heap.get? (.ofSlot s) = some o)
    have harray : o'.isArray = false := by
      rw [← form]
      unfold Object.isArray
      rw [hkept.kind]
    have hread : readField (.ofSlot s) o' fd.slot .plainInstance = .ok v :=
      readField_of_get? harray (hkept.data.symm ▸ hslot)
    unfold getField
    rw [bind_of_ok (Step.lift_eq_ok.mpr ⟨hi, rfl⟩), bind_of_ok (Step.lift_eq_ok.mpr ⟨found, rfl⟩),
      bind_of_ok hpop]
    simp only [Heap.isNull_of_get? ho, Bool.false_eq_true, if_false]
    rw [bind_of_ok htouch, bind_of_ok (Step.object_eq_ok.mpr ⟨ho', rfl⟩),
      bind_of_ok (Step.lift_eq_ok.mpr ⟨hread, rfl⟩)]
    rw [← Kernel.topFrame_congr hthreads] at htop
    exact exists_pushed htop fd.code i.nextIndex

theorem getStatic_of_denotes {ref : FieldRef} (hi : i.fieldRef = .ok ref)
    (hd : Place.Denotes p w.kernel (.static ref) r n wide)
    (hu : Place.Usable p w.kernel t (.static ref)) (hv : w.kernel.heap.Holds r n v)
    (hf : w.kernel.topFrame t = .ok f) :
    ∃ w', getStatic p t i w = .ok (.goto i.nextIndex) w' ∧
      w'.kernel.topFrame t = .ok { f with operands := Frame.row wide 0 v ++ f.operands } := by
  obtain ⟨o, ho, hslot⟩ := hv
  cases hd with
  | @static _ c fd _ _ found classObject object form there =>
    cases ho.symm.trans object
    have hready : Call.initializeClass? p t c w = .ok false w :=
      Call.initialize?_of_usable fun d hd => hu ref c fd rfl found d (List.mem_reverse.mp hd)
    have hstatic : staticSlot p t ref w = .ok (some (r, fd)) w := by
      unfold staticSlot
      rw [bind_of_ok (Step.lift_eq_ok.mpr ⟨found, rfl⟩)]
      dsimp only
      rw [bind_of_ok hready]
      exact bind_of_ok (Step.lift_eq_ok.mpr ⟨classObject, rfl⟩)
    unfold getStatic
    rw [bind_of_ok (Step.lift_eq_ok.mpr ⟨hi, rfl⟩), bind_of_ok hstatic]
    dsimp only
    rw [bind_of_ok (Step.object_eq_ok.mpr ⟨ho, rfl⟩),
      bind_of_ok (Step.lift_eq_ok.mpr ⟨readField_of_get? form hslot, rfl⟩)]
    exact exists_pushed hf fd.code i.nextIndex

theorem loadElement_of_denotes {a s : Slot}
    (hd : Place.Denotes p w.kernel (.element (.ofSlot s) (Slot.toInt a)) r n wide)
    (hv : w.kernel.heap.Holds r n v) (hf : w.kernel.topFrame t = .ok f)
    (hoperands : f.operands = a :: s :: rest) :
    ∃ w', loadElement p t i w = .ok (.goto i.nextIndex) w' ∧
      w'.kernel.topFrame t = .ok { f with operands := Frame.row wide 0 v ++ rest } := by
  obtain ⟨o, ho, hslot⟩ := hv
  cases hd with
  | element object form there =>
    cases ho.symm.trans object
    obtain ⟨w₁, hpopInt, htop₁, hheap₁⟩ :=
      Step.exists_onFrame hf (Frame.popInt_eq_ok.mpr ⟨a, _, hoperands, rfl, rfl⟩)
    obtain ⟨w₂, hpopRef, htop₂, hheap₂⟩ :=
      Step.exists_onFrame htop₁ (Frame.popRef_eq_ok.mpr ⟨s, rest, rfl, rfl, rfl⟩)
    have ho₂ : w₂.kernel.heap.get? (.ofSlot s) = some o := by
      rw [hheap₂, hheap₁]
      exact ho
    obtain ⟨w₃, -, htouch, hthreads, -⟩ := Step.exists_touch (t := t) ho₂
    have hread : o.data.getD (Slot.toInt a).toInt.toNat 0 = v := by
      rw [Array.getD_eq_getD_getElem?, hslot]
      rfl
    rw [← Kernel.topFrame_congr hthreads] at htop₂
    obtain ⟨w₄, hpush, htop₄, -⟩ := Step.exists_onFrame (a := Frame.push v) htop₂ rfl
    unfold loadElement
    rw [bind_of_ok hpopInt, bind_of_ok hpopRef]
    simp only [Heap.isNull_of_get? ho, Bool.false_eq_true, if_false]
    rw [bind_of_ok (elements_of_get? ho₂ form)]
    simp only [there, Bool.not_true, Bool.false_eq_true, if_false]
    rw [bind_of_ok htouch, hread, bind_of_ok hpush]
    exact ⟨w₄, rfl, htop₄⟩

end Memory

/-- **What a place holds is what is loaded from it.** -/
theorem Step.execute_of_loads {p : Program} {t : ThreadId} {w : Work} {i : Instruction}
    {place : Place} {address rest : List Slot} {f : Frame} {r : ObjRef} {n : Nat} {wide : Bool}
    {v : Slot} (hi : i.Loads address place) (hd : place.Denotes p w.kernel r n wide)
    (hu : place.Usable p w.kernel t) (hv : w.kernel.heap.Holds r n v)
    (hf : w.kernel.topFrame t = .ok f) (hoperands : f.operands = address ++ rest) :
    ∃ w', execute p t i w = .ok (.goto i.nextIndex) w' ∧
      w'.kernel.topFrame t = .ok { f with operands := Frame.row wide 0 v ++ rest } := by
  cases hi with
  | field op operand =>
    unfold execute
    rw [op]
    exact Memory.getField_of_denotes operand hd hv hf hoperands
  | static op operand =>
    unfold execute
    rw [op]
    rw [List.nil_append] at hoperands
    exact hoperands ▸ Memory.getStatic_of_denotes operand hd hu hv hf
  | element op =>
    unfold execute
    rcases op with op | op
    · rw [op]
      exact Memory.loadElement_of_denotes hd hv hf hoperands
    · rw [op]
      exact Memory.loadElement_of_denotes hd hv hf hoperands

end Interleave

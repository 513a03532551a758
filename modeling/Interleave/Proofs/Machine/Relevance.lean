import Interleave.Proofs.Descriptors
import Interleave.Proofs.Machine.Driven
import Interleave.Proofs.Programs
import Interleave.Proofs.Step.Stores
import Interleave.Relevance

/-!
# Relevance looks at the object that is touched

Before an instruction reads or writes a slot of an object, it is asked whether another thread might
see that. The answer is found by a look at the operand stack: how deep the object lies is told from
the opcode, and for a store into a field from the descriptor that the instruction names. The
instruction itself pops its operands, and how many a value takes is told from the field that was
found.

`Memory.Load` and `Memory.Store` say what the execution of such an instruction came to, and in
particular which slot of which object was accessed. That object is the one that the look at the
operand stack finds, provided that the descriptor agrees with the field on the size of the value.
-/

namespace Interleave

open Effect

namespace Memory

variable {p : Program} {t : ThreadId} {i : Instruction} {w w' : Work} {flow : Flow} {place : Place}
  {r r' : ObjRef} {n n' : Nat} {wide : Bool} {v : Slot}

/-! ## Loads -/

/-- A thread has loaded the value in a place. -/
structure Load (p : Program) (t : ThreadId) (i : Instruction) (w : Work) (place : Place)
    (r : ObjRef) (n : Nat) (wide : Bool) (v : Slot) (w' : Work) : Prop where
  denotes : place.Denotes p w.kernel r n wide
  /-- The operands for the place were on top, and the value has replaced them. -/
  operands : ∃ f address rest, w.kernel.topFrame t = .ok f ∧ f.operands = address ++ rest ∧
    i.Loads address place ∧
    w'.kernel.topFrame t = .ok { f with operands := Frame.row wide 0 v ++ rest }
  holds : w.kernel.heap.Holds r n v

/-- An instruction that loads a value goes to the next one, or raises an exception. -/
def LoadsUnlessRaised (p : Program) (t : ThreadId) (i : Instruction) (w : Work) (flow : Flow)
    (w' : Work) : Prop :=
  (∃ e, flow = .raise e) ∨
    flow = .goto i.nextIndex ∧ ∃ place r n wide v, Load p t i w place r n wide v w'

theorem holds_of_readField {o : Object} {form : ObjectForm} (h : readField r o n form = .ok v) :
    o.data[n]? = some v := by
  unfold readField Object.fields? at h
  split at h
  · rename_i u hu
    cases h
    split at hu
    · cases hu
    · exact hu
  · cases h

theorem getField_loads (hop : i.op = .getField) (h : getField p t i w = .ok flow w') :
    LoadsUnlessRaised p t i w flow w' := by
  unfold getField at h
  simp only [Step.lift_bind_eq_ok] at h
  obtain ⟨ref, href, fd, hfd, h⟩ := h
  obtain ⟨obj, w₁, hpopRef, h⟩ := bind_eq_ok.mp h
  split at h
  · exact .inl (Step.raise_eq_ok h)
  · obtain ⟨_, w₂, htouch, h⟩ := bind_eq_ok.mp h
    obtain ⟨o, _, hobject, hreads⟩ := bind_eq_ok.mp h
    obtain ⟨ho, rfl⟩ := Step.object_eq_ok.mp hobject
    obtain ⟨v, hread, hpushes⟩ := Step.lift_bind_eq_ok.mp hreads
    obtain ⟨_, w₃, hpush, hgoto⟩ := bind_eq_ok.mp hpushes
    obtain ⟨rfl, rfl⟩ := pure_eq_ok.mp hgoto
    obtain ⟨f, _, hf, hobj, htop₁, hheap₁, -⟩ := Step.topFrame_of_onFrame hpopRef
    obtain ⟨s, rest, hs, rfl, rfl⟩ := Frame.popRef_eq_ok.mp hobj
    obtain ⟨hthreads, -, o₁, o₂, ho₁, ho₂, hkept⟩ := Step.touch_eq_ok htouch
    cases ho.symm.trans ho₂
    rw [hheap₁] at ho₁
    obtain ⟨f₂, _, hf₂, hvalue, htop₂, -, -⟩ := Step.topFrame_of_onFrame hpush
    rw [Kernel.topFrame_congr hthreads, htop₁] at hf₂
    cases hf₂
    cases (pushValue_eq_ok fd.code v _).symm.trans hvalue
    obtain ⟨harray, hthere⟩ := readField_eq_ok hread
    refine .inr ⟨rfl, .field ref (.ofSlot s), _, fd.slot, fd.code.slotSize = 2, v, ?_, ?_, o₁, ho₁,
      ?_⟩
    · refine .field hfd ho₁ ?_ (hkept.data ▸ hthere)
      rw [← harray]
      unfold Object.isArray
      rw [hkept.kind]
    · exact ⟨f, [s], rest, hf, hs, .field hop href, htop₂⟩
    · rw [← hkept.data]
      exact holds_of_readField hread

theorem loadElement_loads (hop : i.op = .iALoad ∨ i.op = .aALoad)
    (h : loadElement p t i w = .ok flow w') : LoadsUnlessRaised p t i w flow w' := by
  unfold loadElement at h
  obtain ⟨index, w₁, hpopInt, h⟩ := bind_eq_ok.mp h
  obtain ⟨r, w₂, hpopRef, h⟩ := bind_eq_ok.mp h
  split at h
  · exact .inl (Step.raise_eq_ok h)
  · obtain ⟨es, _, helements, h⟩ := bind_eq_ok.mp h
    obtain ⟨rfl, o, ho, harray, rfl⟩ := elements_eq_ok helements
    split at h
    · exact .inl (Step.raise_eq_ok h)
    · rename_i hwithin
      obtain ⟨_, w₃, htouch, h⟩ := bind_eq_ok.mp h
      obtain ⟨_, w₄, hpush, hgoto⟩ := bind_eq_ok.mp h
      obtain ⟨rfl, rfl⟩ := pure_eq_ok.mp hgoto
      obtain ⟨f, _, hf, hindex, htop₁, hheap₁, -⟩ := Step.topFrame_of_onFrame hpopInt
      obtain ⟨a, rest₁, ha, rfl, rfl⟩ := Frame.popInt_eq_ok.mp hindex
      obtain ⟨f₁, _, hf₁, hr, htop₂, hheap₂, -⟩ := Step.topFrame_of_onFrame hpopRef
      cases htop₁.symm.trans hf₁
      obtain ⟨s, rest, hs, rfl, rfl⟩ := Frame.popRef_eq_ok.mp hr
      obtain ⟨hthreads, -, -⟩ := Step.touch_eq_ok htouch
      obtain ⟨f₃, _, hf₃, hvalue, htop₃, -, -⟩ := Step.topFrame_of_onFrame hpush
      rw [Kernel.topFrame_congr hthreads, htop₂] at hf₃
      cases hf₃
      have hd : Place.Denotes p w.kernel (.element (.ofSlot s) (Slot.toInt a)) (.ofSlot s)
          (Slot.toInt a).toInt.toNat false := by
        refine .element (o := o) ?_ harray (by simpa using hwithin)
        rw [← hheap₁, ← hheap₂]
        exact ho
      obtain ⟨o', ho', hlt⟩ := hd.exists_object
      rw [← hheap₁, ← hheap₂] at ho'
      cases ho.symm.trans ho'
      have hget : o.data[(Slot.toInt a).toInt.toNat]? =
          some (o.data.getD (Slot.toInt a).toInt.toNat 0) := by
        rw [Array.getD_eq_getD_getElem?, Array.getElem?_eq_getElem hlt, Option.getD_some]
      refine .inr ⟨rfl, .element (.ofSlot s) (Slot.toInt a), _, _, false,
        o.data.getD (Slot.toInt a).toInt.toNat 0, hd, ?_, o, ?_, hget⟩
      · refine ⟨f, [a, s], rest, hf, ?_, .element hop, ?_⟩
        · rw [ha, show rest₁ = s :: rest from hs]
          rfl
        · cases hvalue
          exact htop₃
      · rw [← hheap₁, ← hheap₂]
        exact ho

/-! ## Accesses -/

/-- The execution of an instruction has read or written this slot of this object. -/
inductive Access (p : Program) (t : ThreadId) (i : Instruction) (w : Work) (r : ObjRef) (n : Nat)
    (w' : Work) : Prop where
  | load {place : Place} {wide : Bool} {v : Slot} (h : Load p t i w place r n wide v w')
  | store {place : Place} {wide : Bool} {v : Slot} (h : Store p t i w place r n wide v w')

theorem flow_of_publish {b : Bool} {index : Nat} (h : (do
    if b then publish v
    pure (Flow.goto index) : Step Flow) w = .ok flow w') : flow = .goto index := by
  cases b with
  | true =>
    simp only [if_true] at h
    obtain ⟨_, _, -, hgoto⟩ := bind_eq_ok.mp h
    exact (pure_eq_ok.mp hgoto).1
  | false => exact (pure_eq_ok.mp h).1

theorem flow_putField (h : putField p t i w = .ok flow w') :
    flow = .goto i.nextIndex ∨ ∃ e, flow = .raise e := by
  unfold putField at h
  simp only [Step.lift_bind_eq_ok] at h
  obtain ⟨ref, -, fd, -, h⟩ := h
  obtain ⟨v, w₁, -, h⟩ := bind_eq_ok.mp h
  obtain ⟨obj, w₂, -, h⟩ := bind_eq_ok.mp h
  split at h
  · exact .inr (Step.raise_eq_ok h)
  · obtain ⟨_, w₃, -, h⟩ := bind_eq_ok.mp h
    obtain ⟨_, w₄, -, h⟩ := bind_eq_ok.mp h
    obtain ⟨o, w₅, -, h⟩ := bind_eq_ok.mp h
    exact .inl (flow_of_publish h)

theorem flow_storeElement (h : storeElement p t i w = .ok flow w') :
    flow = .goto i.nextIndex ∨ ∃ e, flow = .raise e := by
  unfold storeElement at h
  obtain ⟨v, w₁, -, h⟩ := bind_eq_ok.mp h
  obtain ⟨index, w₂, -, h⟩ := bind_eq_ok.mp h
  obtain ⟨r, w₃, -, h⟩ := bind_eq_ok.mp h
  split at h
  · exact .inr (Step.raise_eq_ok h)
  · obtain ⟨es, w₄, -, h⟩ := bind_eq_ok.mp h
    split at h
    · exact .inr (Step.raise_eq_ok h)
    · obtain ⟨_, w₅, -, h⟩ := bind_eq_ok.mp h
      obtain ⟨_, w₆, -, h⟩ := bind_eq_ok.mp h
      obtain ⟨o, w₇, -, h⟩ := bind_eq_ok.mp h
      exact .inl (flow_of_publish h)

end Memory

/-- Does the opcode access a field of an instance or an element of an array? -/
def Opcode.accesses : Opcode → Bool
  | getField | putField | iALoad | aALoad | iAStore | aAStore => true
  | _ => false

namespace Step

variable {p : Program} {t : ThreadId} {i : Instruction} {w w' : Work} {flow : Flow}

/-- An instruction that accesses a slot raises an exception, or has accessed one and goes to the
next instruction. -/
theorem execute_accesses (hop : i.op.accesses = true) (h : execute p t i w = .ok flow w') :
    (∃ e, flow = .raise e) ∨ flow = .goto i.nextIndex ∧ ∃ r n, Memory.Access p t i w r n w' := by
  have hload : Memory.LoadsUnlessRaised p t i w flow w' → (∃ e, flow = .raise e) ∨
      flow = .goto i.nextIndex ∧ ∃ r n, Memory.Access p t i w r n w' := by
    rintro (hraised | ⟨hflow, place, r, n, wide, v, hload⟩)
    · exact .inl hraised
    · exact .inr ⟨hflow, r, n, .load hload⟩
  have hstore : (flow = .goto i.nextIndex ∨ ∃ e, flow = .raise e) →
      Memory.StoresAtMost p t i w flow w' → (∃ e, flow = .raise e) ∨
        flow = .goto i.nextIndex ∧ ∃ r n, Memory.Access p t i w r n w' := by
    rintro (hflow | hraised) (⟨hother, -⟩ | ⟨hflow', place, r, n, wide, v, hstore⟩)
    · exact absurd hflow hother
    · exact .inr ⟨hflow', r, n, .store hstore⟩
    · exact .inl hraised
    · exact .inl hraised
  unfold execute at h
  cases hi : i.op with
  | getField =>
    rw [hi] at h
    exact hload (Memory.getField_loads hi h)
  | putField =>
    rw [hi] at h
    exact hstore (Memory.flow_putField h) (Memory.putField_stores hi h)
  | iALoad =>
    rw [hi] at h
    exact hload (Memory.loadElement_loads (.inl hi) h)
  | aALoad =>
    rw [hi] at h
    exact hload (Memory.loadElement_loads (.inr hi) h)
  | iAStore =>
    rw [hi] at h
    exact hstore (Memory.flow_storeElement h) (Memory.storeElement_stores (.inl hi) h)
  | aAStore =>
    rw [hi] at h
    exact hstore (Memory.flow_storeElement h) (Memory.storeElement_stores (.inr hi) h)
  | _ =>
    rw [hi] at hop
    cases hop

end Step

namespace Relevance

variable {p : Program} {k : Kernel} {t : ThreadId} {i : Instruction} {w w' : Work} {f : Frame}
  {r r' : ObjRef} {n n' : Nat} {o : Object} {th : Thread}

/-! ## What is looked at -/

/-- The instruction accesses a field of an instance, and these are the reference that it names and
the field that is found. -/
structure Finds (p : Program) (i : Instruction) (ref : FieldRef) (f : Field) : Prop where
  op : i.op = .getField ∨ i.op = .putField
  operand : i.fieldRef = .ok ref
  found : Memory.instanceField p ref = .ok f

/-- If the instruction accesses a field, the descriptor that it names is one for values of the size
of the field that is found. -/
def Fits (p : Program) (i : Instruction) : Prop :=
  ∀ ref f, Finds p i ref f →
    ∃ code, Descriptor.check ref.descriptor = .ok code ∧ code.slotSize = f.code.slotSize

/-- The instruction accesses a field that is volatile. -/
def AccessesVolatile (p : Program) (i : Instruction) : Prop :=
  ∃ ref f, Finds p i ref f ∧ f.modifiers.isVolatile = true

theorem isForeign_iff (ho : k.heap.get? r = some o) :
    isForeign k t (.ok r) = true ↔ o.shared = true ∨ o.creator ≠ t := by
  simp [isForeign, ho]

theorem isVolatileField_iff {ref : FieldRef} {fd : Field} (hp : p.WellFormed)
    (h : Finds p i ref fd) : isVolatileField p i = true ↔ AccessesVolatile p i := by
  have hvolatile : isVolatileField p i = fd.modifiers.isVolatile := by
    have hfound := h.found
    unfold Memory.instanceField Program.resolveClass Program.classNamed? at hfound
    unfold isVolatileField
    rw [h.operand]
    dsimp only
    cases hid : p.classId? ref.className with
    | none => simp [hid, bind, Except.bind] at hfound
    | some j =>
      cases hc : p.class? j with
      | none => simp [hid, hc, bind, Except.bind] at hfound
      | some c =>
        simp only [hid, hc, Option.bind_some, bind, Except.bind, hp.ids j c hc] at hfound ⊢
        cases hfd : p.instanceField? j ref.name with
        | none => simp [hfd] at hfound
        | some fd' =>
          simp only [hfd, Except.ok.injEq] at hfound
          simp [hfound]
  rw [hvolatile]
  constructor
  · exact fun hv => ⟨ref, fd, h, hv⟩
  · rintro ⟨ref', fd', h', hv⟩
    cases h.operand.symm.trans h'.operand
    cases h.found.symm.trans h'.found
    exact hv

/-- A value that a descriptor stands for takes one operand or two. -/
theorem slotSize_of_check {text : String} {code : TypeCode} (h : Descriptor.check text = .ok code) :
    code.slotSize = if code.slotSize = 2 then 2 else 1 := by
  obtain ⟨hfield, hhead⟩ := Descriptor.check_eq_ok_iff.mp h
  obtain ⟨code', hhead', hvoid⟩ := hfield.head?
  obtain rfl := TypeCode.letter_inj.1 (Option.some.inj (hhead.symm.trans hhead'))
  cases code <;> first | rfl | exact absurd rfl hvoid

theorem length_row (wide : Bool) (pad v : Slot) :
    (Frame.row wide pad v).length = if wide then 2 else 1 := by
  cases wide <;> rfl

/-- The depth at which the object of an access is looked for. -/
def depth (i : Instruction) : Nat :=
  match i.op with
  | .getField => 0
  | .putField => storeDepth i
  | .iALoad | .aALoad => 1
  | _ => 2

/-- What is looked for below a stored value is as deep as the value is long. -/
theorem storeDepth_eq {ref : FieldRef} {fd : Field} (hfits : Fits p i) (h : Finds p i ref fd)
    (pad v : Slot) : storeDepth i = (Frame.row (fd.code.slotSize = 2) pad v).length := by
  obtain ⟨code, hcode, hsize⟩ := hfits ref fd h
  have hdepth : storeDepth i = code.slotSize := by simp only [storeDepth, h.operand, hcode]
  rw [hdepth, slotSize_of_check hcode, hsize, length_row]
  simp only [decide_eq_true_eq]

/-- The object that is accessed is the one that is looked at. -/
theorem peekRef_of_access (hop : i.op.accesses = true) (hfits : Fits p i)
    (hf : w.kernel.topFrame t = .ok f) (h : Memory.Access p t i w r n w') :
    f.peekRef (depth i) = .ok r := by
  have hat : ∀ (above : List Slot) {below : List Slot} {s : Slot},
      f.operands = above ++ s :: below → depth i = above.length →
      f.peekRef (depth i) = .ok (.ofSlot s) := by
    intro above below s hoperands hdepth
    refine Frame.peekRef_eq_ok.mpr ⟨s, ?_, rfl⟩
    rw [hoperands, hdepth, List.getElem?_append_right (Nat.le_refl _), Nat.sub_self]
    rfl
  cases h with
  | load h =>
    obtain ⟨f', address, rest, hf', hoperands, hloads, -⟩ := h.operands
    cases hf.symm.trans hf'
    have hd := h.denotes
    cases hloads with
    | field op operand =>
      cases hd
      exact hat [] hoperands (by simp [depth, op])
    | static op => simp [op, Opcode.accesses] at hop
    | @element a s op =>
      cases hd
      exact hat [a] hoperands (by rcases op with op | op <;> simp [depth, op])
  | @store place wide v h =>
    obtain ⟨f', pad, address, rest, hf', hoperands, hstores, -⟩ := h.operands
    cases hf.symm.trans hf'
    have hd := h.denotes
    cases hstores with
    | field op operand =>
      cases hd with
      | field found =>
        refine hat _ hoperands ?_
        rw [← storeDepth_eq hfits ⟨.inr op, operand, found⟩ pad v]
        simp [depth, op]
    | static op => simp [op, Opcode.accesses] at hop
    | @element a s op =>
      cases hd
      refine hat [v, a] hoperands ?_
      rcases op with op | op <;> simp [depth, op]

/-- What is asked about an instruction that accesses a slot. -/
theorem isObservable_eq (hop : i.op.accesses = true) : isObservable p k t th f i =
    ((decide (i.op = .getField ∨ i.op = .putField) && isVolatileField p i) ||
      isForeign k t (f.peekRef (depth i))) := by
  unfold isObservable depth
  cases hi : i.op with
  | getField => simp
  | putField => simp
  | iALoad => simp
  | aALoad => simp
  | iAStore => simp
  | aAStore => simp
  | _ =>
    rw [hi] at hop
    cases hop

/-- The slot that is accessed is the one of the field that is found, or the one whose index lies above
the array. -/
theorem slot_of_access (hop : i.op.accesses = true) (hf : w.kernel.topFrame t = .ok f)
    (h : Memory.Access p t i w r n w') : (∃ ref fd, Finds p i ref fd ∧ n = fd.slot) ∨
      ¬ (i.op = .getField ∨ i.op = .putField) ∧
        ∃ a, f.operands[depth i - 1]? = some a ∧ n = (Slot.toInt a).toInt.toNat := by
  cases h with
  | load h =>
    obtain ⟨f', address, rest, hf', hoperands, hloads, -⟩ := h.operands
    cases hf.symm.trans hf'
    have hd := h.denotes
    cases hloads with
    | field op operand =>
      cases hd with
      | field found => exact .inl ⟨_, _, ⟨.inl op, operand, found⟩, rfl⟩
    | static op => simp [op, Opcode.accesses] at hop
    | @element a s op =>
      cases hd
      refine .inr ⟨by rcases op with op | op <;> simp [op], a, ?_, rfl⟩
      rcases op with op | op <;> simp [depth, op, hoperands]
  | store h =>
    obtain ⟨f', pad, address, rest, hf', hoperands, hstores, -⟩ := h.operands
    cases hf.symm.trans hf'
    have hd := h.denotes
    cases hstores with
    | field op operand =>
      cases hd with
      | field found => exact .inl ⟨_, _, ⟨.inr op, operand, found⟩, rfl⟩
    | static op => simp [op, Opcode.accesses] at hop
    | @element a s op =>
      cases hd
      refine .inr ⟨by rcases op with op | op <;> simp [op], a, ?_, rfl⟩
      rcases op with op | op <;> simp [depth, op, hoperands, Frame.row]

/-- Only one slot is accessed. -/
theorem access_unique (hop : i.op.accesses = true) (hfits : Fits p i)
    (hf : w.kernel.topFrame t = .ok f) (h : Memory.Access p t i w r n w')
    (h' : Memory.Access p t i w r' n' w') : r' = r ∧ n' = n := by
  have hr := (peekRef_of_access hop hfits hf h').symm.trans (peekRef_of_access hop hfits hf h)
  refine ⟨Except.ok.inj hr, ?_⟩
  rcases slot_of_access hop hf h with ⟨ref, fd, hfinds, rfl⟩ | ⟨helement, a, ha, rfl⟩
  · rcases slot_of_access hop hf h' with ⟨ref', fd', hfinds', rfl⟩ | ⟨helement, -⟩
    · cases hfinds.operand.symm.trans hfinds'.operand
      cases hfinds.found.symm.trans hfinds'.found
      rfl
    · exact absurd hfinds.op helement
  · rcases slot_of_access hop hf h' with ⟨ref', fd', hfinds', -⟩ | ⟨-, a', ha', rfl⟩
    · exact absurd hfinds'.op helement
    · cases ha.symm.trans ha'
      rfl

/-- The field of an access is volatile exactly if it looks volatile. -/
theorem isVolatileField_iff_of_access (hp : p.WellFormed) (hop : i.op.accesses = true)
    (hf : w.kernel.topFrame t = .ok f) (h : Memory.Access p t i w r n w') :
    (decide (i.op = .getField ∨ i.op = .putField) && isVolatileField p i) = true ↔
      AccessesVolatile p i := by
  rcases slot_of_access hop hf h with ⟨ref, fd, hfinds, -⟩ | ⟨helement, -⟩
  · rw [decide_eq_true hfinds.op, Bool.true_and]
    exact isVolatileField_iff hp hfinds
  · simp only [helement, decide_false, Bool.false_and, Bool.false_eq_true, false_iff]
    rintro ⟨_, _, hfinds, -⟩
    exact helement hfinds.op

theorem exists_object_of_access (h : Memory.Access p t i w r n w') :
    ∃ o, w.kernel.heap.get? r = some o := by
  cases h with
  | load h =>
    obtain ⟨o, ho, -⟩ := h.denotes.exists_object
    exact ⟨o, ho⟩
  | store h =>
    obtain ⟨o, ho, -⟩ := h.denotes.exists_object
    exact ⟨o, ho⟩

/-- **Relevance looks at the object that is touched.** Another thread can run, and a thread whose
method is not atomic executes an instruction that accesses a field of an instance or an element of
an array. For a field, the descriptor that the instruction names fits the field that is found. If no
exception is raised, the execution has accessed a slot of exactly one object. The instruction counts
as relevant beforehand exactly if the field is volatile, or that object was marked as shared, or
another thread has made it. -/
theorem isRelevant_iff {flow : Flow} (hp : p.WellFormed)
    (hother : w.kernel.hasOtherRunnable t = true) (hf : w.kernel.topFrame t = .ok f)
    (hatomic : f.method.attributes.atomic = false) (hop : i.op.accesses = true)
    (hfits : Fits p i) (h : Step.execute p t i w = .ok flow w') (hflow : ∀ e, flow ≠ .raise e) :
    ∃ r n o, Memory.Access p t i w r n w' ∧
      (∀ r' n', Memory.Access p t i w r' n' w' → r' = r ∧ n' = n) ∧
      w.kernel.heap.get? r = some o ∧ (isRelevant p w.kernel t i = true ↔
        AccessesVolatile p i ∨ o.shared = true ∨ o.creator ≠ t) := by
  rcases Step.execute_accesses hop h with ⟨e, hraised⟩ | ⟨-, r, n, haccess⟩
  · exact absurd hraised (hflow e)
  obtain ⟨o, ho⟩ := exists_object_of_access haccess
  refine ⟨r, n, o, haccess, fun r' n' => access_unique hop hfits hf haccess, ho, ?_⟩
  obtain ⟨th, rest, hth, hframes⟩ := Kernel.topFrame_eq_ok.mp hf
  have htop : th.top = .ok f := by simp [Thread.top, hframes]
  unfold isRelevant
  rw [hother, Kernel.thread_eq_ok.mpr hth]
  simp only [htop, hatomic, Bool.not_false, Bool.true_and]
  rw [isObservable_eq hop, peekRef_of_access hop hfits hf haccess, Bool.or_eq_true,
    isForeign_iff ho, isVolatileField_iff_of_access hp hop hf haccess]

end Relevance

/-! ## An example -/

namespace Machine

/-- A thread stores a long into a field of its own object, which the main thread has made. -/
def sharedCell : Demo.Build Unit := do
  let cell ← Demo.declare
    { name := Demo.workerClass
      superclass := Builtin.thread
      fields := [{ name := "value", descriptor := "J" }] }
  Demo.define cell "run" .publicAccess 1 fun a =>
    (((a.onLocal .aLoad 0).emit .lConst (.int 7)).onField .putField Demo.workerClass "value"
      "J").emit .voidReturn
  let main ← Demo.declareMain []
  Demo.define main "main" Demo.mainModifiers 1 fun a =>
    (Demo.startAndJoin [Demo.workerClass] a).emit .voidReturn

theorem keepsBuilt_sharedCell : Demo.Keeps Program.Built sharedCell :=
  (Demo.keepsBuilt_declare _).bind fun _ => (Demo.keepsBuilt_define _ _ _ _ _).bind fun _ =>
    (Demo.keepsBuilt_declare _).bind fun _ => Demo.keepsBuilt_define _ _ _ _ _

/-- The thread has pushed its object and the long, and the object lies below both operands of the
long. The store counts as relevant, and it goes into that object. -/
theorem isRelevant_iff_sharedCell : ∃ p m i w' r n o,
    sharedCell.run (Program.base .plain) = .ok ((), p) ∧ Driven p {} m ∧ m.kernel.At ⟨1⟩ i ∧
      i.op = .putField ∧ Step.execute p ⟨1⟩ i { kernel := m.kernel } = .ok (.goto i.nextIndex) w' ∧
      Memory.Access p ⟨1⟩ i { kernel := m.kernel } r n w' ∧ m.kernel.heap.get? r = some o ∧
      Relevance.isRelevant p m.kernel ⟨1⟩ i = true ∧
      (Relevance.AccessesVolatile p i ∨ o.shared = true ∨ o.creator ≠ ⟨1⟩) := by
  obtain ⟨p, m, hbuild, hdriven, htest⟩ := Driven.exists_of_demo sharedCell [0, 1]
    (fun p m => m.kernel.hasOtherRunnable ⟨1⟩ && (m.kernel.topFrame ⟨1⟩).toOption.any fun f =>
      !f.method.attributes.atomic && f.instruction.toOption.any fun i =>
        i.op == .putField && (Relevance.isRelevant p m.kernel ⟨1⟩ i &&
          (gives (Step.execute p ⟨1⟩ i) { kernel := m.kernel } fun flow _ =>
            flow == .goto i.nextIndex) && i.fieldRef.toOption.any fun ref =>
              (Memory.instanceField p ref).toOption.any fun fd =>
                (Descriptor.check ref.descriptor).toOption.any fun code =>
                  code.slotSize == fd.code.slotSize)) (by decide +kernel)
  simp only [Bool.and_eq_true, Option.any_eq_true, except_toOption_eq_some, Bool.not_eq_true',
    beq_iff_eq, gives_iff] at htest
  obtain ⟨hother, f, hf, hatomic, i, hi, hop, ⟨hrelevant, _, w', hexecute, rfl⟩, ref, href, fd, hfd,
    code, hcode, hsize⟩ := htest
  have hfits : Relevance.Fits p i := by
    intro ref' fd' hfinds
    cases href.symm.trans hfinds.operand
    cases hfd.symm.trans hfinds.found
    exact ⟨code, hcode, hsize⟩
  obtain ⟨r, n, o, haccess, -, ho, hiff⟩ := Relevance.isRelevant_iff
    (keepsBuilt_sharedCell (.base .plain) hbuild).wellFormed (w := { kernel := m.kernel }) hother hf
    hatomic (by rw [hop]; rfl) hfits hexecute (by simp)
  exact ⟨p, m, i, w', r, n, o, hbuild, hdriven, ⟨f, hf, hi⟩, hop, hexecute, haccess, ho, hrelevant,
    hiff.mp hrelevant⟩

end Machine

end Interleave

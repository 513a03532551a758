import Interleave.Proofs.Step.Floors
import Interleave.Proofs.Step.Places

/-!
# Instructions that write slots

Three kinds of instructions write a slot of an object: those that store into an instance field, a
static field or an array. Each of them marks the object that it stores into if another thread made
it, writes the slot, and then marks the object that the value refers to, provided that the value is
a reference and that the object it was stored into is marked. All other instructions leave the slots
of objects alone, and so does the search for the handler of an exception.
-/

namespace Interleave

open Effect

/-- A part of a step has written no slot. -/
def Work.Spares (w w' : Work) : Prop := w.kernel.heap.Kept w'.kernel.heap

section Spares

variable {p : Program} {t : ThreadId}

instance : Work.Admits Work.Spares where
  refl _ := .refl _
  trans _ _ _ := Heap.Kept.trans
  same {w w'} _ hheap _ := by
    show w.kernel.heap.Kept w'.kernel.heap
    exact hheap ▸ .refl _
  heap hgrows := hgrows.kept
  thrown _ _ := .refl _

instance : Work.AdmitsFrames t Work.Spares where
  setTop _ _ := .refl _
  pushStub _ _ := .refl _

instance : Work.AdmitsLocks p t Work.Spares where
  lock _ _ := .setMonitor _ _ _
  enter _ _ := .refl _
  wait _ := .refl _

instance : Work.AdmitsUnlocks t Work.Spares where
  unlock _ _ := .released _ _ _

instance : Work.AdmitsLeaving t Work.Spares where
  leave _ _ _ h := (Call.frames_of_leave h).2

instance : Work.AdmitsStarts Work.Spares where
  start {_ r _} _ := .markShared _ r

end Spares

/-! ## Stores -/

namespace Step

variable {α : Type} {p : Program} {t : ThreadId} {w w' : Work} {r : ObjRef}

theorem topFrame_of_onFrame {a : Frame.Action α} {v : α} (h : onFrame t a w = .ok v w') :
    ∃ f f', w.kernel.topFrame t = .ok f ∧ a f = .ok v f' ∧ w'.kernel.topFrame t = .ok f' ∧
      w'.kernel.heap = w.kernel.heap ∧ w'.kernel.classes = w.kernel.classes := by
  obtain ⟨f, f', hf, ha, rfl⟩ := onFrame_eq_ok.mp h
  exact ⟨f, f', hf, ha, Kernel.topFrame_setTop hf f', rfl, rfl⟩

theorem touch_eq_ok {u : Unit} (h : touch t r w = .ok u w') :
    w'.kernel.threads = w.kernel.threads ∧ w'.kernel.classes = w.kernel.classes ∧
      ∃ o o', w.kernel.heap.get? r = some o ∧ w'.kernel.heap.get? r = some o' ∧ o.Kept o' := by
  unfold touch at h
  obtain ⟨o, _, hobject, hrest⟩ := bind_eq_ok.mp h
  obtain ⟨ho, rfl⟩ := object_eq_ok.mp hobject
  split at hrest
  · obtain rfl := modifyKernel_eq_ok.mp hrest
    refine ⟨rfl, rfl, o, _, ho, ?_, .marked o⟩
    show (Heap.modify _ r _).get? r = _
    rw [Heap.get?_modify, if_pos rfl, ho]
    rfl
  · obtain ⟨-, rfl⟩ := pure_eq_ok.mp hrest
    exact ⟨rfl, rfl, o, o, ho, ho, refl o⟩

theorem raise_eq_ok {className : String} {message : Option String} {flow : Flow}
    (h : raise p t className message w = .ok flow w') : ∃ e, flow = .raise e := by
  unfold raise at h
  simp only [bind_eq_ok, pure_eq_ok] at h
  obtain ⟨c, _, -, e, _, -, _, _, -, hflow, -⟩ := h
  exact ⟨e, hflow⟩

end Step

namespace Memory

variable {p : Program} {t : ThreadId} {i : Instruction} {w w' : Work} {flow : Flow}

/-- A thread has stored a value into a place. -/
structure Store (p : Program) (t : ThreadId) (i : Instruction) (w : Work) (place : Place)
    (r : ObjRef) (n : Nat) (wide : Bool) (v : Slot) (w' : Work) : Prop where
  denotes : place.Denotes p w.kernel r n wide
  /-- The value and the operands for the place were on top. -/
  operands : ∃ f pad address rest, w.kernel.topFrame t = .ok f ∧
    f.operands = Frame.row wide pad v ++ (address ++ rest) ∧ i.Stores address place ∧
    w'.kernel.topFrame t = .ok { f with operands := rest }
  heap : w.kernel.heap.Stored p i r n v w'.kernel.heap
  usable : place.Usable p w'.kernel t

/-- An instruction that stores a value goes to the next one; otherwise it writes no slot. -/
def StoresAtMost (p : Program) (t : ThreadId) (i : Instruction) (w : Work) (flow : Flow)
    (w' : Work) : Prop :=
  (flow ≠ .goto i.nextIndex ∧ w.Spares w') ∨
    flow = .goto i.nextIndex ∧ ∃ place r n wide v, Store p t i w place r n wide v w'

/-- An exception is raised before a slot is written. -/
theorem StoresAtMost.of_raise {w₁ : Work} {className : String} {message : Option String}
    (hspares : w.Spares w₁) (h : Step.raise p t className message w₁ = .ok flow w') :
    StoresAtMost p t i w flow w' := by
  obtain ⟨e, rfl⟩ := Step.raise_eq_ok h
  exact .inl ⟨by simp, IsTrans.trans _ _ _ hspares ((Step.within_raise _ _).keeps h)⟩

theorem readField_eq_ok {r : ObjRef} {o : Object} {n : Nat} {form : ObjectForm} {v : Slot}
    (h : readField r o n form = .ok v) : o.isArray = false ∧ n < o.data.size := by
  unfold readField at h
  split at h
  · rename_i u hu
    obtain ⟨data, hdata, hn⟩ := Option.bind_eq_some_iff.mp hu
    unfold Object.fields? at hdata
    split at hdata
    · cases hdata
    · rename_i harray
      cases hdata
      exact ⟨by simpa using harray, (Array.getElem?_eq_some_iff.mp hn).1⟩
  · cases h

theorem writeField_eq_ok {r : ObjRef} {n : Nat} {v : Slot} {form : ObjectForm} {u : Unit}
    (h : writeField r n v form w = .ok u w') :
    w' = { w with kernel := w.kernel.modifyObject r (·.setSlot n v) } ∧
      ∃ o, w.kernel.heap.get? r = some o ∧ o.isArray = false ∧ n < o.data.size := by
  unfold writeField at h
  simp only [bind_eq_ok, Step.object_eq_ok, Step.lift_eq_ok, Step.modifyKernel_eq_ok] at h
  obtain ⟨o, _, ⟨ho, rfl⟩, _, _, ⟨hread, rfl⟩, rfl⟩ := h
  exact ⟨rfl, o, ho, readField_eq_ok hread⟩

theorem elements_eq_ok {r : ObjRef} {es : Array Slot} (h : elements r w = .ok es w') :
    w' = w ∧ ∃ o, w.kernel.heap.get? r = some o ∧ o.isArray = true ∧ o.data = es := by
  unfold elements at h
  obtain ⟨o, _, hobject, hrest⟩ := bind_eq_ok.mp h
  obtain ⟨ho, rfl⟩ := Step.object_eq_ok.mp hobject
  cases hes : o.elements? with
  | none => simp [hes] at hrest
  | some es' =>
    simp only [hes, pure_eq_ok] at hrest
    obtain ⟨rfl, rfl⟩ := hrest
    unfold Object.elements? at hes
    split at hes
    · rename_i harray
      cases hes
      exact ⟨rfl, o, ho, harray, rfl⟩
    · cases hes

theorem staticSlot_eq_some {ref : FieldRef} {r : ObjRef} {f : Field}
    (h : staticSlot p t ref w = .ok (some (r, f)) w') : ∃ c, staticField p ref = .ok (c, f) ∧
      Call.Settles p w.kernel w'.kernel ∧ w'.kernel.classObject c = .ok r ∧
      ∀ d ∈ p.chain c, w'.kernel.Usable t d := by
  unfold staticSlot at h
  rw [Step.lift_bind_eq_ok] at h
  obtain ⟨⟨c, g⟩, hg, h⟩ := h
  obtain ⟨pushed, w₁, hinit, h⟩ := bind_eq_ok.mp h
  cases pushed with
  | true => simp at h
  | false =>
    simp only [Bool.false_eq_true, if_false, Step.kernel_bind_eq_ok, Step.lift_bind_eq_ok] at h
    obtain ⟨r', hobject, h⟩ := h
    obtain ⟨hsome, rfl⟩ := pure_eq_ok.mp h
    cases hsome
    obtain ⟨hsettles, husable⟩ := Call.initializeClass?_eq_ok_false hinit
    exact ⟨c, hg, hsettles, hobject, husable⟩

/-- What comes behind the write of a slot: the object that the value refers to is marked, unless it
need not be. -/
theorem stored_of_publish {h₁ : Heap} {r : ObjRef} {n : Nat} {v : Slot} {b : Bool} {index : Nat}
    {w₁ : Work} (hkept : w.kernel.heap.Kept h₁)
    (hwritten : w₁.kernel.heap = h₁.modify r (·.setSlot n v))
    (hb : b = true ∨ p.WritesPlain i n ∨ ¬ h₁.IsShared r)
    (h : (do
      if b then publish v
      pure (Flow.goto index) : Step Flow) w₁ = .ok flow w') : flow = .goto index ∧
        w'.kernel.threads = w₁.kernel.threads ∧ w'.kernel.classes = w₁.kernel.classes ∧
          w.kernel.heap.Stored p i r n v w'.kernel.heap := by
  cases b with
  | true =>
    simp only [if_true, publish, bind_eq_ok, Step.modifyKernel_eq_ok, pure_eq_ok] at h
    obtain ⟨_, _, rfl, rfl, rfl⟩ := h
    refine ⟨rfl, rfl, rfl, ?_⟩
    show w.kernel.heap.Stored p i r n v (w₁.kernel.heap.modify (.ofSlot v) _)
    rw [hwritten]
    exact .published hkept
  | false =>
    simp only [Bool.false_eq_true, if_false, pure_eq_ok] at h
    obtain ⟨rfl, rfl⟩ := h
    refine ⟨rfl, rfl, rfl, ?_⟩
    rw [hwritten]
    rcases hb with hb | hplain | hunmarked
    · cases hb
    · exact .plain hkept hplain
    · exact .unshared hkept hunmarked

/-- The mark of an object decides after a slot of it was written. -/
theorem not_isShared_of_written {h₁ h₂ : Heap} {r : ObjRef} {n : Nat} {v : Slot} {o : Object}
    (hwritten : h₂ = h₁.modify r (·.setSlot n v)) (ho : h₂.get? r = some o)
    (hunmarked : o.shared = false) : ¬ h₁.IsShared r := by
  intro hshared
  rw [← Heap.isShared_setSlot (n := n) (v := v), ← hwritten] at hshared
  obtain ⟨o', ho', hmarked⟩ := hshared
  rw [ho] at ho'
  cases ho'
  rw [hunmarked] at hmarked
  cases hmarked

theorem putField_stores (hop : i.op = .putField) (h : putField p t i w = .ok flow w') :
    StoresAtMost p t i w flow w' := by
  unfold putField at h
  simp only [Step.lift_bind_eq_ok] at h
  obtain ⟨ref, href, fd, hfd, h⟩ := h
  obtain ⟨v, w₁, hpop, h⟩ := bind_eq_ok.mp h
  obtain ⟨obj, w₂, hpopRef, h⟩ := bind_eq_ok.mp h
  have hpopped : w.Spares w₂ :=
    IsTrans.trans _ _ _ ((within_popValue fd.code).keeps hpop) (within_popRef.keeps hpopRef)
  split at h
  · exact .of_raise hpopped h
  · obtain ⟨_, w₃, htouch, h⟩ := bind_eq_ok.mp h
    obtain ⟨_, w₄, hwrite, h⟩ := bind_eq_ok.mp h
    obtain ⟨o, w₅, hobject, hrest⟩ := bind_eq_ok.mp h
    obtain ⟨ho, rfl⟩ := Step.object_eq_ok.mp hobject
    -- the operands: the value lies on top of the object
    obtain ⟨f, _, hf, hvalue, htop₁, hheap₁, -⟩ := Step.topFrame_of_onFrame hpop
    obtain ⟨pad, _, hoperands, rfl⟩ := popValue_eq_ok hvalue
    obtain ⟨f₁, _, hf₁, hobj, htop₂, hheap₂, -⟩ := Step.topFrame_of_onFrame hpopRef
    cases htop₁.symm.trans hf₁
    obtain ⟨s, rest, hs, rfl, rfl⟩ := Frame.popRef_eq_ok.mp hobj
    obtain ⟨hthreads, -, o₂, o₃, ho₂, ho₃, hkept⟩ := Step.touch_eq_ok htouch
    obtain ⟨hw₄, o₃', ho₃', harray, hthere⟩ := writeField_eq_ok hwrite
    cases ho₃.symm.trans ho₃'
    have hwritten : w₅.kernel.heap = w₃.kernel.heap.modify (.ofSlot s) (·.setSlot fd.slot v) := by
      rw [hw₄]
      rfl
    have htouched : w.Spares w₃ :=
      IsTrans.trans _ _ _ hpopped ((Step.within_touch (.ofSlot s)).keeps htouch)
    -- a mark is due only where a reference goes into a shared object
    have hb : (fd.code.isReference && o.shared) = true ∨ p.WritesPlain i fd.slot ∨
        ¬ w₃.kernel.heap.IsShared (.ofSlot s) := by
      cases hcode : fd.code.isReference with
      | false => exact .inr (.inl (.field hop href hfd rfl hcode))
      | true =>
        cases hshared : o.shared with
        | true => exact .inl rfl
        | false => exact .inr (.inr (not_isShared_of_written hwritten ho hshared))
    obtain ⟨hflow, hthreads', -, hstored⟩ := stored_of_publish htouched hwritten hb hrest
    refine .inr ⟨hflow, .field ref (.ofSlot s), _, _, fd.code.slotSize = 2, v, ?_, ?_, hstored,
      fun _ _ _ hplace => nomatch hplace⟩
    · refine .field hfd (o := o₂) ?_ ?_ (hkept.data ▸ hthere)
      · rw [← hheap₁, ← hheap₂]
        exact ho₂
      · rw [← harray]
        unfold Object.isArray
        rw [hkept.kind]
    · refine ⟨f, pad, [s], rest, hf, ?_, .field hop href, ?_⟩
      · rw [hoperands]
        exact congrArg _ hs
      · rw [Kernel.topFrame_congr hthreads', hw₄]
        exact (Kernel.topFrame_congr hthreads t).trans htop₂

theorem putStatic_stores (hop : i.op = .putStatic) (h : putStatic p t i w = .ok flow w') :
    StoresAtMost p t i w flow w' := by
  unfold putStatic at h
  rw [Step.lift_bind_eq_ok] at h
  obtain ⟨ref, href, h⟩ := h
  obtain ⟨slot, w₁, hslot, h⟩ := bind_eq_ok.mp h
  cases slot with
  | none =>
    obtain ⟨rfl, rfl⟩ := pure_eq_ok.mp h
    exact .inl ⟨by simp, (within_staticSlot ref).keeps hslot⟩
  | some s =>
    obtain ⟨obj, fd⟩ := s
    obtain ⟨c, hfd, hsettles, hclassObject, husable⟩ := staticSlot_eq_some hslot
    obtain ⟨v, w₂, hpop, h⟩ := bind_eq_ok.mp h
    obtain ⟨_, w₃, hwrite, hrest⟩ := bind_eq_ok.mp h
    obtain ⟨f, _, hf, hvalue, htop, hheap, hclasses⟩ := Step.topFrame_of_onFrame hpop
    obtain ⟨pad, rest, hoperands, rfl⟩ := popValue_eq_ok hvalue
    obtain ⟨hw₃, o, ho, harray, hthere⟩ := writeField_eq_ok hwrite
    have hpopped : w.Spares w₂ := by
      show w.kernel.heap.Kept w₂.kernel.heap
      rw [hheap, hsettles.heap]
      exact .refl _
    -- whether the class object is shared is not asked
    have hb : fd.code.isReference = true ∨ p.WritesPlain i fd.slot ∨
        ¬ w₂.kernel.heap.IsShared obj := by
      cases hcode : fd.code.isReference with
      | false => exact .inr (.inl (.static hop href hfd rfl hcode))
      | true => exact .inl rfl
    have hwritten : w₃.kernel.heap = w₂.kernel.heap.modify obj (·.setSlot fd.slot v) := by
      rw [hw₃]
      rfl
    obtain ⟨hflow, hthreads', hclasses', hstored⟩ := stored_of_publish hpopped hwritten hb hrest
    refine .inr ⟨hflow, .static ref, _, _, fd.code.slotSize = 2, v, ?_, ?_, hstored, ?_⟩
    · refine .static hfd ?_ (o := o) ?_ harray hthere
      · rw [Kernel.classObject_eq_ok, ← hsettles.classObjects, ← Kernel.classObject_eq_ok]
        exact hclassObject
      · rw [← hsettles.heap, ← hheap]
        exact ho
    · refine ⟨f, pad, [], rest, ?_, hoperands, .static hop href, ?_⟩
      · rw [← Kernel.topFrame_congr hsettles.threads]
        exact hf
      · rw [Kernel.topFrame_congr hthreads', hw₃]
        exact htop
    · rintro _ c' fd' ⟨⟩ hfd' d hd
      cases hfd.symm.trans hfd'
      refine (Kernel.usable_congr ?_).mpr (husable d hd)
      rw [hclasses', hw₃]
      exact hclasses

theorem storeElement_stores (hop : i.op = .iAStore ∨ i.op = .aAStore)
    (h : storeElement p t i w = .ok flow w') : StoresAtMost p t i w flow w' := by
  unfold storeElement at h
  obtain ⟨v, w₁, hpop, h⟩ := bind_eq_ok.mp h
  obtain ⟨index, w₂, hpopInt, h⟩ := bind_eq_ok.mp h
  obtain ⟨r, w₃, hpopRef, h⟩ := bind_eq_ok.mp h
  have hpopped : w.Spares w₃ :=
    IsTrans.trans _ _ _ (IsTrans.trans _ _ _ (within_pop.keeps hpop)
      (within_popInt.keeps hpopInt)) (within_popRef.keeps hpopRef)
  split at h
  · exact .of_raise hpopped h
  · obtain ⟨es, _, helements, h⟩ := bind_eq_ok.mp h
    obtain ⟨rfl, o₃, ho₃, harray, rfl⟩ := elements_eq_ok helements
    split at h
    · exact .of_raise hpopped h
    · rename_i hwithin
      obtain ⟨_, w₄, htouch, h⟩ := bind_eq_ok.mp h
      obtain ⟨_, w₅, hwrite, h⟩ := bind_eq_ok.mp h
      obtain ⟨o, w₆, hobject, hrest⟩ := bind_eq_ok.mp h
      obtain ⟨ho, rfl⟩ := Step.object_eq_ok.mp hobject
      -- the operands: the value, the index and the array, from the top
      obtain ⟨f, _, hf, hvalue, htop₁, hheap₁, -⟩ := Step.topFrame_of_onFrame hpop
      obtain ⟨rest₁, hoperands, rfl⟩ := Frame.pop_eq_ok.mp hvalue
      obtain ⟨f₁, _, hf₁, hindex, htop₂, hheap₂, -⟩ := Step.topFrame_of_onFrame hpopInt
      cases htop₁.symm.trans hf₁
      obtain ⟨a, rest₂, ha, rfl, rfl⟩ := Frame.popInt_eq_ok.mp hindex
      obtain ⟨f₂, _, hf₂, hr, htop₃, hheap₃, -⟩ := Step.topFrame_of_onFrame hpopRef
      cases htop₂.symm.trans hf₂
      obtain ⟨s, rest, hs, rfl, rfl⟩ := Frame.popRef_eq_ok.mp hr
      obtain ⟨hthreads, -, -⟩ := Step.touch_eq_ok htouch
      obtain hw₅ := Step.modifyKernel_eq_ok.mp hwrite
      have hwritten : w₆.kernel.heap = w₄.kernel.heap.modify (.ofSlot s)
          (·.setSlot (Slot.toInt a).toInt.toNat v) := by
        rw [hw₅]
        rfl
      have htouched : w.Spares w₄ :=
        IsTrans.trans _ _ _ hpopped ((Step.within_touch (.ofSlot s)).keeps htouch)
      have hb : (decide (i.op = .aAStore) && o.shared) = true ∨
          p.WritesPlain i (Slot.toInt a).toInt.toNat ∨
            ¬ w₄.kernel.heap.IsShared (.ofSlot s) := by
        rcases hop with hop | hop
        · exact .inr (.inl (.element hop))
        · cases hshared : o.shared with
          | true => exact .inl (by simp [hop])
          | false => exact .inr (.inr (not_isShared_of_written hwritten ho hshared))
      obtain ⟨hflow, hthreads', -, hstored⟩ := stored_of_publish htouched hwritten hb hrest
      refine .inr ⟨hflow, .element (.ofSlot s) (Slot.toInt a), _, _, false, v, ?_, ?_, hstored,
        fun _ _ _ hplace => nomatch hplace⟩
      · refine .element (o := o₃) ?_ harray (by simpa using hwithin)
        rw [← hheap₁, ← hheap₂, ← hheap₃]
        exact ho₃
      · refine ⟨f, 0, [a, s], rest, hf, ?_, .element hop, ?_⟩
        · rw [hoperands, show rest₁ = a :: rest₂ from ha, show rest₂ = s :: rest from hs]
          rfl
        · rw [Kernel.topFrame_congr hthreads', hw₅]
          exact (Kernel.topFrame_congr hthreads t).trans htop₃

end Memory

/-- Does the opcode store a value? -/
def Opcode.stores : Opcode → Bool
  | putField | putStatic | iAStore | aAStore => true
  | _ => false

namespace Step

variable {p : Program} {t : ThreadId} {i : Instruction} {w w' : Work} {flow : Flow} {out : Outcome}

theorem execute_stores (hop : i.op.stores = true) (h : execute p t i w = .ok flow w') :
    Memory.StoresAtMost p t i w flow w' := by
  unfold execute at h
  cases hi : i.op with
  | putField =>
    rw [hi] at h
    exact Memory.putField_stores hi h
  | putStatic =>
    rw [hi] at h
    exact Memory.putStatic_stores hi h
  | iAStore =>
    rw [hi] at h
    exact Memory.storeElement_stores (.inl hi) h
  | aAStore =>
    rw [hi] at h
    exact Memory.storeElement_stores (.inr hi) h
  | _ =>
    rw [hi] at hop
    cases hop

theorem execute_spares (hop : i.op.stores = false) (h : execute p t i w = .ok flow w') :
    w.Spares w' := by
  cases kind p t i with
  | plain he => exact (he _).keeps h
  | waits he => exact (he.within _).keeps h
  | monitorExit _ he => exact (Waiting.within_monitorExit i).keeps (he ▸ h)
  | threadStart _ he => exact (Waiting.within_threadStart i).keeps (he ▸ h)
  | putField op => simp [op, Opcode.stores] at hop
  | putStatic op => simp [op, Opcode.stores] at hop
  | storeElement op => rcases op with op | op <;> simp [op, Opcode.stores] at hop
  | returns _ he => exact (Call.leaving_doReturn i).keeps (he ▸ h)
  | leaves _ he => exact Call.leaving_stubReturn.keeps (he ▸ h)

/-- **What an instruction does to the slots of objects.** It writes none, or it stores one value and
goes to the next instruction. -/
theorem spares_or_stored (h : perform p t i w = .ok out w') :
    w.Spares w' ∨ ∃ r n v, w.kernel.heap.Stored p i r n v w'.kernel.heap := by
  obtain ⟨flow, w₁, hexecute, hfollow⟩ := bind_eq_ok.mp h
  have hfollowed : w₁.Spares w' := (leaving_follow flow).keeps hfollow
  cases hop : i.op.stores with
  | false => exact .inl (IsTrans.trans _ _ _ (execute_spares hop hexecute) hfollowed)
  | true =>
    rcases execute_stores hop hexecute with ⟨-, hspares⟩ | ⟨rfl, place, r, n, wide, v, hstore⟩
    · exact .inl (IsTrans.trans _ _ _ hspares hfollowed)
    · -- the way to the next instruction leaves the heap as it is
      obtain ⟨_, w₂, hgoto, hout⟩ := bind_eq_ok.mp hfollow
      obtain ⟨-, rfl⟩ := pure_eq_ok.mp hout
      obtain ⟨f, f', -, -, rfl⟩ := onFrame_eq_ok.mp hgoto
      exact .inr ⟨r, n, v, hstore.heap⟩

end Step

end Interleave

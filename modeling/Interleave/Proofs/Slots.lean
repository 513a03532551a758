import Interleave.Proofs.Step.Operations

/-!
# The slots of objects

An object has slots, which may hold references to others, and it may be marked as shared. Little of
what happens to a heap concerns the slots: objects with blank slots are added, marks are set, and
monitors change. Where a slot is written, the mark of the object decides whether the object that the
value refers to is marked as well.

A mark is never taken away. But it is set on one object at a time: what an object holds when it is
marked is not marked with it.
-/

namespace Interleave

/-- An object after steps that do not write its slots. -/
structure Object.Kept (o o' : Object) : Prop where
  classId : o'.classId = o.classId
  kind : o'.kind = o.kind
  data : o'.data = o.data
  creator : o'.creator = o.creator
  detail : o'.detail = o.detail
  /-- What other threads may reach, they still may. -/
  shared : o.shared = true → o'.shared = true

/-- A new object. -/
structure Object.IsFresh (o : Object) : Prop where
  blank : ∀ v ∈ o.data, v = 0
  /-- Class objects are marked from the beginning. -/
  statics : ∀ c, o.kind = .statics c → o.shared = true

/-- A heap to which new objects were added, while no slot was written. -/
structure Heap.Kept (h h' : Heap) : Prop where
  old : ∀ r o, h.get? r = some o → ∃ o', h'.get? r = some o' ∧ o.Kept o'
  new : ∀ r o', h.get? r = none → h'.get? r = some o' → o'.IsFresh

/-- A heap to which new objects were added, while old ones were marked at most. -/
structure Heap.Grows (h h' : Heap) : Prop where
  old : ∀ r o, h.get? r = some o →
    h'.get? r = some o ∨ h'.get? r = some { o with shared := true }
  new : ∀ r o', h.get? r = none → h'.get? r = some o' → o'.IsFresh ∧ o'.monitor = .free

instance : IsPreorder Object Object.Kept where
  refl _ := ⟨rfl, rfl, rfl, rfl, rfl, id⟩
  trans _ _ _ h h' :=
    ⟨h'.classId.trans h.classId, h'.kind.trans h.kind, h'.data.trans h.data,
      h'.creator.trans h.creator, h'.detail.trans h.detail, h'.shared ∘ h.shared⟩

/-- An object that is marked. -/
theorem Object.Kept.marked (o : Object) : o.Kept { o with shared := true } :=
  ⟨rfl, rfl, rfl, rfl, rfl, fun _ => rfl⟩

theorem Object.IsFresh.kept {o o' : Object} (h : o.IsFresh) (hkept : o.Kept o') : o'.IsFresh where
  blank := hkept.data ▸ h.blank
  statics c hc := hkept.shared (h.statics c (hkept.kind ▸ hc))

namespace Heap

/-- What was there is there after an object was added. -/
theorem get?_push_of_some {h : Heap} {r : ObjRef} {o : Object} (o' : Object)
    (ho : h.get? r = some o) : (h.push o').2.get? r = some o := by
  rw [get?_push, if_neg, ho]
  rintro rfl
  rw [get?_push_fst] at ho
  cases ho

/-! ## Heaps whose slots are left alone -/

namespace Kept

protected theorem refl (h : Heap) : h.Kept h where
  old _ o ho := ⟨o, ho, refl o⟩
  new _ _ hnone ho' := by
    rw [hnone] at ho'
    cases ho'

protected theorem trans {h₁ h₂ h₃ : Heap} (h : h₁.Kept h₂) (h' : h₂.Kept h₃) : h₁.Kept h₃ where
  old r o ho := by
    obtain ⟨o₂, ho₂, hkept⟩ := h.old r o ho
    obtain ⟨o₃, ho₃, hkept'⟩ := h'.old r o₂ ho₂
    exact ⟨o₃, ho₃, IsTrans.trans _ _ _ hkept hkept'⟩
  new r o₃ hnone ho₃ := by
    cases ho₂ : h₂.get? r with
    | none => exact h'.new r o₃ ho₂ ho₃
    | some o₂ =>
      obtain ⟨o₃', ho₃', hkept⟩ := h'.old r o₂ ho₂
      rw [ho₃] at ho₃'
      cases ho₃'
      exact (h.new r o₂ hnone ho₂).kept hkept

theorem modify (h : Heap) (r : ObjRef) {f : Object → Object} (hf : ∀ o : Object, o.Kept (f o)) :
    h.Kept (h.modify r f) where
  old s o ho := by
    rw [get?_modify, ho]
    split
    · exact ⟨f o, rfl, hf o⟩
    · exact ⟨o, rfl, refl o⟩
  new s o' hnone ho' := by
    rw [get?_modify, hnone] at ho'
    simp at ho'

theorem push (h : Heap) {o : Object} (hfresh : o.IsFresh) : h.Kept (h.push o).2 where
  old s o' ho' := ⟨o', get?_push_of_some o ho', refl o'⟩
  new s o' hnone ho' := by
    rw [get?_push] at ho'
    split at ho'
    · cases ho'
      exact hfresh
    · rw [hnone] at ho'
      cases ho'

theorem allocInstance (h : Heap) (c : ClassId) (fields : Nat) (creator : ThreadId) :
    h.Kept (h.allocInstance c fields creator).2 :=
  .push h ⟨fun _ hv => (Array.mem_replicate.mp hv).2, fun _ hc => nomatch hc⟩

theorem allocClassObject (h : Heap) (c d : ClassId) (statics : Nat) :
    h.Kept (h.allocClassObject c d statics).2 :=
  .push h ⟨fun _ hv => (Array.mem_replicate.mp hv).2, fun _ _ => rfl⟩

theorem setMonitor (k : Kernel) (r : ObjRef) (m : Monitor) : k.heap.Kept (k.setMonitor r m).heap :=
  modify k.heap r fun _ => ⟨rfl, rfl, rfl, rfl, rfl, id⟩

theorem markShared (k : Kernel) (r : ObjRef) : k.heap.Kept (k.markShared r).heap :=
  modify k.heap r .marked

theorem released (k : Kernel) (r : ObjRef) (m : Monitor) : k.heap.Kept (k.released r m).heap := by
  unfold Kernel.released
  split
  · exact setMonitor k r m
  · exact setMonitor k r m

end Kept

/-! ## Heaps that grow -/

namespace Grows

variable {h h' : Heap}

theorem kept (hgrows : h.Grows h') : h.Kept h' where
  old r o ho := by
    rcases hgrows.old r o ho with ho' | ho'
    · exact ⟨o, ho', refl o⟩
    · exact ⟨_, ho', .marked o⟩
  new r o' hnone ho' := (hgrows.new r o' hnone ho').1

/-- An object is marked. -/
theorem marked (h : Heap) (r : ObjRef) :
    h.Grows (h.modify r fun o => { o with shared := true }) where
  old s o ho := by
    rw [get?_modify, ho]
    split
    · exact .inr rfl
    · exact .inl rfl
  new s o' hnone ho' := by
    rw [get?_modify, hnone] at ho'
    simp at ho'

/-- An object is added. -/
theorem push (h : Heap) {o : Object} (hfresh : o.IsFresh) (hfree : o.monitor = .free) :
    h.Grows (h.push o).2 where
  old s o' ho' := .inl (get?_push_of_some o ho')
  new s o' hnone ho' := by
    rw [get?_push] at ho'
    split at ho'
    · cases ho'
      exact ⟨hfresh, hfree⟩
    · rw [hnone] at ho'
      cases ho'

theorem allocInstance (h : Heap) (c : ClassId) (fields : Nat) (creator : ThreadId) :
    h.Grows (h.allocInstance c fields creator).2 :=
  push h ⟨fun _ hv => (Array.mem_replicate.mp hv).2, fun _ hc => nomatch hc⟩ rfl

theorem allocArray (h : Heap) (c : ClassId) (code : TypeCode) (length : Nat) (creator : ThreadId) :
    h.Grows (h.allocArray c code length creator).2 :=
  push h ⟨fun _ hv => (Array.mem_replicate.mp hv).2, fun _ hc => nomatch hc⟩ rfl

/-- An object that is added may be given a message. -/
theorem allocThrown (h : Heap) (c : ClassId) (fields : Nat) (creator : ThreadId)
    (detail : Option String) : h.Grows ((h.allocInstance c fields creator).2.modify
      (h.allocInstance c fields creator).1 fun o => { o with detail }) where
  old s o ho := by
    have hs : (h.allocInstance c fields creator).1 ≠ s := by
      rintro rfl
      exact nomatch ho.symm.trans (get?_push_fst h _)
    rw [get?_modify, if_neg hs]
    exact .inl (get?_push_of_some _ ho)
  new s o' hnone ho' := by
    rw [get?_modify] at ho'
    split at ho'
    · obtain ⟨o, ho, rfl⟩ := Option.map_eq_some_iff.mp ho'
      obtain ⟨hfresh, hfree⟩ := (allocInstance h c fields creator).new s o hnone ho
      exact ⟨⟨hfresh.blank, hfresh.statics⟩, hfree⟩
    · exact (allocInstance h c fields creator).new s o' hnone ho'

end Grows

/-! ## Marks and references -/

/-- An object is there and is marked as shared. -/
def IsShared (h : Heap) (r : ObjRef) : Prop := ∃ o, h.get? r = some o ∧ o.shared = true

/-- A slot of an object holds a value. -/
def Holds (h : Heap) (r : ObjRef) (n : Nat) (v : Slot) : Prop :=
  ∃ o, h.get? r = some o ∧ o.data[n]? = some v

/-- All class objects are marked. -/
def SharesStatics (h : Heap) : Prop :=
  ∀ r o c, h.get? r = some o → o.kind = .statics c → o.shared = true

/-- A mark is missing: a slot of a marked object refers to an object that is not marked. -/
structure Lacks (h : Heap) (r : ObjRef) (n : Nat) (v : Slot) : Prop where
  shared : h.IsShared r
  holds : h.Holds r n v
  object : ∃ o, h.get? (.ofSlot v) = some o
  unmarked : ¬ h.IsShared (.ofSlot v)

theorem get?_ofSlot_zero (h : Heap) : h.get? (.ofSlot 0) = none := rfl

theorem Lacks.ne_zero {h : Heap} {r : ObjRef} {n : Nat} {v : Slot} (hlacks : h.Lacks r n v) :
    v ≠ 0 := by
  rintro rfl
  obtain ⟨o, ho⟩ := hlacks.object
  rw [get?_ofSlot_zero] at ho
  cases ho

namespace Kept

variable {h h' : Heap} {r : ObjRef} {n : Nat} {v : Slot}

theorem isShared (hkept : h.Kept h') (hr : h.IsShared r) : h'.IsShared r := by
  obtain ⟨o, ho, hshared⟩ := hr
  obtain ⟨o', ho', hobject⟩ := hkept.old r o ho
  exact ⟨o', ho', hobject.shared hshared⟩

theorem sharesStatics (hkept : h.Kept h') (hs : h.SharesStatics) : h'.SharesStatics := by
  intro r o' c ho' hc
  cases ho : h.get? r with
  | none => exact (hkept.new r o' ho ho').statics c hc
  | some o =>
    obtain ⟨o'', ho'', hobject⟩ := hkept.old r o ho
    rw [ho'] at ho''
    cases ho''
    exact hobject.shared (hs r o c ho (hobject.kind ▸ hc))

/-- What a slot holds, it has held before, unless it is blank. -/
theorem holds (hkept : h.Kept h') (hv : v ≠ 0) (hr : h'.Holds r n v) : h.Holds r n v := by
  obtain ⟨o', ho', hdata⟩ := hr
  cases ho : h.get? r with
  | none =>
    obtain ⟨hn, rfl⟩ := Array.getElem?_eq_some_iff.mp hdata
    exact absurd ((hkept.new r o' ho ho').blank _ (Array.getElem_mem hn)) hv
  | some o =>
    obtain ⟨o'', ho'', hobject⟩ := hkept.old r o ho
    rw [ho'] at ho''
    cases ho''
    exact ⟨o, ho, hobject.data ▸ hdata⟩

end Kept

/-! ## Writing a slot -/

theorem get?_setSlot (h : Heap) (r s : ObjRef) (n : Nat) (v : Slot) :
    (h.modify r (·.setSlot n v)).get? s =
      if r = s then (h.get? s).map (·.setSlot n v) else h.get? s := get?_modify h r s _

theorem isShared_setSlot {h : Heap} {r s : ObjRef} {n : Nat} {v : Slot} :
    (h.modify r (·.setSlot n v)).IsShared s ↔ h.IsShared s := by
  unfold IsShared
  rw [get?_setSlot]
  split
  · cases h.get? s with
    | none => simp
    | some o => simp [Object.setSlot]
  · rfl

theorem sharesStatics_setSlot {h : Heap} {r : ObjRef} {n : Nat} {v : Slot} (hs : h.SharesStatics) :
    (h.modify r (·.setSlot n v)).SharesStatics := by
  intro s o' c ho' hc
  rw [get?_setSlot] at ho'
  split at ho'
  · obtain ⟨o, ho, rfl⟩ := Option.map_eq_some_iff.mp ho'
    exact hs s o c ho hc
  · exact hs s o' c ho' hc

/-- After a slot was written, it is this one that holds a value, or another one that has held it
before. -/
theorem holds_setSlot {h : Heap} {r s : ObjRef} {n m : Nat} {v u : Slot}
    (hs : (h.modify r (·.setSlot n v)).Holds s m u) :
    (s = r ∧ m = n ∧ u = v) ∨ h.Holds s m u := by
  obtain ⟨o', ho', hdata⟩ := hs
  rw [get?_setSlot] at ho'
  split at ho'
  · rename_i hrs
    obtain ⟨o, ho, rfl⟩ := Option.map_eq_some_iff.mp ho'
    unfold Object.setSlot at hdata
    rw [Array.getElem?_setIfInBounds] at hdata
    split at hdata
    · rename_i hnm
      split at hdata
      · exact .inl ⟨hrs.symm, hnm.symm, (Option.some.inj hdata).symm⟩
      · cases hdata
    · exact .inr ⟨o, ho, hdata⟩
  · exact .inr ⟨o', ho', hdata⟩

theorem isShared_marked {h : Heap} {r : ObjRef} (hr : ∃ o, h.get? r = some o) :
    (h.modify r fun o => { o with shared := true }).IsShared r := by
  obtain ⟨o, ho⟩ := hr
  exact ⟨{ o with shared := true }, by rw [get?_modify, if_pos rfl, ho]; rfl, rfl⟩

end Heap

/-- An instruction writes a slot without regard to what the value may refer to. -/
inductive Program.WritesPlain (p : Program) (i : Instruction) (n : Nat) : Prop where
  | field {r : FieldRef} {f : Field} (op : i.op = .putField) (operand : i.fieldRef = .ok r)
    (found : Memory.instanceField p r = .ok f) (slot : f.slot = n)
    (plain : f.code.isReference = false)
  | static {r : FieldRef} {c : ClassId} {f : Field} (op : i.op = .putStatic)
    (operand : i.fieldRef = .ok r) (found : Memory.staticField p r = .ok (c, f)) (slot : f.slot = n)
    (plain : f.code.isReference = false)
  | element (op : i.op = .iAStore)

/-- What an instruction does to a heap by which it writes a value to a slot of an object. -/
inductive Heap.Stored (p : Program) (i : Instruction) (h : Heap) (r : ObjRef) (n : Nat) (v : Slot) :
    Heap → Prop where
  /-- It does not look at the value. -/
  | plain {h₁ : Heap} (kept : h.Kept h₁) (plain : p.WritesPlain i n) :
    Stored p i h r n v (h₁.modify r (·.setSlot n v))
  /-- The object is not marked. -/
  | unshared {h₁ : Heap} (kept : h.Kept h₁) (unmarked : ¬ h₁.IsShared r) :
    Stored p i h r n v (h₁.modify r (·.setSlot n v))
  /-- The object that the value refers to is marked, if there is one. -/
  | published {h₁ : Heap} (kept : h.Kept h₁) :
    Stored p i h r n v
      ((h₁.modify r (·.setSlot n v)).modify (.ofSlot v) fun o => { o with shared := true })

namespace Heap.Stored

variable {p : Program} {i : Instruction} {h h' : Heap} {r s : ObjRef} {n n' : Nat} {v v' : Slot}

/-- A stored value is a slot written, and perhaps a mark. -/
theorem exists_setSlot (hstored : Stored p i h r n v h') :
    ∃ h₁, h.Kept h₁ ∧ (h₁.modify r (·.setSlot n v)).Kept h' := by
  cases hstored with
  | plain kept => exact ⟨_, kept, .refl _⟩
  | unshared kept => exact ⟨_, kept, .refl _⟩
  | published kept => exact ⟨_, kept, .modify _ _ .marked⟩

theorem isShared (hstored : Stored p i h r n v h') (hs : h.IsShared s) : h'.IsShared s := by
  obtain ⟨h₁, hbefore, hafter⟩ := hstored.exists_setSlot
  exact hafter.isShared (isShared_setSlot.mpr (hbefore.isShared hs))

theorem sharesStatics (hstored : Stored p i h r n v h') (hs : h.SharesStatics) :
    h'.SharesStatics := by
  obtain ⟨h₁, hbefore, hafter⟩ := hstored.exists_setSlot
  exact hafter.sharesStatics (sharesStatics_setSlot (hbefore.sharesStatics hs))

/-- When a reference is stored, no mark is missing that was not missing before. -/
theorem holds (hstored : Stored p i h s n' v' h') (hlacks : h'.Lacks r n v) :
    h.Holds r n v ∨ p.WritesPlain i n := by
  have hv := hlacks.ne_zero
  cases hstored with
  | plain kept plain =>
    rcases holds_setSlot hlacks.holds with ⟨-, rfl, -⟩ | hbefore
    · exact .inr plain
    · exact .inl (kept.holds hv hbefore)
  | unshared kept unmarked =>
    -- the object that holds the value would be marked by now
    rcases holds_setSlot hlacks.holds with ⟨rfl, -, -⟩ | hbefore
    · exact absurd (isShared_setSlot.mp hlacks.shared) unmarked
    · exact .inl (kept.holds hv hbefore)
  | @published h₁ kept =>
    have hmarked := Kept.modify (h₁.modify s (·.setSlot n' v')) (.ofSlot v') .marked
    rcases holds_setSlot (hmarked.holds hv hlacks.holds) with ⟨-, -, rfl⟩ | hbefore
    · refine absurd (isShared_marked ?_) hlacks.unmarked
      obtain ⟨o, ho⟩ := hlacks.object
      rw [get?_modify, if_pos rfl] at ho
      obtain ⟨o₁, ho₁, -⟩ := Option.map_eq_some_iff.mp ho
      exact ⟨o₁, ho₁⟩
    · exact .inl (kept.holds hv hbefore)

end Heap.Stored

end Interleave

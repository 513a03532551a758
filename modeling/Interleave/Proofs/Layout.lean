import Interleave.Proofs.Lineage
import Mathlib.Data.List.Nodup

/-!
# The tables of a program

Classes are appended to a program, each below one that is there, and methods are appended to the
table of methods and to their class. So a name stands for one class, superclasses come first, a
class has the fields of its superclass in front of its own, and the number of a method is its place
in the table. `Program.Arranged` says so, and whatever a program is put together of, it is arranged.
-/

namespace Interleave

/-- Every field bears the number of its place. -/
def Numbered (fields : List Field) : Prop :=
  ∀ (n : Nat) (f : Field), fields[n]? = some f → f.slot = n

theorem numbered_nil : Numbered [] := fun _ _ h => by simp at h

/-- Fields that are appended are numbered on. -/
theorem Numbered.append {fields : List Field} (h : Numbered fields) (own : List Field) :
    Numbered (fields ++ numberFields fields.length own) := by
  intro n f hf
  by_cases hn : n < fields.length
  · rw [List.getElem?_append_left hn] at hf
    exact h n f hf
  · rw [List.getElem?_append_right (by omega), numberFields, List.getElem?_mapIdx] at hf
    obtain ⟨g, -, rfl⟩ := Option.map_eq_some_iff.mp hf
    show fields.length + (n - fields.length) = n
    omega

namespace Program

variable {p p' : Program} {c : ClassId} {k : Class} {m m' : Method}

/-- Classes, methods and fields are in the places that their names and numbers say. -/
structure Arranged (p : Program) : Prop where
  /-- A name stands for one class. -/
  names : ∀ i j c d, p.class? i = some c → p.class? j = some d → c.name = d.name → i = j
  /-- The first class is the one that is above all. -/
  root : ∃ c, p.class? ⟨0⟩ = some c ∧ c.name = Builtin.object ∧ c.superclass = none
  /-- The others are below one that comes before. -/
  below : ∀ i c, p.class? i = some c → i ≠ ⟨0⟩ → ∃ s, c.superclass = some s ∧ s.index < i.index
  /-- A class has the fields of its superclass in front. -/
  inherited : ∀ i c s d, p.class? i = some c → c.superclass = some s → p.class? s = some d →
    d.instanceFields <+: c.instanceFields
  instanceSlots : ∀ i c, p.class? i = some c → Numbered c.instanceFields
  staticSlots : ∀ i c, p.class? i = some c → Numbered c.staticFields
  /-- The methods of a class have different names. -/
  tables : ∀ i c, p.class? i = some c → (c.methods.map Method.uniqueName).Nodup
  /-- The id of a method is its place in the table. -/
  numbers : ∀ (n : Nat) (m : Method), p.methods[n]? = some m → m.id = .registered n

/-! ## Looking up names -/

theorem exists_of_classId? {name : String} (h : p.classId? name = some c) :
    ∃ k, p.class? c = some k ∧ k.name = name := by
  obtain ⟨i, hi, rfl⟩ := Option.map_eq_some_iff.mp h
  obtain ⟨hlt, hname, -⟩ := Array.findIdx?_eq_some_iff_getElem.mp hi
  exact ⟨p.classes[i], Array.getElem?_eq_getElem hlt, beq_iff_eq.mp hname⟩

theorem ne_of_classId?_eq_none {name : String} (h : p.classId? name = none)
    (hk : p.class? c = some k) : k.name ≠ name := by
  have hnone : p.classes.findIdx? (·.name == name) = none := Option.map_eq_none_iff.mp h
  have hall := Array.findIdx?_eq_none_iff.mp hnone k (Array.mem_of_getElem? hk)
  simpa using hall

/-- A name stands for the class that bears it. -/
theorem Arranged.classId?_iff (h : p.Arranged) {name : String} :
    p.classId? name = some c ↔ ∃ k, p.class? c = some k ∧ k.name = name := by
  refine ⟨exists_of_classId?, fun ⟨k, hk, hname⟩ => ?_⟩
  cases hc : p.classId? name with
  | none => exact absurd hname (ne_of_classId?_eq_none hc hk)
  | some d =>
    obtain ⟨l, hl, hlname⟩ := exists_of_classId? hc
    rw [h.names d c l k hl hk (hlname.trans hname.symm)]

/-! ## What the operations do -/

/-- The class that a declaration adds below another one, with its fields read. -/
def declared (p : Program) (d : ClassDecl) (s : ClassId) (fields : List Field) : Class :=
  let inherited := ((p.class? s).map Class.instanceFields).getD []
  let (statics, own) := fields.partition (·.modifiers.isStatic)
  { id := ⟨p.classes.size⟩
    name := d.name
    superclass := some s
    modifiers := d.modifiers
    sourceFile := d.sourceFile
    instanceFields := inherited ++ numberFields inherited.length own
    staticFields := numberFields 0 statics }

/-- A class is declared by appending it, if its name is new, its superclass is there and the types
of its fields can be read. -/
theorem declareClass_eq_ok {d : ClassDecl} : p.declareClass d = .ok (c, p') ↔
    p.classId? d.name = none ∧ ∃ s fields, p.classId? d.superclass = some s ∧
      d.fields.mapM (checkField d.name) = .ok fields ∧ c = ⟨p.classes.size⟩ ∧
      p' = { p with classes := p.classes.push (p.declared d s fields) } := by
  unfold declareClass
  cases hname : p.classId? d.name with
  | some i => simp
  | none =>
    cases hs : p.classId? d.superclass with
    | none => simp
    | some s =>
      cases hfields : d.fields.mapM (checkField d.name) with
      | error e => simp [bind, Except.bind]
      | ok fields =>
        have hmodify : ∀ (cs : Array Class) (k : Class) (f : Class → Class),
            (cs.push k).modify cs.size f = cs.push (f k) := by
          intro cs k f
          refine Array.ext_getElem? fun n => ?_
          rw [Array.getElem?_modify, Array.getElem?_push, Array.getElem?_push]
          by_cases hn : n = cs.size
          · simp [hn]
          · simp [hn, Ne.symm hn]
        simp [bind, Except.bind, pushClass, declared, hmodify, eq_comm]

/-- A method is added by appending it, if its class is there and has none of its name. -/
theorem addMethod_eq_ok : p.addMethod m = .ok (m', p') ↔ ∃ c k, m.classId? = some c ∧
    p.class? c = some k ∧ k.method? m.uniqueName = none ∧ p.attach c m = (m', p') := by
  unfold addMethod
  cases hc : m.classId? with
  | none => simp
  | some c =>
    cases hk : p.class? c with
    | none => simp [hk]
    | some k => cases hm : k.method? m.uniqueName <;> simp [hk, hm]

/-- The classes after one was appended. -/
theorem class?_push (p : Program) (k : Class) (i : ClassId) :
    ({ p with classes := p.classes.push k } : Program).class? i =
      if i.index = p.classes.size then some k else p.class? i := by
  simp only [class?, Array.getElem?_push]

/-- The classes after a method was appended to one of them. -/
theorem class?_attach (p : Program) (c : ClassId) (m : Method) (i : ClassId) :
    (p.attach c m).2.class? i = if c = i then (p.class? i).map fun k =>
      { k with methods := k.methods ++ [(p.register m).1] } else p.class? i :=
  class?_modify (p.register m).2 _ c i

/-- A class that was there before another one was appended, or the one that was appended. -/
theorem class?_of_push {i : ClassId} {l : Class}
    (h : ({ p with classes := p.classes.push k } : Program).class? i = some l) :
    i = ⟨p.classes.size⟩ ∧ l = k ∨ i.index < p.classes.size ∧ p.class? i = some l := by
  rw [class?_push] at h
  split at h
  · rename_i hi
    exact .inl ⟨congrArg ClassId.mk hi, (Option.some.inj h).symm⟩
  · exact .inr ⟨(Array.getElem?_eq_some_iff.mp h).1, h⟩

/-- A class is what it was before a method was appended to it or to another one, but for its
methods. -/
theorem class?_eq_of_attach {i : ClassId} {l : Class} (h : (p.attach c m).2.class? i = some l) :
    ∃ k, p.class? i = some k ∧ l = { k with
      methods := if c = i then k.methods ++ [(p.register m).1] else k.methods } := by
  rw [class?_attach] at h
  split at h
  · rename_i hi
    obtain ⟨k, hk, rfl⟩ := Option.map_eq_some_iff.mp h
    exact ⟨k, hk, by rw [if_pos hi]⟩
  · rename_i hi
    exact ⟨l, h, by rw [if_neg hi]⟩

/-! ## Names as tables -/

/-- Tables of names: the class that a name stands for, and the method that a unique name stands for
in a class. -/
@[ext]
structure Names where
  class? : String → Option ClassId
  method? : ClassId → String → Option Method

namespace Names

/-- Enters a class under its name. -/
def addClass (t : Names) (name : String) (c : ClassId) : Names :=
  { t with class? := Function.update t.class? name (some c) }

/-- Enters a method of a class under its unique name. -/
def addMethod (t : Names) (c : ClassId) (m : Method) : Names :=
  { t with
    method? := Function.update t.method? c
      (Function.update (t.method? c) m.uniqueName (some m)) }

end Names

/-- What lookups by name answer in a program. -/
def names (p : Program) : Names where
  class? := p.classId?
  method? c name := (p.class? c).bind (·.method? name)

/-- A class that is appended under a new name, without methods, is entered into the tables. -/
theorem names_push (hname : p.classId? k.name = none) (hmethods : k.methods = []) :
    ({ p with classes := p.classes.push k } : Program).names =
      p.names.addClass k.name ⟨p.classes.size⟩ := by
  have hbefore : p.classes.findIdx? (·.name == k.name) = none := Option.map_eq_none_iff.mp hname
  ext1
  · funext name
    show (((p.classes.push k).findIdx? (·.name == name)).map ClassId.mk) =
      Function.update p.classId? k.name _ name
    rw [Array.findIdx?_push, Function.update_apply]
    by_cases hn : name = k.name
    · subst hn
      simp [hbefore]
    · simp [hn, Ne.symm hn, classId?]
  · funext c name
    show (({ p with classes := p.classes.push k } : Program).class? c).bind (·.method? name) =
      (p.class? c).bind (·.method? name)
    rw [class?_push]
    split
    · rename_i hc
      have hnone : p.class? c = none := Array.getElem?_eq_none_iff.mpr (Nat.le_of_eq hc.symm)
      simp [hnone, Class.method?, hmethods]
    · rfl

theorem classId?_attach (p : Program) (c : ClassId) (m : Method) (name : String) :
    (p.attach c m).2.classId? name = p.classId? name := by
  have hnames : (p.attach c m).2.classes.map Class.name = p.classes.map Class.name := by
    refine Array.ext_getElem? fun n => ?_
    have hclass := class?_attach p c m ⟨n⟩
    simp only [class?] at hclass
    rw [Array.getElem?_map, Array.getElem?_map, hclass]
    split
    · rw [Option.map_map]
      rfl
    · rfl
  have hindex := congrArg (Array.findIdx? (· == name)) hnames
  rw [Array.findIdx?_map, Array.findIdx?_map] at hindex
  exact congrArg (Option.map ClassId.mk) hindex

/-- A method that is appended to a class under a new name is entered into the table of the class. -/
theorem names_attach (hk : p.class? c = some k) (hfresh : k.method? m.uniqueName = none) :
    (p.attach c m).2.names = p.names.addMethod c (p.register m).1 := by
  ext1
  · exact funext fun name => classId?_attach p c m name
  · funext i name
    show ((p.attach c m).2.class? i).bind (·.method? name) =
      Function.update (fun c name => (p.class? c).bind (·.method? name)) c
        (Function.update (fun name => (p.class? c).bind (·.method? name)) m.uniqueName _) i name
    rw [class?_attach, Function.update_apply]
    by_cases hi : c = i
    · subst hi
      rw [if_pos rfl, if_pos rfl, hk, Function.update_apply]
      by_cases hn : name = m.uniqueName
      · subst hn
        have hlist : k.methods.find? (·.uniqueName == m.uniqueName) = none := hfresh
        have hname : ((p.register m).1.uniqueName == m.uniqueName) = true := beq_iff_eq.mpr rfl
        simp [Class.method?, List.find?_append, hlist, hname]
      · have hname : ((p.register m).1.uniqueName == name) = false :=
          beq_eq_false_iff_ne.mpr (Ne.symm hn)
        simp [Class.method?, List.find?_append, hn, hname]
    · rw [if_neg hi, if_neg (Ne.symm hi)]

namespace Arranged

/-! ## Appending -/

/-- A class may be appended if its name is new and it extends a class that is there. -/
theorem push (h : p.Arranged) (hname : p.classId? k.name = none) {s : ClassId} {d : Class}
    (hs : k.superclass = some s) (hd : p.class? s = some d)
    (hinherited : d.instanceFields <+: k.instanceFields) (hinstance : Numbered k.instanceFields)
    (hstatic : Numbered k.staticFields) (hmethods : k.methods = []) :
    ({ p with classes := p.classes.push k } : Program).Arranged where
  names i j l l' hl hl' he := by
    rcases class?_of_push hl with ⟨rfl, rfl⟩ | ⟨-, hold⟩ <;>
      rcases class?_of_push hl' with ⟨rfl, rfl⟩ | ⟨-, hold'⟩
    · rfl
    · exact absurd he.symm (ne_of_classId?_eq_none hname hold')
    · exact absurd he (ne_of_classId?_eq_none hname hold)
    · exact h.names i j l l' hold hold' he
  root := by
    obtain ⟨r, hr, hroot⟩ := h.root
    refine ⟨r, ?_, hroot⟩
    have hlt : 0 < p.classes.size := (Array.getElem?_eq_some_iff.mp hr).1
    rw [class?_push, if_neg (Nat.ne_of_lt hlt)]
    exact hr
  below i l hl hi := by
    rcases class?_of_push hl with ⟨rfl, rfl⟩ | ⟨-, hold⟩
    · exact ⟨s, hs, (Array.getElem?_eq_some_iff.mp hd).1⟩
    · exact h.below i l hold hi
  inherited i l t e hl ht he := by
    rcases class?_of_push hl with ⟨rfl, rfl⟩ | ⟨hlt, hold⟩
    · obtain rfl : s = t := Option.some.inj (hs.symm.trans ht)
      rcases class?_of_push he with ⟨rfl, rfl⟩ | ⟨-, hold⟩
      · exact List.prefix_refl _
      · obtain rfl : d = e := Option.some.inj (hd.symm.trans hold)
        exact hinherited
    · rcases class?_of_push he with ⟨rfl, -⟩ | ⟨-, hold'⟩
      · -- the superclass of an old class is not the new one
        by_cases hi : i = ⟨0⟩
        · obtain ⟨r, hr, -, hnone⟩ := h.root
          obtain rfl : r = l := Option.some.inj (hr.symm.trans (hi ▸ hold))
          rw [hnone] at ht
          cases ht
        · obtain ⟨t, ht', hlt'⟩ := h.below i l hold hi
          rw [ht] at ht'
          cases ht'
          exact absurd hlt' (by simp only; omega)
      · exact h.inherited i l t e hold ht hold'
  instanceSlots i l hl := by
    rcases class?_of_push hl with ⟨rfl, rfl⟩ | ⟨-, hold⟩
    · exact hinstance
    · exact h.instanceSlots i l hold
  staticSlots i l hl := by
    rcases class?_of_push hl with ⟨rfl, rfl⟩ | ⟨-, hold⟩
    · exact hstatic
    · exact h.staticSlots i l hold
  tables i l hl := by
    rcases class?_of_push hl with ⟨rfl, rfl⟩ | ⟨-, hold⟩
    · simp [hmethods]
    · exact h.tables i l hold
  numbers := h.numbers

/-- A method may be appended if its class has none of its name. -/
theorem attach (h : p.Arranged) (hk : p.class? c = some k)
    (hfresh : k.method? m.uniqueName = none) : (p.attach c m).2.Arranged where
  names i j l l' hl hl' he := by
    obtain ⟨k₁, hk₁, rfl⟩ := class?_eq_of_attach hl
    obtain ⟨k₂, hk₂, rfl⟩ := class?_eq_of_attach hl'
    exact h.names i j k₁ k₂ hk₁ hk₂ he
  root := by
    obtain ⟨r, hr, hroot⟩ := h.root
    rw [class?_attach]
    split
    · exact ⟨_, Option.map_eq_some_iff.mpr ⟨r, hr, rfl⟩, hroot⟩
    · exact ⟨r, hr, hroot⟩
  below i l hl hi := by
    obtain ⟨k₁, hk₁, rfl⟩ := class?_eq_of_attach hl
    exact h.below i k₁ hk₁ hi
  inherited i l s d hl hs hd := by
    obtain ⟨k₁, hk₁, rfl⟩ := class?_eq_of_attach hl
    obtain ⟨k₂, hk₂, rfl⟩ := class?_eq_of_attach hd
    exact h.inherited i k₁ s k₂ hk₁ hs hk₂
  instanceSlots i l hl := by
    obtain ⟨k₁, hk₁, rfl⟩ := class?_eq_of_attach hl
    exact h.instanceSlots i k₁ hk₁
  staticSlots i l hl := by
    obtain ⟨k₁, hk₁, rfl⟩ := class?_eq_of_attach hl
    exact h.staticSlots i k₁ hk₁
  tables i l hl := by
    obtain ⟨k₁, hk₁, rfl⟩ := class?_eq_of_attach hl
    have hbefore := h.tables i k₁ hk₁
    dsimp only
    split
    · rename_i hi
      subst hi
      obtain rfl : k = k₁ := Option.some.inj (hk.symm.trans hk₁)
      rw [List.map_append, List.nodup_append]
      refine ⟨hbefore, by simp, fun name hname name' hname' he => ?_⟩
      obtain ⟨m₁, hm₁, rfl⟩ := List.mem_map.mp hname
      have hne := List.find?_eq_none.mp hfresh m₁ hm₁
      rw [List.map_singleton, List.mem_singleton] at hname'
      exact hne (beq_iff_eq.mpr (he.trans hname'))
    · exact hbefore
  numbers n l hl := by
    replace hl : (p.methods.push (p.register m).1)[n]? = some l := hl
    rw [Array.getElem?_push] at hl
    split at hl
    · rename_i hn
      cases hl
      exact congrArg MethodId.registered hn.symm
    · exact h.numbers n l hl

theorem declareClass (h : p.Arranged) {d : ClassDecl} (hd : p.declareClass d = .ok (c, p')) :
    p'.Arranged := by
  obtain ⟨hname, s, fields, hs, -, -, rfl⟩ := declareClass_eq_ok.mp hd
  obtain ⟨l, hl, -⟩ := exists_of_classId? hs
  refine h.push hname rfl hl ?_ ?_ ?_ rfl
  · simp [declared, hl]
  · simpa [declared, hl] using (h.instanceSlots s l hl).append _
  · simpa [declared] using numbered_nil.append _

theorem addMethod (h : p.Arranged) (hm : p.addMethod m = .ok (m', p')) : p'.Arranged := by
  obtain ⟨c, k, -, hk, hfresh, hattach⟩ := addMethod_eq_ok.mp hm
  have harranged := h.attach hk hfresh
  rwa [hattach] at harranged

end Arranged

/-! ## The first classes -/

/-- What of a class does not depend on the code of its methods. -/
structure Outline where
  name : String
  superclass : Option ClassId
  instanceFields : List Field
  staticFields : List Field
  methods : List String
deriving DecidableEq

/-- The outline of a class. -/
def outline (c : Class) : Outline :=
  { name := c.name, superclass := c.superclass, instanceFields := c.instanceFields,
    staticFields := c.staticFields, methods := c.methods.map Method.uniqueName }

/-- The outlines of the first classes. -/
def firstOutlines : List Outline := (base .plain).classes.toList.map outline

/-- The outlines are the same however instructions are stamped. -/
theorem firstOutlines_eq (stamp : Stamp) :
    (base stamp).classes.toList.map outline = firstOutlines := rfl

theorem id_base (stamp : Stamp) : (base stamp).methods.toList.map Method.id =
    (base .plain).methods.toList.map Method.id := rfl

theorem base_arranged (stamp : Stamp) : (base stamp).Arranged := by
  have houtline : ∀ i, ((base stamp).class? i).map outline = firstOutlines[i.index]? := by
    intro i
    rw [← firstOutlines_eq stamp, List.getElem?_map, Array.getElem?_toList]
    rfl
  have hsome : ∀ {i c}, (base stamp).class? i = some c →
      firstOutlines[i.index]? = some (outline c) := by
    intro i c hc
    rw [← houtline, hc, Option.map_some]
  have hnames : (firstOutlines.map Outline.name).Nodup := by decide +kernel
  have hfirst : firstOutlines[0]?.map (fun o => (o.name, o.superclass)) =
      some (Builtin.object, none) := by decide +kernel
  have hbelow : ∀ n < firstOutlines.length, n ≠ 0 →
      (firstOutlines[n]?.bind Outline.superclass).any (·.index < n) = true := by decide +kernel
  have hplain : ∀ o ∈ firstOutlines, o.instanceFields = [] ∧ o.staticFields = [] ∧
      o.methods.Nodup := by decide +kernel
  have hempty : ∀ {i c}, (base stamp).class? i = some c → c.instanceFields = [] ∧
      c.staticFields = [] ∧ (c.methods.map Method.uniqueName).Nodup :=
    fun hc => hplain _ (List.mem_of_getElem? (hsome hc))
  have hids : (base .plain).methods.toList.map Method.id =
      (List.range 4).map MethodId.registered := by decide +kernel
  constructor
  case names =>
    intro i j c d hc hd he
    have hname : ∀ {i c}, (base stamp).class? i = some c →
        (firstOutlines.map Outline.name)[i.index]? = some c.name := by
      intro i c hc
      rw [List.getElem?_map, hsome hc]
      rfl
    obtain ⟨hlt, -⟩ := List.getElem?_eq_some_iff.mp (hname hc)
    have hsame := (hname hc).trans (he ▸ (hname hd).symm)
    exact congrArg ClassId.mk ((List.getElem?_inj hlt hnames).mp hsame)
  case root =>
    rw [← houtline ⟨0⟩, Option.map_map] at hfirst
    obtain ⟨c, hc, hroot⟩ := Option.map_eq_some_iff.mp hfirst
    exact ⟨c, hc, Prod.mk.inj hroot⟩
  case below =>
    intro i c hc hi
    obtain ⟨hlt, -⟩ := List.getElem?_eq_some_iff.mp (hsome hc)
    have hsuperclass := hbelow i.index hlt fun hzero => hi (congrArg ClassId.mk hzero)
    rw [hsome hc, Option.bind_some, Option.any_eq_true] at hsuperclass
    obtain ⟨s, hs, hlt⟩ := hsuperclass
    exact ⟨s, hs, of_decide_eq_true hlt⟩
  case inherited =>
    intro i c s d _ _ hd
    exact (hempty hd).1 ▸ List.nil_prefix
  case instanceSlots =>
    intro i c hc
    exact (hempty hc).1 ▸ numbered_nil
  case staticSlots =>
    intro i c hc
    exact (hempty hc).2.1 ▸ numbered_nil
  case tables =>
    intro i c hc
    exact (hempty hc).2.2
  case numbers =>
    intro n m hm
    have hid : ((base stamp).methods.toList.map Method.id)[n]? = some m.id := by
      rw [List.getElem?_map, Array.getElem?_toList, hm, Option.map_some]
    rw [id_base, hids, List.getElem?_map] at hid
    obtain ⟨n', hn, hnumber⟩ := Option.map_eq_some_iff.mp hid
    obtain ⟨_, hn'⟩ := List.getElem?_eq_some_iff.mp hn
    rw [List.getElem_range] at hn'
    rw [← hnumber, hn']

/-- Whatever a program is put together of, it is arranged. -/
theorem Built.arranged (h : p.Built) : p.Arranged := by
  induction h with
  | base stamp => exact base_arranged stamp
  | declareClass _ h ih => exact ih.declareClass h
  | addMethod _ h ih => exact ih.addMethod h

/-! ## What follows -/

namespace Arranged

variable {i j : ClassId} {k l : Class}

/-- The superclass of a class comes before it. -/
theorem exists_of_superclass (h : p.Arranged) (hk : p.class? i = some k)
    (hj : k.superclass = some j) : j.index < i.index ∧ ∃ l, p.class? j = some l := by
  have hi : i ≠ ⟨0⟩ := by
    rintro rfl
    obtain ⟨r, hr, -, hnone⟩ := h.root
    obtain rfl : r = k := Option.some.inj (hr.symm.trans hk)
    rw [hnone] at hj
    cases hj
  obtain ⟨s, hs, hlt⟩ := h.below i k hk hi
  obtain rfl : s = j := Option.some.inj (hs.symm.trans hj)
  have hsize : i.index < p.classes.size := (Array.getElem?_eq_some_iff.mp hk).1
  exact ⟨hlt, _, Array.getElem?_eq_getElem (Nat.lt_trans hlt hsize)⟩

theorem superclassesFirst (h : p.Arranged) : p.SuperclassesFirst := by
  intro i j hj
  obtain ⟨k, hk, hsuperclass⟩ := Option.bind_eq_some_iff.mp hj
  exact (h.exists_of_superclass hk hsuperclass).1

/-- Only the first class has no superclass. -/
theorem superclass_eq_none_iff (h : p.Arranged) (hk : p.class? i = some k) :
    k.superclass = none ↔ k.name = Builtin.object := by
  obtain ⟨r, hr, hname, hnone⟩ := h.root
  constructor
  · intro hk'
    by_cases hi : i = ⟨0⟩
    · obtain rfl : r = k := Option.some.inj (hr.symm.trans (hi ▸ hk))
      exact hname
    · obtain ⟨s, hs, -⟩ := h.below i k hk hi
      rw [hs] at hk'
      cases hk'
  · intro hk'
    obtain rfl : i = ⟨0⟩ := h.names i ⟨0⟩ k r hk hr (hk'.trans hname.symm)
    obtain rfl : r = k := Option.some.inj (hr.symm.trans hk)
    exact hnone

/-- Above a class there are classes of the program only. -/
theorem exists_of_mem_chain (h : p.Arranged) (hk : p.class? i = some k) (hj : j ∈ p.chain i) :
    ∃ l, p.class? j = some l := by
  induction i using chain.induct generalizing k with
  | _ i ih =>
    rcases mem_chain_iff.mp hj with rfl | ⟨s, hs, hlt, hjs⟩
    · exact ⟨k, hk⟩
    · obtain ⟨l, hl⟩ := (h.exists_of_superclass hk (by simpa [superclass?, hk] using hs)).2
      exact ih s hlt hl hjs

/-- The chain of a class ends in the class that is above all. -/
theorem getLast?_chain (h : p.Arranged) (hk : p.class? i = some k) :
    (p.chain i).getLast? = p.classId? Builtin.object := by
  obtain ⟨r, hlast, hnone⟩ := (h.superclassesFirst.ascends i).exists_getLast?
  obtain ⟨l, hl⟩ := h.exists_of_mem_chain hk (List.mem_of_getLast? hlast)
  have hsuperclass : l.superclass = none := by simpa [superclass?, hl] using hnone
  rw [hlast, eq_comm, h.classId?_iff]
  exact ⟨l, hl, (h.superclass_eq_none_iff hl).mp hsuperclass⟩

/-- A class has the fields of all classes above it in front. -/
theorem instanceFields_prefix (h : p.Arranged) (hj : j ∈ p.chain i) (hk : p.class? i = some k)
    (hl : p.class? j = some l) : l.instanceFields <+: k.instanceFields := by
  induction i using chain.induct generalizing k with
  | _ i ih =>
    rcases mem_chain_iff.mp hj with rfl | ⟨s, hs, hlt, hjs⟩
    · obtain rfl : l = k := Option.some.inj (hl.symm.trans hk)
      exact List.prefix_refl _
    · have hsuperclass : k.superclass = some s := by simpa [superclass?, hk] using hs
      obtain ⟨d, hd⟩ := (h.exists_of_superclass hk hsuperclass).2
      exact (ih s hlt hjs hd).trans (h.inherited i k s d hk hsuperclass hd)

/-- The slot of a field denotes the field in the instances of every class below. -/
theorem getElem?_slot (h : p.Arranged) {name : String} {f : Field} (hj : j ∈ p.chain i)
    (hk : p.class? i = some k) (hf : p.instanceField? j name = some f) :
    k.instanceFields[f.slot]? = some f := by
  obtain ⟨l, hl, hfind⟩ := Option.bind_eq_some_iff.mp hf
  obtain ⟨n, hn⟩ := List.getElem?_of_mem (List.mem_reverse.mp (List.mem_of_find?_eq_some hfind))
  rw [h.instanceSlots j l hl n f hn]
  obtain ⟨hlt, rfl⟩ := List.getElem?_eq_some_iff.mp hn
  exact List.prefix_iff_getElem?.mp (h.instanceFields_prefix hj hk hl) n hlt

/-- A class finds the methods that it declares under their names. -/
theorem method?_iff (h : p.Arranged) (hk : p.class? i = some k) {name : String} :
    k.method? name = some m ↔ m ∈ k.methods ∧ m.uniqueName = name := by
  constructor
  · intro hm
    exact ⟨List.mem_of_find?_eq_some hm, by simpa using List.find?_some hm⟩
  · rintro ⟨hm, rfl⟩
    obtain ⟨m', hm'⟩ : ∃ m', k.method? m.uniqueName = some m' := by
      refine Option.isSome_iff_exists.mp (List.find?_isSome.mpr ⟨m, hm, ?_⟩)
      exact beq_iff_eq.mpr rfl
    have hname : m'.uniqueName = m.uniqueName := by simpa using List.find?_some hm'
    obtain rfl : m' = m :=
      List.inj_on_of_nodup_map (h.tables i k hk) (List.mem_of_find?_eq_some hm') hm hname
    exact hm'

end Arranged

end Program

end Interleave

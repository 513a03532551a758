import Interleave.Demo
import Interleave.Proofs.Effect

/-!
# Programs that were put together

A program grows from the first classes by classes that are declared and methods that are added.
Whatever a program is put together of, a class bears the number of its place, a method that it
declares knows the class, and a method is found in the table under its own id.
-/

namespace Interleave

namespace Program

variable {p p' : Program}

/-- A program that was put together by declaring classes and adding methods. -/
inductive Built : Program → Prop where
  /-- It has the classes that every program has. -/
  | base (stamp : Stamp) : Built (base stamp)
  /-- A class has been declared. -/
  | declareClass {p p' : Program} {d : ClassDecl} {c : ClassId} (built : Built p)
    (h : p.declareClass d = .ok (c, p')) : Built p'
  /-- A method has been added. -/
  | addMethod {p p' : Program} {m m' : Method} (built : Built p)
    (h : p.addMethod m = .ok (m', p')) : Built p'

/-- Nothing is out of place in a program. -/
structure WellFormed (p : Program) : Prop where
  /-- A class is found under its number. -/
  ids : ∀ i c, p.class? i = some c → c.id = i
  /-- A method knows its class. -/
  owners : ∀ i c, p.class? i = some c → ∀ m ∈ c.methods, m.classId? = some i
  /-- A method is found under its id. -/
  registered : ∀ i c, p.class? i = some c → ∀ m ∈ c.methods, p.method? m.id = some m

theorem class?_modify (p : Program) (f : Class → Class) (i j : ClassId) :
    ({ p with classes := p.classes.modify i.index f } : Program).class? j =
      if i = j then (p.class? j).map f else p.class? j := by
  obtain ⟨i⟩ := i
  obtain ⟨j⟩ := j
  simp only [class?, Array.getElem?_modify, ClassId.mk.injEq]

theorem class?_pushClass (p : Program) (name : String) (s : Option ClassId) (i : ClassId) :
    (p.pushClass name s).class? i =
      if i.index = p.classes.size then
        some { id := ⟨p.classes.size⟩, name, superclass := s,
               instanceFields := ((s.bind p.class?).map Class.instanceFields).getD [] }
      else p.class? i := by
  simp only [pushClass, class?, Array.getElem?_push]

/-- A class was there before another one without methods was appended, unless it is that one. -/
theorem class?_of_pushClass {name : String} {s : Option ClassId} {i : ClassId} {c : Class}
    (h : (p.pushClass name s).class? i = some c) :
    c.id = i ∧ c.methods = [] ∨ p.class? i = some c := by
  rw [class?_pushClass] at h
  split at h
  · rename_i hi
    cases h
    exact .inl ⟨congrArg ClassId.mk hi.symm, rfl⟩
  · exact .inr h

/-- A class was there before what another one, or the same one, is besides was changed. -/
theorem class?_of_modify {i j : ClassId} {f : Class → Class} {c : Class}
    (hf : ∀ c, (f c).id = c.id ∧ (f c).methods = c.methods)
    (h : ({ p with classes := p.classes.modify i.index f } : Program).class? j = some c) :
    ∃ c₀, p.class? j = some c₀ ∧ c.id = c₀.id ∧ c.methods = c₀.methods := by
  rw [class?_modify] at h
  split at h
  · obtain ⟨c₀, hc₀, rfl⟩ := Option.map_eq_some_iff.mp h
    exact ⟨c₀, hc₀, hf c₀⟩
  · exact ⟨c, h, rfl, rfl⟩

/-- A class was there before a method was appended to another one, or to it. -/
theorem class?_of_attach {c i : ClassId} {m : Method} {k : Class}
    (h : (p.attach c m).2.class? i = some k) :
    ∃ k₀, p.class? i = some k₀ ∧ k.id = k₀.id ∧
      ∀ m' ∈ k.methods, m' ∈ k₀.methods ∨ i = c ∧ m' = (p.register m).1 := by
  replace h : ({ p with
      classes := p.classes.modify c.index fun k =>
        { k with methods := k.methods ++ [(p.register m).1] } } : Program).class? i = some k := h
  rw [class?_modify] at h
  split at h
  · rename_i hi
    obtain ⟨k₀, hk₀, rfl⟩ := Option.map_eq_some_iff.mp h
    refine ⟨k₀, hk₀, rfl, fun m' hm' => ?_⟩
    rcases List.mem_append.mp hm' with hm' | hm'
    · exact .inl hm'
    · exact .inr ⟨hi.symm, List.mem_singleton.mp hm'⟩
  · exact ⟨k, h, rfl, fun m' hm' => .inl hm'⟩

/-- Methods that are found stay found when another one is appended. -/
theorem method?_register {m m' : Method} (h : p.method? m'.id = some m') :
    (p.register m).2.method? m'.id = some m' := by
  obtain ⟨n, hn, hm⟩ := Option.bind_eq_some_iff.mp h
  obtain ⟨hlt, rfl⟩ := Array.getElem?_eq_some_iff.mp hm
  refine Option.bind_eq_some_iff.mpr ⟨n, hn, ?_⟩
  show (p.methods.push _)[n]? = some p.methods[n]
  exact Array.getElem?_push_lt hlt

namespace WellFormed

/-- A class without methods may be appended. -/
theorem pushClass (h : p.WellFormed) (name : String) (s : Option ClassId) :
    (p.pushClass name s).WellFormed := by
  constructor
  · intro i c hc
    rcases class?_of_pushClass hc with ⟨hid, -⟩ | hc
    · exact hid
    · exact h.ids i c hc
  · intro i c hc m hm
    rcases class?_of_pushClass hc with ⟨-, hnil⟩ | hc
    · rw [hnil] at hm
      cases hm
    · exact h.owners i c hc m hm
  · intro i c hc m hm
    rcases class?_of_pushClass hc with ⟨-, hnil⟩ | hc
    · rw [hnil] at hm
      cases hm
    · exact h.registered i c hc m hm

/-- What a class is besides its number and its methods does not matter. -/
theorem modifyClass (h : p.WellFormed) (i : ClassId) {f : Class → Class}
    (hf : ∀ c, (f c).id = c.id ∧ (f c).methods = c.methods) :
    ({ p with classes := p.classes.modify i.index f } : Program).WellFormed := by
  constructor
  · intro j c hc
    obtain ⟨c₀, hc₀, hid, -⟩ := class?_of_modify hf hc
    exact hid.trans (h.ids j c₀ hc₀)
  · intro j c hc m hm
    obtain ⟨c₀, hc₀, -, hmethods⟩ := class?_of_modify hf hc
    exact h.owners j c₀ hc₀ m (hmethods ▸ hm)
  · intro j c hc m hm
    obtain ⟨c₀, hc₀, -, hmethods⟩ := class?_of_modify hf hc
    exact h.registered j c₀ hc₀ m (hmethods ▸ hm)

/-- A method may be appended to the class that it knows. -/
theorem attach (h : p.WellFormed) {c : ClassId} {m : Method} (hm : m.classId? = some c) :
    (p.attach c m).2.WellFormed := by
  constructor
  · intro j k hk
    obtain ⟨k₀, hk₀, hid, -⟩ := class?_of_attach hk
    exact hid.trans (h.ids j k₀ hk₀)
  · intro j k hk m' hm'
    obtain ⟨k₀, hk₀, -, hmethods⟩ := class?_of_attach hk
    rcases hmethods m' hm' with hm' | ⟨rfl, rfl⟩
    · exact h.owners j k₀ hk₀ m' hm'
    · exact hm
  · intro j k hk m' hm'
    obtain ⟨k₀, hk₀, -, hmethods⟩ := class?_of_attach hk
    rcases hmethods m' hm' with hm' | ⟨-, rfl⟩
    · exact method?_register (h.registered j k₀ hk₀ m' hm')
    · show (p.methods.push _)[p.methods.size]? = some _
      rw [Array.getElem?_push_size]
      rfl

theorem withEmptyMethod (h : p.WellFormed) (c : ClassId) (name : String) :
    (p.withEmptyMethod c name).WellFormed := by
  unfold Program.withEmptyMethod
  cases hc : p.class? c with
  | none => exact h
  | some k =>
    refine h.attach ?_
    exact congrArg some (h.ids c k hc)

end WellFormed

/-- The first classes are appended one after another, some of them with a method. -/
theorem base_induction {I : Program → Prop} (hempty : ∀ stamp, I { stamp })
    (hclass : ∀ p name s, I p → I (p.pushClass name s))
    (hmethod : ∀ p c name, I p → I (p.withEmptyMethod c name)) (stamp : Stamp) :
    I (base stamp) := by
  have hfold : ∀ (s : Nat) (names : List String) {p : Program}, I p →
      I (names.foldl (withSubclass s) p) := by
    intro s names
    induction names with
    | nil => exact fun h => h
    | cons name names ih => exact fun h => ih (hclass _ name _ h)
  unfold base
  refine hfold 5 _ (hfold 6 _ ?_)
  refine hclass _ _ _ (hclass _ _ _ (hclass _ _ _ (hmethod _ _ _ (hclass _ _ _ ?_))))
  refine hmethod _ _ _ (hmethod _ _ _ (hclass _ _ _ (hclass _ _ _ (hmethod _ _ _ ?_))))
  exact hclass _ _ _ (hempty stamp)

theorem base_wellFormed (stamp : Stamp) : (base stamp).WellFormed := by
  refine base_induction (fun stamp => ?_) (fun p name s h => h.pushClass name s)
    (fun p c name h => h.withEmptyMethod c name) stamp
  exact ⟨fun i c hc => by simp [class?] at hc, fun i c hc => by simp [class?] at hc,
    fun i c hc => by simp [class?] at hc⟩

/-- Whatever a program is put together of, nothing is out of place. -/
theorem Built.wellFormed (h : p.Built) : p.WellFormed := by
  induction h with
  | base stamp => exact base_wellFormed stamp
  | @declareClass p p' d c built h ih =>
    unfold Program.declareClass at h
    split at h
    · cases h
    · split at h
      · cases h
      · rename_i s hs
        simp only [bind, Except.bind] at h
        split at h
        · cases h
        · cases h
          exact (ih.pushClass _ _).modifyClass _ fun c => ⟨rfl, rfl⟩
  | @addMethod p p' m m' built h ih =>
    unfold Program.addMethod at h
    split at h
    · cases h
    · rename_i c hc
      split at h
      · cases h
      · split at h
        · cases h
        · cases h
          exact ih.attach hc

/-- A method is defined by making it, giving it a body and adding it. -/
theorem defineMethod_eq_ok {c : ClassId} {name signature : String} {modifiers : Modifiers}
    {maxLocals maxStack : Nat} {body : Assembly → Assembly} {m : Method} :
    p.defineMethod c name signature modifiers maxLocals maxStack body = .ok (m, p') ↔
      ∃ bare, p.newMethod c name signature maxLocals maxStack modifiers = .ok bare ∧
        ∃ filled, (body p.assembly).install bare = .ok filled ∧
          p.addMethod filled = .ok (m, p') := by
  simp only [defineMethod, Effect.except_bind_eq_ok]
  refine exists_congr fun bare => and_congr_right fun _ => exists_congr fun filled =>
    and_congr_right fun _ => ?_
  cases p.addMethod filled <;> simp

theorem Built.defineMethod (h : p.Built) {c : ClassId} {name signature : String}
    {modifiers : Modifiers} {maxLocals maxStack : Nat} {body : Assembly → Assembly} {m : Method}
    (hm : p.defineMethod c name signature modifiers maxLocals maxStack body = .ok (m, p')) :
    p'.Built := by
  obtain ⟨bare, -, filled, -, hadd⟩ := defineMethod_eq_ok.mp hm
  exact h.addMethod hadd

end Program

/-! ## The demonstrations -/

namespace Demo

variable {α β : Type}

/-- Whatever the computation adds to a program with a property, the result has it. -/
def Keeps (I : Program → Prop) (x : Build α) : Prop :=
  ∀ ⦃p a p'⦄, I p → x.run p = .ok (a, p') → I p'

variable {I : Program → Prop}

theorem Keeps.bind {x : Build α} {f : α → Build β} (hx : Keeps I x) (hf : ∀ a, Keeps I (f a)) :
    Keeps I (x >>= f) := by
  intro p b p' hp h
  rw [StateT.run_bind] at h
  cases hr : x.run p with
  | error e =>
    rw [hr] at h
    cases h
  | ok r =>
    rw [hr] at h
    exact hf r.1 (hx hp hr) h

theorem keeps_get : Keeps I get := by
  intro p a p' hp h
  cases h
  exact hp

theorem keeps_lift (x : Except Fault α) : Keeps I (liftM x) := by
  intro p a p' hp h
  cases x with
  | error e => cases h
  | ok b =>
    cases h
    exact hp

/-- A computation may go on by what has been put together so far. -/
theorem Keeps.get_bind {f : Program → Build α}
    (hf : ∀ p a p', I p → (f p).run p = .ok (a, p') → I p') : Keeps I (get >>= f) :=
  fun p a p' hp h => hf p a p' hp h

theorem keeps_declare {d : ClassDecl}
    (hI : ∀ ⦃p c p'⦄, I p → p.declareClass d = .ok (c, p') → I p') : Keeps I (declare d) := by
  refine .get_bind fun p c p' hp h => ?_
  split at h
  · cases h
  · rename_i hd
    cases h
    exact hI hp hd

theorem keeps_define {c : ClassId} {name : String} {modifiers : Modifiers} {maxLocals : Nat}
    {body : Assembly → Assembly}
    (hI : ∀ ⦃p m p'⦄, I p → p.defineMethod c name "()V" modifiers maxLocals 4 body = .ok (m, p') →
      I p') : Keeps I (define c name modifiers maxLocals body) := by
  refine .get_bind fun p u p' hp h => ?_
  cases hm : p.defineMethod c name "()V" modifiers maxLocals 4 body with
  | error e =>
    rw [hm] at h
    cases h
  | ok r =>
    rw [hm] at h
    cases h
    exact hI hp hm

theorem keepsBuilt_declare (d : ClassDecl) : Keeps Program.Built (declare d) :=
  keeps_declare fun _ _ _ hp => hp.declareClass

theorem keepsBuilt_define (c : ClassId) (name : String) (modifiers : Modifiers) (maxLocals : Nat)
    (body : Assembly → Assembly) : Keeps Program.Built (define c name modifiers maxLocals body) :=
  keeps_define fun _ _ _ hp => hp.defineMethod

theorem keepsBuilt_defineSource : Keeps Program.Built defineSource := by
  refine (keepsBuilt_declare _).bind fun c => keeps_get.bind fun _ =>
    (keeps_lift _).bind fun m => .get_bind fun p u p' hp h => ?_
  split at h
  · cases h
  · rename_i hadd
    cases h
    exact hp.addMethod hadd

theorem keepsBuilt_deadlock : Keeps Program.Built deadlock :=
  (keepsBuilt_declare _).bind fun _ => .bind
    ((keepsBuilt_declare _).bind fun _ => keepsBuilt_define _ _ _ _ _) fun _ => .bind
      ((keepsBuilt_declare _).bind fun _ => keepsBuilt_define _ _ _ _ _)
        fun _ => keepsBuilt_define _ _ _ _ _

end Demo

end Interleave

import Interleave.Proofs.Layout

/-!
# Loading a program

A program is loaded by calls that declare classes and make and add methods, in any order and as many
as one likes. A call that fails leaves the program as it was; one that succeeds leaves everything
that is there in its place. `Program.Coherent` gathers what can be relied on in between: dispatch,
field access and the initialization of classes go by numbers and look nothing up twice.

The code of a method is laid out when it is set, under the id that the method has then, and the id
is replaced in all instructions when the method is registered.

Lookups by name search the lists of classes and methods. They answer what tables of names do that
are kept beside the lists: a call that succeeds enters one name at most, which was free before.
-/

namespace Interleave

namespace Method

variable {m m' : Method}

/-! ## Laying out code -/

/-- Every instruction of a method bears the id of the method, its index, and the position behind the
instructions in front of it. -/
def LaidOut (m : Method) : Prop := ∀ k i, m.instruction? k = some i →
  i.method = m.id ∧ i.index = k ∧ i.position = Assembly.positionOf m.code.toList k

theorem getElem?_positions (start : Nat) (code : List Instruction) {k : Nat}
    (hk : k < code.length) :
    (positions start code)[k]? = some (start + Assembly.positionOf code k) := by
  induction code generalizing start k with
  | nil => simp at hk
  | cons i is ih =>
    cases k with
    | zero => simp [positions, Assembly.positionOf]
    | succ k =>
      rw [positions, List.getElem?_cons_succ, ih _ (by simpa using hk)]
      simp [Assembly.positionOf, Nat.add_assoc]

/-- Where an instruction starts depends on the lengths of those in front of it alone. -/
theorem positionOf_congr {code code' : List Instruction}
    (h : code'.map Instruction.length = code.map Instruction.length) (k : Nat) :
    Assembly.positionOf code' k = Assembly.positionOf code k := by
  simp only [Assembly.positionOf, List.map_take, h]

theorem getElem?_place (id : MethodId) (code : List Instruction) (k : Nat) :
    (place id code)[k]? = code[k]?.map fun i =>
      { i with index := k, position := Assembly.positionOf code k, method := id } := by
  rw [place, List.getElem?_mapIdx, List.zip, List.getElem?_zipWith]
  cases hi : code[k]? with
  | none => rfl
  | some i =>
    obtain ⟨hk, -⟩ := List.getElem?_eq_some_iff.mp hi
    rw [getElem?_positions 0 code hk]
    simp

theorem map_length_place (id : MethodId) (code : List Instruction) :
    (place id code).map Instruction.length = code.map Instruction.length := by
  refine List.ext_getElem? fun k => ?_
  rw [List.getElem?_map, List.getElem?_map, getElem?_place, Option.map_map]
  rfl

/-- Code that is set is laid out. -/
theorem laidOut_withCode (m : Method) (code : List Instruction) : (m.withCode code).LaidOut := by
  intro k i hi
  have hplaced : (place m.id code)[k]? = some i := by
    simpa [instruction?, withCode, Method.code] using hi
  rw [getElem?_place] at hplaced
  obtain ⟨i₀, -, rfl⟩ := Option.map_eq_some_iff.mp hplaced
  refine ⟨rfl, rfl, (positionOf_congr ?_ k).symm⟩
  simpa [withCode, Method.code] using map_length_place m.id code

theorem code_withId (m : Method) (id : MethodId) :
    (m.withId id).code = m.code.map fun i => { i with method := id } := by
  unfold Method.code withId
  cases m.code? <;> simp

/-- Code stays laid out under another id. -/
theorem LaidOut.withId (h : m.LaidOut) (id : MethodId) : (m.withId id).LaidOut := by
  intro k i hi
  rw [instruction?, code_withId, Array.getElem?_map] at hi
  obtain ⟨i₀, hi₀, rfl⟩ := Option.map_eq_some_iff.mp hi
  obtain ⟨-, hindex, hposition⟩ := h k i₀ hi₀
  refine ⟨rfl, hindex, hposition.trans (positionOf_congr ?_ k).symm⟩
  rw [code_withId, Array.toList_map, List.map_map]
  rfl

theorem LaidOut.of_eq (h : m.LaidOut) (hid : m'.id = m.id) (hcode : m'.code? = m.code?) :
    m'.LaidOut := by
  intro k i hi
  have hsame : m'.code = m.code := by
    unfold Method.code
    rw [hcode]
  rw [instruction?, hsame] at hi
  rw [hid, hsame]
  exact h k i hi

/-! ## Methods that can be had -/

/-- A method as it can be had: made from a name and a signature, given code, taken from a program
that has it registered, and changed in any other respect. -/
inductive Obtained : Method → Prop where
  | new {owner : Option ClassRef} {name signature : String} {maxLocals maxStack : Nat}
    {modifiers : Modifiers} {m : Method}
    (made : Method.new owner name signature maxLocals maxStack modifiers = .ok m) : Obtained m
  | withCode {m : Method} (obtained : Obtained m) (code : List Instruction) :
    Obtained (m.withCode code)
  | registered {m : Method} (obtained : Obtained m) (id : MethodId) : Obtained (m.withId id)
  | changed {m m' : Method} (obtained : Obtained m) (id : m'.id = m.id)
    (code : m'.code? = m.code?) : Obtained m'

/-- Entries of a line table change nothing but the table. -/
theorem exists_setLines (m : Method) (f : Nat → Nat) (lines : List (Nat × Nat)) :
    ∃ ls, lines.foldl (fun m line => m.setLineAt (f line.1) line.2) m = { m with lines? := ls } := by
  induction lines generalizing m with
  | nil => exact ⟨m.lines?, rfl⟩
  | cons line lines ih =>
    obtain ⟨ls₁, hfirst⟩ : ∃ ls, m.setLineAt (f line.1) line.2 = { m with lines? := ls } := by
      unfold setLineAt
      split
      · exact ⟨_, rfl⟩
      · exact ⟨m.lines?, rfl⟩
    obtain ⟨ls, hrest⟩ := ih { m with lines? := ls₁ }
    exact ⟨ls, by rw [List.foldl_cons, hfirst, hrest]⟩

/-- A body brings code along, lines and handlers. -/
theorem exists_install {a : Assembly} (ha : a.install m = .ok m') : ∃ code lines? handlers?,
    m' = { m.withCode code with lines?, handlers? } := by
  simp only [Assembly.install, Effect.except_bind_eq_ok] at ha
  obtain ⟨handlers, -, code, -, ha⟩ := ha
  obtain ⟨ls, hlines⟩ := exists_setLines (m.withCode code).withBlankLines
    (Assembly.positionOf code) a.lines.toList
  rw [Array.foldl_toList] at hlines
  refine ⟨code, m'.lines?, m'.handlers?, ?_⟩
  rw [← Except.ok.inj ha, hlines]
  split <;> split <;> rfl

/-- A method that is given a body with its lines and handlers. -/
theorem Obtained.install (h : m.Obtained) {a : Assembly} (ha : a.install m = .ok m') :
    m'.Obtained := by
  obtain ⟨code, lines, handlers, rfl⟩ := exists_install ha
  exact (h.withCode code).changed rfl rfl

/-- Whatever method can be had, its code is laid out. -/
theorem Obtained.laidOut (h : m.Obtained) : m.LaidOut := by
  induction h with
  | new made =>
    unfold Method.new at made
    split at made
    · cases made
    · cases made
      intro k i hi
      unfold make at hi
      split at hi <;> simp [instruction?, Method.code] at hi
  | withCode _ code => exact laidOut_withCode _ code
  | registered _ id ih => exact ih.withId id
  | changed _ hid hcode ih => exact ih.of_eq hid hcode

end Method

namespace Program

variable {p p' : Program}

/-- The code of all methods is laid out. -/
def HasLaidOutCode (p : Program) : Prop :=
  ∀ (n : Nat) (m : Method), p.methods[n]? = some m → m.LaidOut

/-- A method whose code is laid out may be added. -/
theorem HasLaidOutCode.attach (h : p.HasLaidOutCode) {m : Method} (hm : m.LaidOut) (c : ClassId) :
    (p.attach c m).2.HasLaidOutCode := by
  intro n l hl
  replace hl : (p.methods.push (p.register m).1)[n]? = some l := hl
  rw [Array.getElem?_push] at hl
  split at hl
  · cases hl
    exact hm.withId _
  · exact h n l hl

theorem base_hasLaidOutCode (stamp : Stamp) : (base stamp).HasLaidOutCode := by
  refine base_induction (fun stamp n m hm => ?_) (fun p name s h => h) (fun p c name h => ?_) stamp
  · simp at hm
  · unfold withEmptyMethod
    split
    · exact h
    · exact h.attach (Method.laidOut_withCode _ _) c

/-! ## Calls -/

/-- A call by which a program is loaded. -/
inductive LoadCall where
  | declareClass (d : ClassDecl)
  | newMethod (c : ClassId) (name signature : String) (maxLocals maxStack : Nat)
    (modifiers : Modifiers)
  | defineMethod (c : ClassId) (name signature : String) (modifiers : Modifiers)
    (maxLocals maxStack : Nat) (body : Assembly → Assembly)
  | addMethod (m : Method) (obtained : m.Obtained)

/-- The program that a call gives. Making a method does not concern the program. -/
def LoadCall.apply (p : Program) : LoadCall → Except Fault Program
  | .declareClass d => ((p.declareClass d).map Prod.snd).mapError .load
  | .newMethod c name signature maxLocals maxStack modifiers =>
    (p.newMethod c name signature maxLocals maxStack modifiers).map fun _ => p
  | .defineMethod c name signature modifiers maxLocals maxStack body =>
    (p.defineMethod c name signature modifiers maxLocals maxStack body).map Prod.snd
  | .addMethod m _ => ((p.addMethod m).map Prod.snd).mapError .load

/-- The program after a call, which may have failed. -/
def after (p : Program) (call : LoadCall) : Program :=
  match call.apply p with
  | .ok p' => p'
  | .error _ => p

/-- The program after some calls. -/
def afterAll (p : Program) (calls : List LoadCall) : Program := calls.foldl after p

/-- A method that a call adds to a program: the one that it is given, or the one that it makes and
gives a body. -/
inductive LoadCall.Adds (p : Program) : LoadCall → Method → Prop where
  | defined {c : ClassId} {name signature : String} {modifiers : Modifiers} {maxLocals maxStack : Nat}
    {body : Assembly → Assembly} {bare m : Method}
    (made : p.newMethod c name signature maxLocals maxStack modifiers = .ok bare)
    (filled : (body p.assembly).install bare = .ok m) :
    Adds p (.defineMethod c name signature modifiers maxLocals maxStack body) m
  | given {m : Method} (obtained : m.Obtained) : Adds p (.addMethod m obtained) m

theorem exists_new_of_newMethod {c : ClassId} {name signature : String} {maxLocals maxStack : Nat}
    {modifiers : Modifiers} {m : Method}
    (h : p.newMethod c name signature maxLocals maxStack modifiers = .ok m) :
    ∃ k, p.class? c = some k ∧
      Method.new (some k.ref) name signature maxLocals maxStack modifiers = .ok m := by
  unfold newMethod at h
  split at h
  · cases h
  · exact ⟨_, ‹_›, h⟩

theorem LoadCall.Adds.obtained {call : LoadCall} {m : Method} (h : call.Adds p m) : m.Obtained := by
  cases h with
  | defined made filled =>
    obtain ⟨k, -, hnew⟩ := exists_new_of_newMethod made
    exact (Method.Obtained.new hnew).install filled
  | given obtained => exact obtained

/-- A call that succeeds declares a class, adds a method, or leaves the program as it is. -/
theorem LoadCall.apply_eq_ok {call : LoadCall} (h : call.apply p = .ok p') :
    (∃ d c, p.declareClass d = .ok (c, p')) ∨
      (∃ m m', call.Adds p m ∧ p.addMethod m = .ok (m', p')) ∨ p' = p := by
  cases call with
  | declareClass d =>
    cases hd : p.declareClass d with
    | error e => simp [apply, hd, Except.map, Except.mapError] at h
    | ok r =>
      simp only [apply, hd, Except.map, Except.mapError, Except.ok.injEq] at h
      exact .inl ⟨d, r.1, h ▸ hd⟩
  | newMethod c name signature maxLocals maxStack modifiers =>
    cases hm : p.newMethod c name signature maxLocals maxStack modifiers with
    | error e => simp [apply, hm, Except.map] at h
    | ok m =>
      simp only [apply, hm, Except.map, Except.ok.injEq] at h
      exact .inr (.inr h.symm)
  | defineMethod c name signature modifiers maxLocals maxStack body =>
    cases hm : p.defineMethod c name signature modifiers maxLocals maxStack body with
    | error e => simp [apply, hm, Except.map] at h
    | ok r =>
      simp only [apply, hm, Except.map, Except.ok.injEq] at h
      obtain ⟨bare, hbare, filled, hfilled, hadd⟩ := defineMethod_eq_ok.mp hm
      exact .inr (.inl ⟨filled, r.1, .defined hbare hfilled, h ▸ hadd⟩)
  | addMethod m obtained =>
    cases hm : p.addMethod m with
    | error e => simp [apply, hm, Except.map, Except.mapError] at h
    | ok r =>
      simp only [apply, hm, Except.map, Except.mapError, Except.ok.injEq] at h
      exact .inr (.inl ⟨m, r.1, .given obtained, h ▸ hm⟩)

/-- Whatever a call that succeeds declares or adds keeps, the call keeps whether it succeeds or
not. -/
theorem after_induction {I : Program → Prop} {call : LoadCall} (h : I p)
    (hdeclare : ∀ d c p', p.declareClass d = .ok (c, p') → I p')
    (hadd : ∀ m m' p', call.Adds p m → p.addMethod m = .ok (m', p') → I p') : I (p.after call) := by
  unfold after
  split
  · rename_i p' hcall
    rcases LoadCall.apply_eq_ok hcall with ⟨d, c, hd⟩ | ⟨m, m', hadds, hm⟩ | rfl
    · exact hdeclare d c p' hd
    · exact hadd m m' p' hadds hm
    · exact h
  · exact h

/-- What each call keeps all of them keep. -/
theorem afterAll_induction {I : Program → Prop} {calls : List LoadCall}
    (hcalls : ∀ call ∈ calls, ∀ p : Program, I p → I (p.after call)) (h : I p) :
    I (p.afterAll calls) := by
  induction calls generalizing p with
  | nil => exact h
  | cons call calls ih =>
    obtain ⟨hcall, hrest⟩ := List.forall_mem_cons.mp hcalls
    exact ih hrest (hcall p h)

/-! ## What calls keep -/

/-- Everything that is in the first program is in the same place in the second one; classes have
more methods at most. -/
structure Extends (p p' : Program) : Prop where
  classes : ∀ i c, p.class? i = some c →
    ∃ added, p'.class? i = some { c with methods := c.methods ++ added }
  methods : ∀ (n : Nat) (m : Method), p.methods[n]? = some m → p'.methods[n]? = some m
  stamp : p'.stamp = p.stamp

theorem Extends.refl (p : Program) : p.Extends p where
  classes _ c hc := ⟨[], by rw [List.append_nil]; exact hc⟩
  methods _ _ hm := hm
  stamp := rfl

theorem extends_declareClass {d : ClassDecl} {c : ClassId} (h : p.declareClass d = .ok (c, p')) :
    p.Extends p' := by
  obtain ⟨-, s, fields, -, -, -, rfl⟩ := declareClass_eq_ok.mp h
  refine ⟨fun i k hk => ⟨[], ?_⟩, fun n m hm => hm, rfl⟩
  have hlt : i.index < p.classes.size := (Array.getElem?_eq_some_iff.mp hk).1
  rw [class?_push, if_neg (Nat.ne_of_lt hlt), List.append_nil]
  exact hk

theorem extends_addMethod {m m' : Method} (h : p.addMethod m = .ok (m', p')) : p.Extends p' := by
  obtain ⟨c, k, -, -, -, hattach⟩ := addMethod_eq_ok.mp h
  obtain rfl : (p.attach c m).2 = p' := congrArg Prod.snd hattach
  refine ⟨fun i l hl => ?_, fun n l hl => ?_, rfl⟩
  · rw [class?_attach, hl]
    split
    · exact ⟨_, rfl⟩
    · exact ⟨[], by rw [List.append_nil]⟩
  · show (p.methods.push _)[n]? = some l
    obtain ⟨hlt, rfl⟩ := Array.getElem?_eq_some_iff.mp hl
    exact Array.getElem?_push_lt hlt

/-- What is there stays in its place, whether a call succeeds or fails. -/
theorem extends_after (p : Program) (call : LoadCall) : p.Extends (p.after call) :=
  after_induction (.refl p) (fun _ _ _ hd => extends_declareClass hd)
    fun _ _ _ _ hm => extends_addMethod hm

/-- A class or a method is entered into tables of names under a name that is free, or nothing is. -/
inductive Names.Enters : Names → Names → Prop where
  | addClass {t : Names} {name : String} (c : ClassId) (free : t.class? name = none) :
    Enters t (t.addClass name c)
  | addMethod {t : Names} {c : ClassId} {m : Method} (free : t.method? c m.uniqueName = none) :
    Enters t (t.addMethod c m)
  | nothing (t : Names) : Enters t t

/-- A call enters into the tables of names what it appends. -/
theorem LoadCall.enters {call : LoadCall} (h : call.apply p = .ok p') : p.names.Enters p'.names := by
  rcases LoadCall.apply_eq_ok h with ⟨d, c, hd⟩ | ⟨m, m', -, hm⟩ | rfl
  · obtain ⟨hname, s, fields, -, -, -, rfl⟩ := declareClass_eq_ok.mp hd
    rw [names_push (k := p.declared d s fields) hname rfl]
    exact .addClass _ hname
  · obtain ⟨c, k, -, hk, hfresh, hattach⟩ := addMethod_eq_ok.mp hm
    obtain rfl : (p.attach c m).2 = p' := congrArg Prod.snd hattach
    rw [names_attach hk hfresh]
    refine .addMethod ?_
    show (p.class? c).bind (·.method? m.uniqueName) = none
    rw [hk]
    exact hfresh
  · exact .nothing _

/-- A program that has been put together, with all its code laid out. -/
structure IsLoaded (p : Program) : Prop where
  built : p.Built
  code : p.HasLaidOutCode

theorem IsLoaded.after (h : p.IsLoaded) (call : LoadCall) : (p.after call).IsLoaded := by
  refine after_induction h (fun d c p' hd => ?_) fun m m' p' hadds hm => ?_
  · obtain ⟨-, s, fields, -, -, -, rfl⟩ := declareClass_eq_ok.mp hd
    exact ⟨h.built.declareClass hd, h.code⟩
  · obtain ⟨c, k, -, -, -, hattach⟩ := addMethod_eq_ok.mp hm
    obtain rfl : (p.attach c m).2 = p' := congrArg Prod.snd hattach
    exact ⟨h.built.addMethod hm, h.code.attach hadds.obtained.laidOut c⟩

theorem isLoaded_afterAll (stamp : Stamp) (calls : List LoadCall) :
    ((base stamp).afterAll calls).IsLoaded :=
  afterAll_induction (fun call _ _ h => h.after call) ⟨.base stamp, base_hasLaidOutCode stamp⟩

/-! ## What can be relied on -/

/-- The tables of a program fit together. -/
structure Coherent (p : Program) : Prop where
  /-- A class bears the number of its place. -/
  ids : ∀ i c, p.class? i = some c → c.id = i
  /-- Different classes have different names. -/
  names : ∀ i j c d, p.class? i = some c → p.class? j = some d → c.name = d.name → i = j
  /-- A name stands for the class that bears it. -/
  named : ∀ name i, p.classId? name = some i ↔ ∃ c, p.class? i = some c ∧ c.name = name
  /-- One class alone has no superclass. -/
  root : ∀ i c, p.class? i = some c → (c.superclass = none ↔ c.name = Builtin.object)
  /-- A superclass is declared earlier. -/
  above : ∀ i c s, p.class? i = some c → c.superclass = some s →
    s.index < i.index ∧ ∃ d, p.class? s = some d
  /-- The walk up from a class ends in the class above all, and passes no class twice. -/
  chain : ∀ i c, p.class? i = some c → p.Ascends i (p.chain i) ∧ (p.chain i).Nodup ∧
    (p.chain i).getLast? = p.classId? Builtin.object
  order : IsPartialOrder ClassId fun sub sup => p.isSubclass sub sup = true
  /-- A class has the fields of the classes above it in front. -/
  inherited : ∀ i j c d, p.isSubclass i j = true → p.class? i = some c → p.class? j = some d →
    d.instanceFields <+: c.instanceFields
  /-- The slot of a field is its position. -/
  slots : ∀ i c, p.class? i = some c → Numbered c.instanceFields ∧ Numbered c.staticFields
  /-- A slot that was found for a class denotes the same field in every class below. -/
  field : ∀ i j c name f, p.isSubclass i j = true → p.class? i = some c →
    p.instanceField? j name = some f → c.instanceFields[f.slot]? = some f
  /-- The id of a method is its place in the table. -/
  numbers : ∀ (n : Nat) (m : Method), p.methods[n]? = some m → m.id = .registered n
  /-- The methods of a class are registered methods that know the class. -/
  methods : ∀ i c, p.class? i = some c → ∀ m ∈ c.methods,
    m.classId? = some i ∧ p.method? m.id = some m
  /-- They are found under their unique names. -/
  tables : ∀ i c, p.class? i = some c → ∀ name m,
    c.method? name = some m ↔ m ∈ c.methods ∧ m.uniqueName = name
  /-- The instructions of a registered method bear its id, their indices and their positions. -/
  code : ∀ (n : Nat) (m : Method), p.methods[n]? = some m → m.LaidOut

theorem IsLoaded.coherent (h : p.IsLoaded) : p.Coherent := by
  have hw : p.WellFormed := h.built.wellFormed
  have ha : p.Arranged := h.built.arranged
  have hmem : ∀ {i j}, p.isSubclass i j = true → j ∈ p.chain i := fun hij => of_decide_eq_true hij
  exact {
    ids := hw.ids
    names := ha.names
    named := fun _ _ => ha.classId?_iff
    root := fun _ _ hc => ha.superclass_eq_none_iff hc
    above := fun _ _ _ hc hs => ha.exists_of_superclass hc hs
    chain := fun i c hc => ⟨ha.superclassesFirst.ascends i, p.nodup_chain i, ha.getLast?_chain hc⟩
    order := p.isPartialOrder_isSubclass
    inherited := fun _ _ _ _ hij hc hd => ha.instanceFields_prefix (hmem hij) hc hd
    slots := fun i c hc => ⟨ha.instanceSlots i c hc, ha.staticSlots i c hc⟩
    field := fun _ _ _ _ _ hij hc hf => ha.getElem?_slot (hmem hij) hc hf
    numbers := ha.numbers
    methods := fun i c hc m hm => ⟨hw.owners i c hc m hm, hw.registered i c hc m hm⟩
    tables := fun _ _ hc _ _ => ha.method?_iff hc
    code := h.code }

/-- **Loading keeps a program coherent.** Whatever classes are declared and whatever methods are
made and added, in whatever order and whether or not the calls succeed, the tables of the program
fit together. A further call that fails leaves the program as it is, and one that succeeds leaves
everything in its place and enters at most one name, which was free. -/
theorem afterAll_coherent (stamp : Stamp) (calls : List LoadCall) :
    ((base stamp).afterAll calls).Coherent ∧
      (∀ (call : LoadCall) (e : Fault), call.apply ((base stamp).afterAll calls) = .error e →
        (base stamp).afterAll (calls ++ [call]) = (base stamp).afterAll calls) ∧
      ∀ (call : LoadCall) (p : Program), call.apply ((base stamp).afterAll calls) = .ok p →
        (base stamp).afterAll (calls ++ [call]) = p ∧ ((base stamp).afterAll calls).Extends p ∧
          ((base stamp).afterAll calls).names.Enters p.names := by
  have hlast : ∀ call, (base stamp).afterAll (calls ++ [call]) =
      ((base stamp).afterAll calls).after call := fun call => by
    simp only [afterAll, List.foldl_append, List.foldl_cons, List.foldl_nil]
  refine ⟨(isLoaded_afterAll stamp calls).coherent, fun call e hcall => ?_, fun call p hcall => ?_⟩
  · rw [hlast, after, hcall]
  · have hextends := extends_after ((base stamp).afterAll calls) call
    rw [after, hcall] at hextends
    exact ⟨by rw [hlast, after, hcall], hextends, LoadCall.enters hcall⟩

/-- A class with a field `x`, and a class below it with another one. -/
def pointCalls : List LoadCall :=
  [.declareClass { name := "Point", fields := [{ name := "x", descriptor := "I" }] },
    .declareClass
      { name := "Pixel", superclass := "Point", fields := [{ name := "y", descriptor := "J" }] }]

/-- The class of points cannot be declared again. The attempt changes nothing, and the slot of `x`
is the same in a pixel as in a point. -/
theorem afterAll_coherent_point : ∃ p e point pixel k f, (base .plain).afterAll pointCalls = p ∧
    (LoadCall.declareClass { name := "Point" }).apply p = .error e ∧
    (base .plain).afterAll (pointCalls ++ [.declareClass { name := "Point" }]) = p ∧
    p.classId? "Point" = some point ∧ p.classId? "Pixel" = some pixel ∧
    p.isSubclass pixel point = true ∧ p.class? pixel = some k ∧
    p.instanceField? point "x" = some f ∧ k.instanceFields[f.slot]? = some f := by
  obtain ⟨hcoherent, hfails, -⟩ := afterAll_coherent .plain pointCalls
  generalize hp : (base .plain).afterAll pointCalls = p at hcoherent hfails
  have hpoint : p.classId? "Point" = some ⟨16⟩ := by
    rw [← hp]
    decide +kernel
  have hpixel : p.classId? "Pixel" = some ⟨17⟩ := by
    rw [← hp]
    decide +kernel
  have hbelow : p.isSubclass ⟨17⟩ ⟨16⟩ = true := by
    rw [← hp]
    decide +kernel
  obtain ⟨f, hf⟩ : ∃ f, p.instanceField? ⟨16⟩ "x" = some f := by
    refine Option.isSome_iff_exists.mp ?_
    rw [← hp]
    decide +kernel
  obtain ⟨k, hk, -⟩ := (hcoherent.named "Pixel" ⟨17⟩).mp hpixel
  cases hagain : (LoadCall.declareClass { name := "Point" }).apply p with
  | ok p' =>
    have hnone : ((LoadCall.declareClass { name := "Point" }).apply p).toOption.isNone = true := by
      rw [← hp]
      decide +kernel
    rw [hagain] at hnone
    cases hnone
  | error e =>
    exact ⟨p, e, _, _, k, f, rfl, hagain, hfails _ e hagain, hpoint, hpixel, hbelow, hk, hf,
      hcoherent.field _ _ k "x" f hbelow hk hf⟩

end Program

end Interleave

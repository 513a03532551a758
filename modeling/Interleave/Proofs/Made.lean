import Interleave.Proofs.Loading

/-!
# Methods that were made

A method is made from a name and a signature. What can be set of it later touches neither of them,
nor what was told from them when the method was made: whether it initializes its class, and then
that it is synchronized.

`Program.Made` are the programs that are put together of such methods. Loading a program gives one,
as long as no call adds a method that was come by in another way.
-/

namespace Interleave

namespace Method

/-- What holds of a method that was made from a name and a signature, whatever was set of it
since. -/
structure IsMade (m : Method) : Prop where
  /-- A signature begins with a parenthesis. -/
  signature : m.signature.toList.head? = some '('
  /-- The name of a method says whether it initializes its class. -/
  classInit : m.attributes.isClassInit = (m.owner.isSome && m.name == "<clinit>")
  /-- Initializers of classes are synchronized. -/
  synchronized : m.attributes.isClassInit = true → m.isSynchronized = true

variable {m m' : Method}

theorem isMade_of_new {owner : Option ClassRef} {name signature : String}
    {maxLocals maxStack : Nat} {modifiers : Modifiers}
    (h : Method.new owner name signature maxLocals maxStack modifiers = .ok m) : m.IsMade := by
  unfold Method.new at h
  split at h
  · cases h
  · rename_i s hs
    cases h
    have hsignature : some '(' = signature.toList.head? := by
      unfold Signature.parse at hs
      split at hs
      · rename_i cs hcs
        rw [hcs]
        rfl
      · cases hs
    cases owner with
    | none => exact ⟨hsignature.symm, rfl, nofun⟩
    | some c =>
      refine ⟨hsignature.symm, rfl, fun hinit => ?_⟩
      replace hinit : (name == "<clinit>") = true := hinit
      show Modifiers.isSynchronized (modifiers ∪ (if (name == "<clinit>") = true then
        Modifiers.synchronized else .empty) ∪ _) = true
      rw [if_pos hinit]
      have hflag : ∀ a b : UInt32, (a ||| 0x0020 ||| b) &&& 0x0020 = 0x0020 := by
        intro a b
        rw [← UInt32.toBitVec_inj]
        ext i hi
        simp +contextual
      exact beq_iff_eq.mpr (hflag _ _)

/-- What is set of a method later leaves it one that was made. -/
theorem IsMade.of_eq (h : m.IsMade) (hname : m'.name = m.name)
    (hsignature : m'.signature = m.signature) (howner : m'.owner = m.owner)
    (hmodifiers : m'.modifiers = m.modifiers)
    (hinit : m'.attributes.isClassInit = m.attributes.isClassInit) : m'.IsMade where
  signature := hsignature ▸ h.signature
  classInit := by
    rw [hinit, howner, hname]
    exact h.classInit
  synchronized := by
    unfold isSynchronized
    rw [hinit, hmodifiers]
    exact h.synchronized

theorem IsMade.withId (h : m.IsMade) (id : MethodId) : (m.withId id).IsMade :=
  h.of_eq rfl rfl rfl rfl rfl

/-- A method that is given a body. -/
theorem IsMade.install (h : m.IsMade) {a : Assembly} (ha : a.install m = .ok m') : m'.IsMade := by
  obtain ⟨code, lines, handlers, rfl⟩ := exists_install ha
  exact h.of_eq rfl rfl rfl rfl rfl

end Method

namespace Program

variable {p p' : Program} {m m' : Method}

/-- The methods of a program were made from names and signatures. -/
def HasMadeMethods (p : Program) : Prop := ∀ m, p.Declares m → m.IsMade

namespace HasMadeMethods

theorem pushClass (h : p.HasMadeMethods) (name : String) (s : Option ClassId) :
    (p.pushClass name s).HasMadeMethods := by
  rintro m ⟨i, k, hk, hm⟩
  rcases class?_of_pushClass hk with ⟨-, hnil⟩ | hbefore
  · rw [hnil] at hm
    cases hm
  · exact h m ⟨i, k, hbefore, hm⟩

/-- A method that was made may be appended. -/
theorem attach (h : p.HasMadeMethods) (hm : m.IsMade) (c : ClassId) :
    (p.attach c m).2.HasMadeMethods := by
  rintro n ⟨i, k, hk, hn⟩
  obtain ⟨k₀, hk₀, -, hmethods⟩ := class?_of_attach hk
  rcases hmethods n hn with hn | ⟨-, rfl⟩
  · exact h n ⟨i, k₀, hk₀, hn⟩
  · exact hm.withId _

theorem withEmptyMethod (h : p.HasMadeMethods) (c : ClassId) (name : String) :
    (p.withEmptyMethod c name).HasMadeMethods := by
  unfold Program.withEmptyMethod
  cases hc : p.class? c with
  | none => exact h
  | some k =>
    have hnew : Method.new (some k.ref) name "()V" 1 0 .publicAccess =
        .ok (Method.make (some k.ref) name "()V" 1 0 .publicAccess) := by
      unfold Method.new
      rw [show Signature.parse "()V" = .ok ⟨[], "V"⟩ from by decide +kernel]
    have hfilled : ((Method.make (some k.ref) name "()V" 1 0 .publicAccess).withCode
        [{ op := .voidReturn }]).IsMade := (Method.isMade_of_new hnew).of_eq rfl rfl rfl rfl rfl
    exact h.attach hfilled c

theorem base (stamp : Stamp) : (Program.base stamp).HasMadeMethods := by
  refine base_induction (fun stamp => ?_) (fun p name s h => h.pushClass name s)
    (fun p c name h => h.withEmptyMethod c name) stamp
  rintro m ⟨i, c, hc, -⟩
  simp [class?] at hc

theorem declareClass (h : p.HasMadeMethods) {d : ClassDecl} {c : ClassId}
    (hd : p.declareClass d = .ok (c, p')) : p'.HasMadeMethods := by
  obtain ⟨-, s, fields, -, -, -, rfl⟩ := declareClass_eq_ok.mp hd
  rintro m ⟨i, k, hk, hm⟩
  rcases class?_of_push hk with ⟨-, rfl⟩ | ⟨-, hbefore⟩
  · cases hm
  · exact h m ⟨i, k, hbefore, hm⟩

theorem addMethod (h : p.HasMadeMethods) (hm : m.IsMade)
    (hadd : p.addMethod m = .ok (m', p')) : p'.HasMadeMethods := by
  obtain ⟨c, k, -, -, -, hattach⟩ := addMethod_eq_ok.mp hadd
  obtain rfl : (p.attach c m).2 = p' := congrArg Prod.snd hattach
  exact h.attach hm c

end HasMadeMethods

/-! ## Programs that are put together of made methods -/

/-- A program that was put together by declaring classes and adding methods that were made. -/
inductive Made : Program → Prop where
  | base (stamp : Stamp) : Made (base stamp)
  | declareClass {p p' : Program} {d : ClassDecl} {c : ClassId} (made : Made p)
    (h : p.declareClass d = .ok (c, p')) : Made p'
  | addMethod {p p' : Program} {m m' : Method} (made : Made p) (hm : m.IsMade)
    (h : p.addMethod m = .ok (m', p')) : Made p'

namespace Made

theorem built (h : p.Made) : p.Built := by
  induction h with
  | base stamp => exact .base stamp
  | declareClass _ h ih => exact ih.declareClass h
  | addMethod _ _ h ih => exact ih.addMethod h

theorem hasMadeMethods (h : p.Made) : p.HasMadeMethods := by
  induction h with
  | base stamp => exact .base stamp
  | declareClass _ h ih => exact ih.declareClass h
  | addMethod _ hm h ih => exact ih.addMethod hm h

end Made

/-- Methods that are there to the end were made if those of the end were. -/
theorem HasMadeMethods.of_extends (h : p'.HasMadeMethods) (he : p.Extends p') :
    p.HasMadeMethods := by
  rintro m ⟨i, k, hk, hm⟩
  obtain ⟨added, hadded⟩ := he.classes i k hk
  exact h m ⟨i, _, hadded, List.mem_append_left _ hm⟩

/-- These are the programs that were put together in any way and whose methods were made. -/
theorem made_iff : p.Made ↔ p.Built ∧ p.HasMadeMethods := by
  constructor
  · exact fun h => ⟨h.built, h.hasMadeMethods⟩
  · rintro ⟨hbuilt, hmade⟩
    induction hbuilt with
    | base stamp => exact .base stamp
    | declareClass _ h ih => exact (ih (hmade.of_extends (extends_declareClass h))).declareClass h
    | @addMethod p p' m m' _ h ih =>
      refine (ih (hmade.of_extends (extends_addMethod h))).addMethod ?_ h
      obtain ⟨c, k, -, hk, -, hattach⟩ := addMethod_eq_ok.mp h
      obtain rfl : (p.attach c m).2 = p' := congrArg Prod.snd hattach
      -- what was added is there under the id that it took
      have hdeclared : (p.attach c m).2.Declares (p.register m).1 := by
        refine ⟨c, { k with methods := k.methods ++ [(p.register m).1] }, ?_, by simp⟩
        rw [class?_attach, if_pos rfl, hk]
        rfl
      exact (hmade _ hdeclared).of_eq rfl rfl rfl rfl rfl

/-! ## Loading -/

theorem isMade_of_newMethod {c : ClassId} {name signature : String} {maxLocals maxStack : Nat}
    {modifiers : Modifiers}
    (h : p.newMethod c name signature maxLocals maxStack modifiers = .ok m) : m.IsMade := by
  obtain ⟨k, -, hnew⟩ := exists_new_of_newMethod h
  exact Method.isMade_of_new hnew

theorem Made.defineMethod (h : p.Made) {c : ClassId} {name signature : String}
    {modifiers : Modifiers} {maxLocals maxStack : Nat} {body : Assembly → Assembly}
    (hm : p.defineMethod c name signature modifiers maxLocals maxStack body = .ok (m, p')) :
    p'.Made := by
  obtain ⟨bare, hbare, filled, hfilled, hadd⟩ := defineMethod_eq_ok.mp hm
  exact h.addMethod ((isMade_of_newMethod hbare).install hfilled) hadd

/-- If a call adds a method that it is given, the method was made. -/
def LoadCall.GivesMade : LoadCall → Prop
  | .addMethod m _ => m.IsMade
  | _ => True

theorem LoadCall.Adds.isMade {call : LoadCall} (h : call.Adds p m) (hcall : call.GivesMade) :
    m.IsMade := by
  cases h with
  | defined made filled => exact (isMade_of_newMethod made).install filled
  | given obtained => exact hcall

theorem Made.after (h : p.Made) {call : LoadCall} (hcall : call.GivesMade) :
    (p.after call).Made :=
  after_induction h (fun _ _ _ hd => h.declareClass hd)
    fun _ _ _ hadds hm => h.addMethod (hadds.isMade hcall) hm

/-- Loading a program puts it together of methods that were made. -/
theorem made_afterAll (stamp : Stamp) {calls : List LoadCall}
    (hcalls : ∀ call ∈ calls, call.GivesMade) : ((Program.base stamp).afterAll calls).Made :=
  afterAll_induction (fun call hcall _ h => h.after (hcalls call hcall)) (.base stamp)

end Program

namespace Demo

theorem keepsMade_declare (d : ClassDecl) : Keeps Program.Made (declare d) :=
  keeps_declare fun _ _ _ hp => hp.declareClass

theorem keepsMade_define (c : ClassId) (name : String) (modifiers : Modifiers) (maxLocals : Nat)
    (body : Assembly → Assembly) : Keeps Program.Made (define c name modifiers maxLocals body) :=
  keeps_define fun _ _ _ hp => hp.defineMethod

end Demo

end Interleave

import Interleave.Proofs.Made
import Interleave.Proofs.Waiting

/-!
# Initializers of classes

A method is the initializer of a class by its name, which makes it synchronized when the method is
made. So in a program whose methods were made in this way, the initializer that a class declares is
known by the name and the signature, and no other method initializes a class.

A program calls its initializers by no instruction of its own if none of its calls names one. Then
no call in a frame does: what stubs call is the body of a thread or the main method.
-/

namespace Interleave

namespace Method

variable {m : Method}

/-- The names of a method and of its initializer agree only if they are the same. -/
theorem IsMade.name_eq (h : m.IsMade) (hname : m.uniqueName = "<clinit>()V") :
    m.name = "<clinit>" := by
  obtain ⟨rest, hrest⟩ : ∃ rest, m.signature.toList = '(' :: rest := by
    have hhead := h.signature
    cases hs : m.signature.toList with
    | nil => simp [hs] at hhead
    | cons c rest =>
      rw [hs] at hhead
      exact ⟨rest, by rw [Option.some.inj hhead]⟩
  have hlist : m.name.toList ++ '(' :: rest = "<clinit>()V".toList := by
    rw [← hrest, ← String.toList_append]
    exact congrArg String.toList hname
  -- the signature begins at the only opening parenthesis
  have hnone : '(' ∉ m.name.toList := by
    have hcount := congrArg (List.count '(') hlist
    rw [List.count_append, List.count_cons_self,
      show List.count '(' "<clinit>()V".toList = 1 from by decide] at hcount
    exact List.count_eq_zero.mp (by omega)
  have hfront := congrArg (List.takeWhile (· != '(')) hlist
  rw [List.takeWhile_append_of_pos (by
      intro c hc
      simp only [bne_iff_ne, ne_eq]
      rintro rfl
      exact hnone hc), List.takeWhile_cons_of_neg (by decide), List.append_nil] at hfront
  refine String.toList_inj.mp (hfront.trans ?_)
  decide

end Method

namespace Program

variable {p p' : Program} {m : Method} {i : Instruction}

/-- Does an instruction name the initializer of a class? -/
def namesInitializer (p : Program) (i : Instruction) : Bool :=
  match i.methodRef with
  | .ok r => p.classes.toList.any fun c => c.methods.any fun m =>
      m.name == "<clinit>" && m.uniqueName == r.uniqueName
  | .error _ => false

/-- No call in a method names the initializer of a class. -/
def SparesInitializers (p : Program) (m : Method) : Prop :=
  ∀ i ∈ m.code.toList, i.op.isInvoke = true → p.namesInitializer i = false

instance (p : Program) (m : Method) : Decidable (p.SparesInitializers m) :=
  inferInstanceAs (Decidable (∀ i ∈ m.code.toList, _))

/-- No call of a program names the initializer of a class. -/
def CallsNoInitializers (p : Program) : Prop := ∀ m, p.Declares m → p.SparesInitializers m

instance (p : Program) : Decidable p.CallsNoInitializers := decidable_of_iff' _ forall_declares_iff

/-! ## Initializers -/

/-- A method of a program initializes its class exactly if its name says so. -/
theorem isClassInit_iff (hw : p.WellFormed) (hmade : p.HasMadeMethods) (hm : p.Declares m) :
    m.attributes.isClassInit = true ↔ m.name = "<clinit>" := by
  have howner : m.owner.isSome = true := by
    obtain ⟨i, c, hc, hmem⟩ := hm
    have hclass := hw.owners i c hc m hmem
    unfold Method.classId? at hclass
    obtain ⟨owner, ho, -⟩ := Option.map_eq_some_iff.mp hclass
    rw [ho]
    rfl
  rw [(hmade m hm).classInit, howner]
  simp

/-- The initializer that a class declares initializes the class, and holds its monitor while it
runs. -/
theorem classInit?_eq_some (hw : p.WellFormed) (hmade : p.HasMadeMethods)
    (hstatic : p.HasStaticInitializers) {i : ClassId} {c : Class} (hc : p.class? i = some c)
    (hm : c.classInit? = some m) : m.isClassInitOf i = true ∧ m.isSynchronized = true ∧
      m.isStatic = true ∧ m.classId? = some i := by
  obtain ⟨hdeclares, hname⟩ := method?_eq_some hc hm
  have hinit : m.attributes.isClassInit = true :=
    (isClassInit_iff hw hmade hdeclares).mpr ((hmade m hdeclares).name_eq hname)
  have hclass : m.classId? = some i := hw.owners i c hc m (List.mem_of_find?_eq_some hm)
  refine ⟨?_, (hmade m hdeclares).synchronized hinit, hstatic m hdeclares hname, hclass⟩
  simp [Method.isClassInitOf, hinit, hclass]

/-- A call that lands in the initializer of a class names it. -/
theorem namesInitializer_of_callTarget {k : Kernel} {f : Frame} (hname : m.name = "<clinit>")
    (h : p.callTarget k f i = .ok (some m)) : p.namesInitializer i = true := by
  obtain ⟨r, hr, ⟨j, c, hc, hmem⟩, hunique⟩ := callTarget_eq_some h
  unfold namesInitializer
  rw [hr]
  simp only [List.any_eq_true, Bool.and_eq_true, beq_iff_eq]
  exact ⟨c, Array.mem_toList_iff.mpr (Array.mem_of_getElem? hc), m, hmem, hname, hunique⟩

/-- A stub names no initializer, as long as the method that it calls is not named like one. -/
theorem sparesInitializers_of_stub {body : Method} {name : String} {stamp : Stamp}
    (h : body.directCallStub name stamp = .ok m)
    (hbody : (body.isStatic && body.attributes.isClassInit) = true ∨
      body.uniqueName.toList.head? ≠ some '<') : p.SparesInitializers m := by
  intro i hi hop
  obtain ⟨hplain, r, hr, hname⟩ := Method.methodRef_of_directCallStub h hi hop
  rcases hbody with hinit | hhead
  · rw [hinit] at hplain
    cases hplain
  · rw [Bool.eq_false_iff]
    unfold namesInitializer
    rw [hr]
    simp only [ne_eq, List.any_eq_true, Bool.and_eq_true, beq_iff_eq]
    rintro ⟨c, -, m', -, hclinit, hunique⟩
    rw [← hname, ← hunique] at hhead
    unfold Method.uniqueName at hhead
    rw [hclinit, String.toList_append] at hhead
    exact hhead rfl

/-- No method that a thread comes to run names an initializer. -/
theorem Enters.sparesInitializers (hw : p.WellFormed) (hmade : p.HasMadeMethods)
    (hstatic : p.HasStaticInitializers) (hcalls : p.CallsNoInitializers) (h : p.Enters m) :
    p.SparesInitializers m := by
  cases h with
  | declared h => exact hcalls m h
  | initializer found init made =>
    obtain ⟨hinit, -, hs, -⟩ := classInit?_eq_some hw hmade hstatic found init
    refine sparesInitializers_of_stub made (.inl ?_)
    simp only [Method.isClassInitOf, Bool.and_eq_true] at hinit
    rw [hs, hinit.1]
    rfl

end Program

namespace Kernel

variable {p : Program} {k : Kernel} {m : Method}

/-- Nor does the stub by which a thread begins. -/
theorem RunsBody.sparesInitializers {r : ObjRef} (h : k.RunsBody p r m) :
    p.SparesInitializers m := by
  obtain ⟨o, body, -, hbody, made⟩ := h
  refine Program.sparesInitializers_of_stub made (.inr ?_)
  rw [(Program.findMethod?_eq_some hbody).2]
  decide

theorem Started.sparesInitializers (h : Started p k) : ∀ (u : ThreadId) th,
    k.threads[u.index]? = some th → ∀ f ∈ th.frames, p.SparesInitializers f.method := by
  cases h with
  | @main name c body stub f r h found method made same receiver extension =>
    have hspares : p.SparesInitializers stub := by
      obtain ⟨j, hj⟩ := p.class?_of_resolveClass found
      refine Program.sparesInitializers_of_stub made (.inr ?_)
      unfold Machine.mainMethod at method
      cases hlong : c.method? "main([Ljava/lang/String;)V" with
      | some m =>
        simp only [hlong, Option.orElse_some, Except.ok.injEq] at method
        rw [← method, (Program.method?_eq_some hj hlong).2]
        decide
      | none =>
        cases hshort : c.method? "main()V" with
        | some m =>
          simp only [hlong, hshort, Option.orElse_none, Except.ok.injEq] at method
          rw [← method, (Program.method?_eq_some hj hshort).2]
          decide
        | none => simp [hlong, hshort] at method
    rintro ⟨u⟩ th hth g hg
    replace hth : #[({ id := ⟨0⟩, object := r, frames := [f] } : Thread)][u]? = some th := hth
    cases u with
    | zero =>
      cases hth
      rw [List.mem_singleton.mp hg, same]
      exact hspares
    | succ u => simp at hth

end Kernel

end Interleave

import Interleave.Proofs.Programs
import Interleave.Proofs.Step.Advance

/-!
# Where frames come from

A frame stands on the frame that its method was entered from. The method is one of the program, or
it is the stub that runs the initializer of a class which the instruction below needs, and while the
stub is there that instruction stays where it is. The frame at the bottom stands on nothing.

So most methods are settled by what a frame shows of itself. Stubs of initializers are not: all of
them are named alike, and an instruction needs a class together with its superclasses. Two stacks
that look the same may part at such an instruction, and only there.
-/

namespace Interleave

open Relation

namespace Program

variable {p : Program} {i : Instruction} {c d e : ClassId} {m m' : Method}

/-! ## Stubs of initializers -/

/-- A method is the stub that runs the initializer of a class. -/
def InitStub (p : Program) (c : ClassId) (m : Method) : Prop :=
  ∃ k init, p.class? c = some k ∧ k.classInit? = some init ∧
    init.directCallStub "[clinit]" p.stamp = .ok m

theorem InitStub.id (h : p.InitStub c m) : m.id = .directCall := by
  obtain ⟨_, _, -, -, made⟩ := h
  exact (Method.isStub_of_directCallStub made).id

/-- A class has one such stub. -/
theorem InitStub.unique (h : p.InitStub c m) (h' : p.InitStub c m') : m = m' := by
  obtain ⟨k, init, found, hinit, made⟩ := h
  obtain ⟨k', init', found', hinit', made'⟩ := h'
  obtain rfl : k = k' := Option.some.inj (found.symm.trans found')
  obtain rfl : init = init' := Option.some.inj (hinit.symm.trans hinit')
  exact Except.ok.inj (made.symm.trans made')

/-! ## Classes that an instruction needs -/

/-- A class is above another one if it is that one, or above its superclass. -/
theorem mem_chain_iff : d ∈ p.chain c ↔
    d = c ∨ ∃ s, p.superclass? c = some s ∧ s.index < c.index ∧ d ∈ p.chain s := by
  rw [chain, List.mem_cons]
  refine or_congr_right ?_
  cases p.superclass? c with
  | none => simp
  | some s => by_cases hs : s.index < c.index <;> simp [hs]

/-- Of two classes above a third one, one is above the other. -/
theorem mem_chain_or_mem_chain (hd : d ∈ p.chain c) (he : e ∈ p.chain c) :
    d ∈ p.chain e ∨ e ∈ p.chain d := by
  induction c using chain.induct with
  | _ c ih =>
    rcases mem_chain_iff.mp hd with rfl | ⟨s, hs, hlt, hds⟩
    · exact .inr he
    · rcases mem_chain_iff.mp he with rfl | ⟨s', hs', -, hes⟩
      · exact .inl hd
      · obtain rfl : s = s' := Option.some.inj (hs.symm.trans hs')
        exact ih s hlt hds hes

/-- Of two classes that an instruction needs, one is above the other. -/
theorem Needs.mem_chain (h : p.Needs i d) (h' : p.Needs i e) : d ∈ p.chain e ∨ e ∈ p.chain d := by
  cases h with
  | @checked c op named mem =>
    cases h' with
    | @checked c' _ named' mem' =>
      obtain rfl : c = c' := Except.ok.inj (named.symm.trans named')
      exact mem_chain_or_mem_chain mem mem'
    | above op' =>
      rw [op'] at op
      cases op
  | @above name k s op operand found superclass mem =>
    cases h' with
    | checked op' =>
      rw [op] at op'
      cases op'
    | @above name' k' s' _ operand' found' superclass' mem' =>
      obtain rfl : name = name' := Except.ok.inj (operand.symm.trans operand')
      obtain rfl : k = k' := Except.ok.inj (found.symm.trans found')
      obtain rfl : s = s' := Option.some.inj (superclass.symm.trans superclass')
      exact mem_chain_or_mem_chain mem mem'

/-- No class of a program has an initializer. -/
def HasNoInitializers (p : Program) : Prop :=
  ∀ m, p.Declares m → m.uniqueName ≠ "<clinit>()V"

instance (p : Program) : Decidable p.HasNoInitializers :=
  decidable_of_iff' _ Program.forall_declares_iff

/-- No class with an initializer is above another one with an initializer. -/
def HasLoneInitializers (p : Program) : Prop :=
  ∀ c d k l, p.class? c = some k → p.class? d = some l → k.classInit?.isSome = true →
    l.classInit?.isSome = true → d ∈ p.chain c → d = c

theorem HasNoInitializers.classInit?_eq_none (h : p.HasNoInitializers) {k : Class}
    (hk : p.class? c = some k) : k.classInit? = none := by
  cases hm : k.classInit? with
  | none => rfl
  | some m =>
    refine absurd ?_ (h m ⟨c, k, hk, List.mem_of_find?_eq_some hm⟩)
    simpa using List.find?_some hm

theorem HasNoInitializers.lone (h : p.HasNoInitializers) : p.HasLoneInitializers := by
  intro c d k l hk hl hinit
  rw [h.classInit?_eq_none hk] at hinit
  cases hinit

/-- If initializers are lone, an instruction needs no two classes that have one. -/
theorem HasLoneInitializers.eq_of_needs (hp : p.HasLoneInitializers) (hd : p.Needs i d)
    (he : p.Needs i e) (hm : p.InitStub d m) (hm' : p.InitStub e m') : d = e := by
  obtain ⟨k, init, found, hinit, -⟩ := hm
  obtain ⟨l, init', found', hinit', -⟩ := hm'
  have hk : k.classInit?.isSome = true := by rw [hinit]; rfl
  have hl : l.classInit?.isSome = true := by rw [hinit']; rfl
  rcases hd.mem_chain he with hmem | hmem
  · exact hp e d l k found' found hl hk hmem
  · exact (hp d e k l found found' hk hl hmem).symm

end Program

/-! ## Stacks -/

/-- The reasons why a frame of a method stands on another frame. -/
inductive Program.StandsOn (p : Program) (g : Frame) (m : Method) : Prop where
  /-- The method was called. -/
  | declared (h : p.Declares m)
  /-- The instruction below needs a class, and the method is the stub that runs its initializer. -/
  | initializer {i : Instruction} {c : ClassId} (instruction : g.instruction = .ok i)
    (needs : p.Needs i c) (stub : p.InitStub c m)

/-- Frames that stand on each other, on one of these methods. -/
inductive Program.Stacked (p : Program) (B : Method → Prop) : List Frame → Prop where
  | empty : Stacked p B []
  | bottom {f : Frame} (h : B f.method) : Stacked p B [f]
  | upon {f g : Frame} {below : List Frame} (stands : p.StandsOn g f.method)
    (rest : Stacked p B (g :: below)) : Stacked p B (f :: g :: below)

namespace Program.Stacked

variable {p : Program} {B : Method → Prop} {f f' : Frame} {fs : List Frame}

theorem tail (h : p.Stacked B (f :: fs)) : p.Stacked B fs := by
  cases h with
  | bottom => exact .empty
  | upon _ rest => exact rest

/-- What the top frame does besides standing there does not matter. -/
theorem setTop (h : p.Stacked B (f :: fs)) (hsame : f.SameCall f') : p.Stacked B (f' :: fs) := by
  cases h with
  | bottom h => exact .bottom (hsame.method ▸ h)
  | upon stands rest => exact .upon (hsame.method ▸ stands) rest

theorem imp {C : Method → Prop} (h : p.Stacked B fs) (hBC : ∀ m, B m → C m) : p.Stacked C fs := by
  induction h with
  | empty => exact .empty
  | bottom h => exact .bottom (hBC _ h)
  | upon stands _ ih => exact .upon stands ih

end Program.Stacked

/-- Two stacks part. From some frame on down they are the same, and the instruction of that frame
needs two classes: on the one stack the initializer of the one is run, on the other that of the
other. Further up, too, the stacks have the same frame or stubs of initializers. -/
inductive Program.Parted (p : Program) : List Frame → List Frame → Prop where
  | here {f f' g : Frame} {below : List Frame} {i : Instruction} {c c' : ClassId}
    (instruction : g.instruction = .ok i) (needs : p.Needs i c) (needs' : p.Needs i c')
    (stub : p.InitStub c f.method) (stub' : p.InitStub c' f'.method) (ne : c ≠ c') :
    Parted p (f :: g :: below) (f' :: g :: below)
  | same {f : Frame} {fs fs' : List Frame} (parted : Parted p fs fs') :
    Parted p (f :: fs) (f :: fs')
  | initializers {f f' : Frame} {fs fs' : List Frame} {c c' : ClassId} (parted : Parted p fs fs')
    (stub : p.InitStub c f.method) (stub' : p.InitStub c' f'.method) :
    Parted p (f :: fs) (f' :: fs')

/-- Stacks do not part if initializers are lone. -/
theorem Program.HasLoneInitializers.not_parted {p : Program} (hp : p.HasLoneInitializers)
    {fs fs' : List Frame} : ¬ p.Parted fs fs' := by
  intro h
  induction h with
  | here _ needs needs' stub stub' ne => exact ne (hp.eq_of_needs needs needs' stub stub')
  | same _ ih => exact ih
  | initializers _ _ _ ih => exact ih

/-- Frames that look the same, and are of the same method, are the same. -/
theorem Frame.eq_of_view {f f' : Frame} (h : f.view = f'.view) (hm : f.method = f'.method) :
    f = f' := by
  cases f
  cases f'
  simp_all [Frame.view]

/-- What can be said of two methods of the same id for which frames stand on others. -/
theorem Program.StandsOn.eq_or_initStub {p : Program} (hp : p.WellFormed) {g g' : Frame}
    {m m' : Method} (h : p.StandsOn g m) (h' : p.StandsOn g' m') (hid : m.id = m'.id) :
    m = m' ∨ ∃ i i' c c', (g.instruction = .ok i ∧ p.Needs i c ∧ p.InitStub c m) ∧
      (g'.instruction = .ok i' ∧ p.Needs i' c' ∧ p.InitStub c' m') := by
  have hregistered : ∀ {n : Method}, p.Declares n → p.method? n.id = some n :=
    fun ⟨j, k, hk, hn⟩ => hp.registered j k hk _ hn
  have hunnumbered : ∀ {n : Method}, p.Declares n → n.id ≠ .directCall := by
    intro n hn he
    have hn := hregistered hn
    rw [he] at hn
    cases hn
  cases h with
  | declared h =>
    cases h' with
    | declared h' =>
      have hm := hregistered h
      rw [hid, hregistered h'] at hm
      exact .inl (Option.some.inj hm).symm
    | initializer _ _ stub' => exact absurd (hid.trans stub'.id) (hunnumbered h)
  | initializer instruction needs stub =>
    cases h' with
    | declared h' => exact absurd (hid.symm.trans stub.id) (hunnumbered h')
    | initializer instruction' needs' stub' =>
      exact .inr ⟨_, _, _, _, ⟨instruction, needs, stub⟩, instruction', needs', stub'⟩

/-- **Stacks that look the same are the same, or they part at an instruction that needs two
classes**, if the method at the bottom is settled. -/
theorem Program.Stacked.eq_or_parted {p : Program} (hp : p.WellFormed) {B B' : Method → Prop}
    (hB : ∀ m m', B m → B' m' → m = m') {fs fs' : List Frame} (h : p.Stacked B fs)
    (h' : p.Stacked B' fs') (hview : fs.map Frame.view = fs'.map Frame.view) :
    fs = fs' ∨ p.Parted fs fs' := by
  induction h generalizing fs' with
  | empty =>
    cases h' with
    | empty => exact .inl rfl
    | bottom => cases hview
    | upon => cases hview
  | @bottom f hf =>
    cases h' with
    | empty => cases hview
    | @bottom f' hf' =>
      have hf : f = f' := Frame.eq_of_view (List.cons.inj hview).1 (hB _ _ hf hf')
      exact .inl (by rw [hf])
    | upon => cases (List.cons.inj hview).2
  | @upon f g below stands rest ih =>
    cases h' with
    | empty => cases hview
    | bottom => cases (List.cons.inj hview).2
    | @upon f' g' below' stands' rest' =>
      obtain ⟨hf, hrest⟩ := List.cons.inj hview
      have hid : f.method.id = f'.method.id := congrArg Frame.View.method hf
      have hbelow := ih rest' hrest
      rcases stands.eq_or_initStub hp stands' hid with hm | hstubs
      · -- the frames on top are the same
        obtain rfl : f = f' := Frame.eq_of_view hf hm
        exact hbelow.imp (congrArg (List.cons f)) .same
      · obtain ⟨i, i', c, c', ⟨hi, hc, stub⟩, hi', hc', stub'⟩ := hstubs
        rcases hbelow with heq | hparted
        · obtain ⟨rfl, rfl⟩ := List.cons.inj heq
          obtain rfl : i = i' := Except.ok.inj (hi.symm.trans hi')
          by_cases hne : c = c'
          · subst hne
            obtain rfl : f = f' := Frame.eq_of_view hf (stub.unique stub')
            exact .inl rfl
          · exact .inr (.here hi hc hc' stub stub' hne)
        · exact .inr (.initializers hparted stub stub')

end Interleave

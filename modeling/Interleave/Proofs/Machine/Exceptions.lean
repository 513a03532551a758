import Interleave.Proofs.Machine.Isolation
import Interleave.Proofs.Step.Dispatch

/-!
# Exceptions find their handlers

What is looked up when a method is left has been there since the method was entered: the object
whose monitor the activation holds, and the class that the method initializes. Objects and classes
stay, so in every state that is reachable each frame can be left. Therefore an exception gets to the
first frame with a handler, or escapes from the last frame that it inspects.
-/

namespace Interleave

open Relation

namespace Kernel

variable {p : Program} {k k' : Kernel} {t u : ThreadId}

/-! ## What moves do to frames -/

/-- Where a frame comes from that is there after a move: it is of a call that was there before, or
of a stub, or its monitor has just been taken. -/
inductive Origin (k : Kernel) (t : ThreadId) (fs : List Frame) (f' : Frame) : Prop where
  | kept {f : Frame} (mem : f ∈ fs) (same : f.SameCall f')
  | stub (h : f'.method.IsStub)
  | entered {h : Heap} (acquired : k.Acquired t f'.method f'.receiver h)

theorem frames_pushFrame {f f' : Frame} (h : f' ∈ (k.modifyThread t (·.pushFrame f)).frames u) :
    f' = f ∨ f' ∈ k.frames u := by
  by_cases htu : t = u
  · subst htu
    cases hth : k.threads[t.index]? with
    | none => simp [frames, getElem?_modifyThread, hth] at h
    | some th =>
      rw [frames_modifyThread hth] at h
      rw [frames_of_getElem? hth]
      exact List.mem_cons.mp h
  · rw [frames_modifyThread_of_ne htu] at h
    exact .inr h

theorem Move.origin (h : Move p t k k') {f' : Frame} (hf : f' ∈ k'.frames u) :
    k.Origin t (k.frames u) f' := by
  have hsame : ∀ {f : Frame}, f ∈ k.frames u → k.Origin t (k.frames u) f :=
    fun hf => .kept hf (refl _)
  cases h with
  | @frame f g top same =>
    by_cases hu : t = u
    · subst hu
      obtain ⟨th, rest, hth, hframes⟩ := topFrame_eq_ok.mp top
      rw [frames_modifyThread hth] at hf
      rcases List.mem_cons.mp hf with rfl | hf
      · exact .kept (topFrame_eq_ok_iff.mp top |>.elim fun _ h => h ▸ List.mem_cons_self) same
      · exact hsame (frames_of_getElem? hth ▸ List.mem_of_mem_tail hf)
    · rw [frames_modifyThread_of_ne hu] at hf
      exact hsame hf
  | heap => exact hsame hf
  | settle => exact hsame hf
  | initializer _ _ made =>
    rcases frames_pushFrame hf with rfl | hf
    · exact .stub (Method.isStub_of_directCallStub made)
    · exact hsame hf
  | lock => exact hsame hf
  | unlock =>
    rw [frames_released] at hf
    exact hsame hf
  | @enter f g e heap cs top same called acquired =>
    obtain ⟨rest, hframes, hown, hothers⟩ := frames_entered top g e heap cs
    by_cases hu : u = t
    · subst hu
      rw [hown] at hf
      rcases List.mem_cons.mp hf with rfl | hf
      · exact .entered acquired
      · rcases List.mem_cons.mp hf with rfl | hf
        · exact .kept (hframes ▸ List.mem_cons_self) same
        · exact hsame (hframes ▸ List.mem_cons_of_mem _ hf)
    · rw [hothers u hu] at hf
      exact hsame hf
  | @leave f th rest k₁ cs thread frames released =>
    replace hf : f' ∈ k₁.frames u := hf
    rw [released.frames] at hf
    by_cases hu : t = u
    · subst hu
      rw [frames_modifyThread thread] at hf
      rw [frames_of_getElem? thread, frames]
      exact .kept (List.mem_cons_of_mem _ hf) (refl _)
    · rw [frames_modifyThread_of_ne hu] at hf
      exact hsame hf
  | start _ _ _ made =>
    rcases frames_pushFrame hf with rfl | hf
    · exact .stub (Method.isStub_of_directCallStub made)
    · replace hf : f' ∈ (k.addThread _).2.frames u := hf
      rw [frames_addThread] at hf
      exact hsame hf

/-! ## Reachable states -/

/-- There is a class object for each class of the program, and the object whose monitor an
activation holds is there. -/
structure Backed (p : Program) (k : Kernel) : Prop where
  classes : k.classObjects.size = p.classes.size
  targets : ∀ u, ∀ f ∈ k.frames u, f.method.isSynchronized = true →
    ∃ r o, k.lockTarget f.method f.receiver = .ok r ∧ k.heap.get? r = some o

namespace Backed

/-- It is enough to know where the frames come from. -/
theorem of_origin (h : k.Backed p) (hretains : Retains k k')
    (horigin : ∀ u, ∀ f' ∈ k'.frames u, k.Origin t (k.frames u) f') : k'.Backed p where
  classes := hretains.classObjects ▸ h.classes
  targets u f' hf' hs := by
    cases horigin u f' hf' with
    | @kept f mem same =>
      rw [same.method] at hs ⊢
      rw [same.receiver]
      exact hretains.target (h.targets u f mem hs)
    | stub hstub =>
      rw [hstub.synchronized] at hs
      cases hs
    | entered acquired =>
      cases acquired with
      | unneeded hnone =>
        rw [hs] at hnone
        cases hnone
      | locked _ target object => exact hretains.target ⟨_, _, target, object⟩

theorem moves (h : k.Backed p) (hmoves : ReflTransGen (Move p t) k k') : k'.Backed p := by
  induction hmoves with
  | refl => exact h
  | tail _ hlast ih =>
    exact ih.of_origin (Advance.of_move hlast).retains fun _ _ hf => hlast.origin hf

theorem turn (h : k.Backed p) (hturn : Turn p k k') : k'.Backed p := by
  obtain ⟨t, k₁, -, hmoves, hrests⟩ := hturn.moves_then_rests
  refine (h.moves hmoves).of_origin (t := t) ⟨?_, fun r o ho => ⟨o, hrests.heap ▸ ho⟩⟩ ?_
  · unfold classObjects
    rw [hrests.classes]
  · intro u f' hf'
    cases hth' : k'.threads[u.index]? with
    | none => simp [frames, hth'] at hf'
    | some th' =>
      rw [frames_of_getElem? hth'] at hf'
      rcases hrests.threads u th' hth' with ⟨-, hnil⟩ | ⟨th, hth, hframes, -⟩
      · rw [hnil] at hf'
        cases hf'
      · rw [frames_of_getElem? hth, ← hframes]
        exact .kept hf' (refl _)

theorem size_allocClassObjects (c : ClassId) (cs : List Class) (h : Heap)
    (states : Array ClassState) :
    (allocClassObjects c cs (h, states)).2.size = states.size + cs.length := by
  induction cs generalizing h states with
  | nil => rfl
  | cons k ks ih =>
    rw [allocClassObjects, ih, Array.size_push, List.length_cons]
    omega

theorem start (h : Started p k) : k.Backed p := by
  obtain ⟨⟨th, f, hthreads, -, -, hframes, hstub⟩, -⟩ := h.inv
  refine ⟨?_, fun u g hg hs => ?_⟩
  · have hclasses : k.classes = (initial p).classes := by
      cases h
      rfl
    rw [← size_classes, hclasses]
    exact (size_allocClassObjects _ _ _ _).trans (by simp)
  · obtain ⟨i⟩ := u
    cases i with
    | succ i => simp [frames, hthreads] at hg
    | zero =>
      have hg' : g = f := by simpa [frames, hthreads, hframes] using hg
      rw [hg', hstub.synchronized] at hs
      cases hs

end Backed

theorem Reachable.backed (h : k.Reachable p) : k.Backed p := by
  induction h with
  | start h => exact .start h
  | turn _ h ih => exact ih.turn h

theorem Reachable.sound (h : k.Reachable p) : k.Sound p := by
  induction h with
  | start h => exact .start h
  | turn _ h ih => exact ih.turn h

/-- In every state that is reachable, each frame can be left. -/
theorem Reachable.leavable (h : k.Reachable p) (hp : p.WellFormed) {f : Frame}
    (hf : f ∈ k.frames u) : f.Leavable k where
  target := h.backed.targets u f hf
  owner hinit c hc := by
    obtain ⟨th, hth, hmem⟩ : ∃ th, k.threads[u.index]? = some th ∧ f ∈ th.frames := by
      cases hth : k.threads[u.index]? with
      | none => simp [frames, hth] at hf
      | some th => exact ⟨th, rfl, frames_of_getElem? hth ▸ hf⟩
    rcases h.sound.methods u th hth f hmem with ⟨i, l, hl, hm⟩ | hstub
    · obtain rfl : i = c := Option.some.inj ((hp.owners i l hl _ hm).symm.trans hc)
      rw [size_classes, h.backed.classes]
      exact (Array.getElem?_eq_some_iff.mp hl).1
    · rw [hstub.classInit] at hinit
      cases hinit

end Kernel

namespace Unwound

variable {p : Program} {t : ThreadId} {x : ObjRef} {w : Work} {fs : List Frame}

/-- An instruction that starts at a byte is found there. -/
theorem exists_instructionAt {m : Method} {position : Nat}
    (h : ∃ i ∈ m.code.toList, i.position = position) :
    ∃ i, m.instructionAt position = .ok i ∧ i ∈ m.code.toList ∧ i.position = position := by
  obtain ⟨i, hi, hposition⟩ := h
  unfold Method.instructionAt
  cases hfind : m.code.find? (·.position == position) with
  | none =>
    have hne := Array.find?_eq_none.mp hfind i (Array.mem_def.mpr hi)
    exact absurd (beq_iff_eq.mpr hposition) hne
  | some j =>
    have hj : j.position = position := by simpa using Array.find?_some hfind
    exact ⟨j, rfl, Array.mem_def.mp (Array.mem_of_find?_eq_some hfind), hj⟩

/-- **Exceptions find their handlers.** In a state that is reachable, let an exception inspect
frames that have current instructions, and whose handlers begin at instructions. If one of them has
a handler for the exception, then the first such frame is positioned on the first such handler, with
the exception as its only operand, and the frames above it have been left. Otherwise the exception
escapes, and all the frames that it inspects have been left. The frames below stay as they are. -/
theorem unwind_dispatches {o : Object} {k : Class} (hp : p.Built) (hreach : w.kernel.Reachable p)
    (hfs : w.kernel.frames t = fs) (hlive : fs ≠ []) (ho : w.kernel.heap.get? x = some o)
    (hk : p.class? o.classId = some k)
    (hinstruction : ∀ f ∈ inspected fs, ∃ i, f.instruction = .ok i)
    (hboundary : ∀ f ∈ inspected fs, ∀ h ∈ f.method.handlers,
      ∃ i ∈ f.method.code.toList, i.position = h.handlerPc) :
    (∀ n f, n < (inspected fs).length → fs[n]? = some f → Matches p o.classId f →
      (∀ j g, j < n → fs[j]? = some g → ¬ Matches p o.classId g) →
      ∃ w' h i, unwind p t x w = .ok .handled w' ∧ HandledBy p o.classId f h ∧
        i ∈ f.method.code.toList ∧ i.position = h.handlerPc ∧
        w'.kernel.frames t = { f with operands := [x.toSlot], pc := i.index } :: fs.drop (n + 1) ∧
        w.kernel.Sheds t (fs.take n) w'.kernel) ∧
    ((∀ f ∈ inspected fs, ¬ Matches p o.classId f) →
      ∃ w', unwind p t x w = .ok (.escaped
          { thread := t, exception := x, className := k.name, message := o.detail }) w' ∧
        w'.kernel.frames t = fs.drop (inspected fs).length ∧
        w.kernel.Sheds t (inspected fs) w'.kernel) := by
  have ha : p.Arranged := hp.arranged
  have hleavable : ∀ f ∈ fs, f.Leavable w.kernel := fun f hf =>
    hreach.leavable hp.wellFormed (hfs ▸ hf)
  constructor
  · intro n f hn hf hmatches hfirst
    obtain ⟨h, hh⟩ := (matches_iff ha).mp hmatches
    have hmem : f ∈ inspected fs := by
      have hn' := List.prefix_iff_getElem?.mp (isPrefix_inspected fs) n hn
      obtain rfl : (inspected fs)[n] = f := Option.some.inj (hn'.symm.trans hf)
      exact List.getElem_mem hn
    have hdeclared : h ∈ f.method.handlers := by
      obtain ⟨-, before, after, -, hhandlers, -, -⟩ := hh
      simp [hhandlers]
    obtain ⟨i, hi, himem, hposition⟩ := exists_instructionAt (hboundary f hmem h hdeclared)
    obtain ⟨w', hunwind, hpositioned, hsheds⟩ :=
      exists_unwind_handled ha hfs ho hleavable hinstruction hn hf hfirst hh hi
    exact ⟨w', h, i, hunwind, hh, himem, hposition, hpositioned, hsheds⟩
  · intro hnone
    have hrecord : record p t x o =
        { thread := t, exception := x, className := k.name, message := o.detail } := by
      simp [record, hk]
    rw [← hrecord]
    exact exists_unwind_escaped ha hfs hlive ho hleavable hinstruction hnone

/-! ## An example -/

/-- A synchronized method picks a value, and then throws what its caller has made. The caller
handles that. -/
def rescue : Demo.Build Unit := do
  let main ← Demo.declareMain [("failure", Demo.lockDescriptor)]
  Demo.defineSource
  Demo.define main "fail" (.static ∪ .synchronized) 0 fun a =>
    let a := (((a.iconst 0).iconst 1).invoke .invokeStatic "demo/Verify" "randomInt" "(II)I").emit
      .pop
    (a.onField .getStatic Demo.mainClass "failure" Demo.lockDescriptor).emit .aThrow
  Demo.define main "main" Demo.mainModifiers 0 fun a =>
    let a := (Demo.newObject Builtin.exception a).onField .putStatic Demo.mainClass "failure"
      Demo.lockDescriptor
    let (start, a) := a.newLabel
    let (stop, a) := a.newLabel
    let a := ((a.bind start).invoke .invokeStatic Demo.mainClass "fail" "()V").emit .voidReturn
    let a := (a.bind stop).handler
      { start, stop, handler := stop, catchType := some Builtin.throwable }
    (a.emit .pop).emit .voidReturn

theorem keepsBuilt_rescue : Demo.Keeps Program.Built rescue :=
  (Demo.keepsBuilt_declare _).bind fun _ => Demo.keepsBuilt_defineSource.bind fun _ =>
    (Demo.keepsBuilt_define _ _ _ _ _).bind fun _ => Demo.keepsBuilt_define _ _ _ _ _

/-- An exception of a class passes the frame on top, and is handled in the one below it. -/
def isPassed (p : Program) (c : ClassId) : List Frame → Bool
  | f :: g :: _ =>
    match handlerFor p c f, handlerFor p c g with
    | .ok none, .ok (some _) => !f.method.attributes.firewall
    | _, _ => false
  | _ => false

theorem isPassed_iff {c : ClassId} : isPassed p c fs = true ↔ ∃ f g rest h, fs = f :: g :: rest ∧
    f.method.attributes.firewall = false ∧ handlerFor p c f = .ok none ∧
      handlerFor p c g = .ok (some h) := by
  constructor
  · intro hpassed
    unfold isPassed at hpassed
    split at hpassed
    · rename_i f g rest
      split at hpassed
      · rename_i h hf hg
        exact ⟨f, g, rest, h, rfl, by simpa using hpassed, hf, hg⟩
      · cases hpassed
    · cases hpassed
  · rintro ⟨f, g, rest, h, rfl, hgoes, hf, hg⟩
    simp [isPassed, hgoes, hf, hg]

/-- While the method picks its value, the exception has been made. If it were thrown there, the
caller of the method would handle it, and the monitor would be given back. -/
theorem unwind_dispatches_rescue : ∃ p m f g rest o k w' h, ∃ i : Instruction,
    rescue.run (Program.base .plain) = .ok ((), p) ∧ Machine.Driven p {} m ∧
      m.kernel.frames .main = f :: g :: rest ∧ f.method.isSynchronized = true ∧
      m.kernel.heap.get? ⟨20⟩ = some o ∧ p.class? o.classId = some k ∧ k.name = Builtin.exception ∧
      unwind p .main ⟨20⟩ { kernel := m.kernel } = .ok .handled w' ∧
      HandledBy p o.classId g h ∧ i.position = h.handlerPc ∧
      w'.kernel.frames .main = { g with operands := [ObjRef.toSlot ⟨20⟩], pc := i.index } :: rest ∧
      m.kernel.Sheds .main [f] w'.kernel := by
  obtain ⟨p, m, hbuild, hdriven, htest⟩ := Machine.Driven.exists_of_demo rescue [0]
    (fun p m => (m.kernel.heap.get? ⟨20⟩).any fun o =>
      ((p.class? o.classId).any (·.name == Builtin.exception) &&
        isPassed p o.classId (m.kernel.frames .main)) &&
        ((m.kernel.frames .main).head?.any (·.method.isSynchronized)) &&
        (inspected (m.kernel.frames .main)).all fun f => f.instruction.toOption.isSome &&
          f.method.handlers.all fun h => f.method.code.toList.any (·.position == h.handlerPc))
    (by decide +kernel)
  simp only [Option.any_eq_true, Bool.and_eq_true, beq_iff_eq, isPassed_iff, List.all_eq_true,
    List.any_eq_true] at htest
  obtain ⟨o, ho, ⟨⟨⟨k, hk, hname⟩, f, g, rest, h, hframes, hgoes, hf, hg⟩, f₀, hf₀, hsync⟩, hall⟩ :=
    htest
  obtain rfl : f = f₀ := by simpa [hframes] using hf₀
  rw [hframes] at hall
  have hp : p.Built := keepsBuilt_rescue (.base .plain) hbuild
  have hinstruction : ∀ f' ∈ inspected (f :: g :: rest), ∃ i, f'.instruction = .ok i := by
    intro f' hf'
    obtain ⟨i, hi⟩ := Option.isSome_iff_exists.mp (hall f' hf').1
    exact ⟨i, Effect.except_toOption_eq_some.mp hi⟩
  have hnone : ¬ Matches p o.classId f := by
    intro hmatches
    obtain ⟨h', hh'⟩ := (matches_iff hp.arranged).mp hmatches
    have hsome := (handlerFor_eq_some_iff hp.arranged).mpr hh'
    rw [hf] at hsome
    cases hsome
  have hsome : Matches p o.classId g :=
    (matches_iff hp.arranged).mpr ⟨h, (handlerFor_eq_some_iff hp.arranged).mp hg⟩
  have hinspected : 1 < (inspected (f :: g :: rest)).length := by
    rw [inspected, hgoes, inspected]
    simp only [Bool.false_eq_true, if_false]
    split <;> simp
  have hfirst : ∀ j g', j < 1 → (f :: g :: rest)[j]? = some g' → ¬ Matches p o.classId g' := by
    intro j g' hj hg'
    obtain rfl : j = 0 := by omega
    obtain rfl : f = g' := by simpa using hg'
    exact hnone
  obtain ⟨hhandles, -⟩ := unwind_dispatches (w := { kernel := m.kernel }) hp hdriven.reachable
    hframes (by simp) ho hk hinstruction fun f' hf' => (hall f' hf').2
  obtain ⟨w', h', i, hunwind, hhandled, -, hposition, hpositioned, hsheds⟩ :=
    hhandles 1 g hinspected rfl hsome hfirst
  exact ⟨p, m, f, g, rest, o, k, w', h', i, hbuild, hdriven, hframes, hsync, ho, hk, hname, hunwind,
    hhandled, hposition, hpositioned, hsheds⟩

end Unwound

end Interleave

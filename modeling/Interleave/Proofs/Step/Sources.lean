import Interleave.Proofs.Step.Frames
import Interleave.Proofs.Step.Perform

/-!
# Calls of sources of values

A source of values is called twice. The first call finds no choice: it leaves a generator behind,
and its thread stays in front of the call with the arguments in place. The second one finds the
choice that was made and consumes it.

`Kernel.Awaits` describes a thread between the two calls. No class has to be initialized any more,
so the second call does nothing but take the value: the arguments come off the operand stack, the
slots of the value take their place, and the thread goes on behind the call.

`Call.Candidates` says which values a source lets choose from.
-/

namespace Interleave

open Effect

/-! ## The values to choose from -/

namespace Call

/-- A source called on this frame lets choose from these values. Its arguments are on top of the
operand stack, the last one uppermost. -/
inductive Candidates (m : Method) (s : ValueSource) (f : Frame) : Domain → Prop where
  /-- Both booleans. -/
  | bool (kind : m.choiceKind = .bool) : Candidates m s f .bool
  /-- The ints between two arguments, these included. -/
  | ints {lo hi : Slot} {rest : List Slot} (kind : m.choiceKind = .int)
    (args : m.argCodes = [.int, .int]) (operands : f.operands = hi :: lo :: rest) :
    Candidates m s f (.ints (Slot.toInt lo) (Slot.toInt hi))
  /-- The longs between two arguments, these included. A long is a slot and one that fills up. -/
  | longs {lo pad hi pad' : Slot} {rest : List Slot} (kind : m.choiceKind = .long)
    (args : m.argCodes = [.long, .long]) (operands : f.operands = pad' :: hi :: pad :: lo :: rest) :
    Candidates m s f (.longs (Slot.toLong lo) (Slot.toLong hi))
  /-- The listed floats. -/
  | floats (kind : m.choiceKind = .float) : Candidates m s f (.floats s.floats)
  /-- The listed doubles. -/
  | doubles (kind : m.choiceKind = .double) : Candidates m s f (.doubles s.doubles)
  /-- The arguments, in the order of their declaration. -/
  | references {args rest : List Slot} (kind : m.choiceKind = .reference)
    (result : m.resultCode ≠ .void) (codes : ∀ c ∈ m.argCodes, c.isReference = true)
    (length : args.length = m.arity) (operands : f.operands = args.reverse ++ rest) :
    Candidates m s f (.references (args.map ObjRef.ofSlot))

variable {m : Method} {s : ValueSource} {f : Frame} {d : Domain} {c : Choice}

/-- References that are looked up from below are the uppermost operands, the last one on top. -/
theorem peekRefs_eq_ok {n : Nat} {refs : List ObjRef}
    (h : (List.range n).reverse.mapM f.peekRef = .ok refs) :
    ∃ args rest : List Slot, args.length = n ∧ f.operands = args.reverse ++ rest ∧
      refs = args.map ObjRef.ofSlot := by
  suffices htop : n ≤ f.operands.length ∧ refs = (f.operands.take n).reverse.map ObjRef.ofSlot by
    obtain ⟨hle, hrefs⟩ := htop
    refine ⟨(f.operands.take n).reverse, f.operands.drop n, ?_, ?_, hrefs⟩
    · rw [List.length_reverse, List.length_take, Nat.min_eq_left hle]
    · rw [List.reverse_reverse, List.take_append_drop]
  induction n generalizing refs with
  | zero =>
    cases h
    exact ⟨Nat.zero_le _, rfl⟩
  | succ n ih =>
    rw [List.range_succ, List.reverse_append, List.reverse_singleton, List.singleton_append,
      List.mapM_cons] at h
    simp only [except_bind_eq_ok] at h
    obtain ⟨r, hr, rs, hrs, h⟩ := h
    cases h
    obtain ⟨-, rfl⟩ := ih hrs
    -- the first reference comes from the lowest of these operands
    obtain ⟨v, hv, rfl⟩ := Frame.peekRef_eq_ok.mp hr
    obtain ⟨hn, -⟩ := List.getElem?_eq_some_iff.mp hv
    refine ⟨hn, ?_⟩
    rw [List.take_add_one, hv, Option.toList_some, List.reverse_append, List.reverse_singleton,
      List.singleton_append, List.map_cons]

/-- A source that can be asked lets choose from its candidates. -/
theorem candidates_of_sourceDomain (h : sourceDomain m s f = .ok d) : Candidates m s f d := by
  unfold sourceDomain at h
  split at h
  · rename_i hkind
    cases h
    exact .bool hkind
  · rename_i hkind
    split at h
    · rename_i hargs
      simp only [except_bind_eq_ok, Frame.peekInt_eq_ok] at h
      obtain ⟨_, ⟨lo, hlo, rfl⟩, _, ⟨hi, hhi, rfl⟩, h⟩ := h
      cases h
      obtain ⟨rest, hrest⟩ : ∃ rest, f.operands = hi :: lo :: rest := by
        match hf : f.operands with
        | [] => simp [hf] at hhi
        | [_] => simp [hf] at hlo
        | _ :: _ :: rest =>
          simp only [hf, List.getElem?_cons_zero, List.getElem?_cons_succ, Option.some.injEq]
            at hlo hhi
          exact ⟨rest, by rw [hlo, hhi]⟩
      exact .ints hkind hargs hrest
    · cases h
  · rename_i hkind
    split at h
    · rename_i hargs
      simp only [except_bind_eq_ok, Frame.peek_eq_ok] at h
      obtain ⟨lo, hlo, hi, hhi, h⟩ := h
      cases h
      obtain ⟨pad', pad, rest, hrest⟩ :
          ∃ pad' pad rest, f.operands = pad' :: hi :: pad :: lo :: rest := by
        match hf : f.operands with
        | [] => simp [hf] at hhi
        | [_] => simp [hf] at hhi
        | [_, _] => simp [hf] at hlo
        | [_, _, _] => simp [hf] at hlo
        | pad' :: _ :: pad :: _ :: rest =>
          simp only [hf, List.getElem?_cons_zero, List.getElem?_cons_succ, Option.some.injEq]
            at hlo hhi
          exact ⟨pad', pad, rest, by rw [hlo, hhi]⟩
      exact .longs hkind hargs hrest
    · cases h
  · rename_i hkind
    cases h
    exact .floats hkind
  · rename_i hkind
    cases h
    exact .doubles hkind
  · rename_i hkind
    split at h
    · cases h
    · rename_i hwell
      simp only [not_or, Bool.not_eq_true', Bool.not_eq_false, List.all_eq_true] at hwell
      obtain ⟨hresult, hcodes⟩ := hwell
      obtain ⟨refs, hrefs, h⟩ := except_bind_eq_ok.mp h
      cases h
      obtain ⟨args, rest, hlength, hrest, rfl⟩ := peekRefs_eq_ok hrefs
      exact .references hkind hresult hcodes hlength hrest
  · cases h

/-- A candidate takes as many slots as the result of the source. -/
theorem Candidates.length_toSlots (h : Candidates m s f d) {i : Nat} (hc : d.get? i = some c) :
    c.toSlots.length = m.resultSlots := by
  have hkinds : ∀ {code : TypeCode} {kind : ChoiceKind}, ChoiceKind.ofResult code = kind →
      code ≠ .void → code.slotSize = match kind with
        | .long | .double => 2
        | _ => 1 := by
    rintro code kind rfl hcode
    cases code <;> first | rfl | exact absurd rfl hcode
  have hvoid : ∀ {kind : ChoiceKind}, m.choiceKind = kind → kind ≠ .reference →
      m.resultCode ≠ .void := by
    rintro kind rfl hkind hcode
    exact hkind (by rw [Method.choiceKind, hcode]; rfl)
  unfold Method.resultSlots
  unfold Domain.get? at hc
  split at hc
  · cases h with
    | bool kind =>
      cases hc
      rw [hkinds kind (hvoid kind nofun)]
      rfl
    | ints kind =>
      cases hc
      rw [hkinds kind (hvoid kind nofun)]
      rfl
    | longs kind =>
      cases hc
      rw [hkinds kind (hvoid kind nofun)]
      rfl
    | floats kind =>
      obtain ⟨bits, -, rfl⟩ := Option.map_eq_some_iff.mp hc
      rw [hkinds kind (hvoid kind nofun)]
      rfl
    | doubles kind =>
      obtain ⟨bits, -, rfl⟩ := Option.map_eq_some_iff.mp hc
      rw [hkinds kind (hvoid kind nofun)]
      rfl
    | references kind result =>
      obtain ⟨r, -, rfl⟩ := Option.map_eq_some_iff.mp hc
      rw [hkinds kind result]
      rfl
  · cases hc

end Call

/-! ## The call that takes the value -/

/-- A thread stands in front of the call of a source, and nothing has to happen before the call. -/
structure Kernel.Awaits (p : Program) (k : Kernel) (t : ThreadId) (f : Frame) (i : Instruction)
    (m : Method) (s : ValueSource) : Prop where
  top : k.topFrame t = .ok f
  instruction : f.instruction = .ok i
  source : k.AtSource p f i m s
  may : k.MayCall p t i

/-- The frame behind the call of a source that has taken a value: the arguments are gone, the slots
of the value have been pushed. -/
def Frame.behind (f : Frame) (m : Method) (i : Instruction) (c : Choice) : Frame :=
  { f with operands := c.toSlots.reverse ++ f.operands.drop m.argSlots, pc := i.nextIndex }

/-- Of two changes of the top frame the second one counts. -/
theorem Kernel.modifyThread_setTop (k : Kernel) (t : ThreadId) (f g : Frame) :
    (k.modifyThread t (·.setTop f)).modifyThread t (·.setTop g) =
      k.modifyThread t (·.setTop g) := by
  refine congrArg (fun ths => ({ k with threads := ths } : Kernel)) (Array.ext_getElem? fun n => ?_)
  simp only [modifyThread, Array.getElem?_modify]
  by_cases hn : t.index = n
  · simp only [if_pos hn, Option.map_map]
    rfl
  · simp only [if_neg hn]

variable {p : Program} {t : ThreadId} {f : Frame} {i : Instruction} {m : Method} {s : ValueSource}
  {c : Choice} {w w' : Work} {out : Outcome}

namespace Call

/-- If all classes may be used, no initializer has to run and nothing changes. -/
theorem initialize?_of_usable {cs : List ClassId} (h : ∀ c ∈ cs, w.kernel.Usable t c) :
    initialize? p t cs w = .ok false w := by
  induction cs with
  | nil => rfl
  | cons c cs ih =>
    obtain ⟨hc, hcs⟩ := List.forall_mem_cons.mp h
    obtain ⟨status, hstatus, hready⟩ : ∃ status, w.kernel.classStatus c = .ok status ∧
        (status = .initialized ∨ status = .initializing t) := by
      rcases hc with hc | hc
      · exact ⟨_, hc, .inl rfl⟩
      · exact ⟨_, hc, .inr rfl⟩
    unfold initialize?
    rw [Step.kernel_bind_eq_ok, Step.lift_bind_eq_ok]
    refine ⟨status, hstatus, ?_⟩
    rw [if_pos hready]
    exact ih hcs

/-- In front of the call of a source there is nothing to do but to call it. -/
theorem invoke_eq_invokeNative (h : w.kernel.Awaits p t f i m s) :
    ∃ n, invoke p t i w = invokeNative p t i m { w with transient := n } := by
  refine ⟨{ w.transient with callee := some m.id }, ?_⟩
  have hcall : callMethod p t i w =
      invokeNative p t i m { w with transient := { w.transient with callee := some m.id } } := by
    unfold callMethod
    have hframe : Step.frame t w = .ok f w := Step.frame_eq_ok.mpr ⟨h.top, rfl⟩
    have hkernel : Step.kernel w = .ok w.kernel w := rfl
    have hcallee : (Step.lift (p.callTarget w.kernel f i) : Step (Option Method)) w =
        .ok (some m) w := Step.lift_eq_ok.mpr ⟨h.source.callee, rfl⟩
    rw [bind_of_ok hframe, bind_of_ok hkernel, bind_of_ok hcallee]
    simp only [h.source.body, h.source.native, Bool.false_eq_true, if_false, if_true]
    exact bind_of_ok rfl
  rw [← hcall]
  unfold invoke
  by_cases hstatic : i.op = .invokeStatic
  · obtain ⟨r, k, hr, hk, husable⟩ := h.may hstatic
    have href : (Step.lift i.methodRef : Step MethodRef) w = .ok r w :=
      Step.lift_eq_ok.mpr ⟨hr, rfl⟩
    have hclass : (Step.lift (p.resolveClass r.className) : Step Class) w = .ok k w :=
      Step.lift_eq_ok.mpr ⟨hk, rfl⟩
    have hinit : initializeClass? p t k.id w = .ok false w :=
      initialize?_of_usable fun d hd => husable d (List.mem_reverse.mp hd)
    simp only [hstatic, if_true]
    rw [bind_of_ok href, bind_of_ok hclass, bind_of_ok hinit]
    rfl
  · simp only [hstatic, if_false]
    rfl

/-- The call of a source takes the value that waits for it. -/
theorem invokeNative_of_choice (hf : w.kernel.topFrame t = .ok f) (hs : m.source? = some s)
    (hc : w.choice = some c) (hargs : m.argSlots ≤ f.operands.length) (hresult : 0 < m.resultSlots) :
    invokeNative p t i m w = .ok (.goto i.nextIndex)
      { w with
        kernel := w.kernel.modifyThread t (·.setTop
          { f with operands := c.toSlots.reverse ++ f.operands.drop m.argSlots })
        choice := none } := by
  unfold invokeNative
  simp only [hs, get_bind, hc]
  refine bind_eq_ok.mpr ⟨(), _, rfl, bind_eq_ok.mpr ⟨(), _, ?_, rfl⟩⟩
  refine Step.onFrame_eq_ok.mpr ⟨f, _, hf, ?_, rfl⟩
  refine bind_eq_ok.mpr ⟨_, _, Frame.popSlots_eq_ok.mpr ⟨hargs, rfl, rfl⟩, ?_⟩
  rw [if_pos hresult]
  rfl

/-- The call of a source takes the value that waits for it, whatever becomes of the value. -/
theorem choice_of_invokeNative {flow : Flow} (hs : m.source? = some s) (hc : w.choice = some c)
    (h : invokeNative p t i m w = .ok flow w') : w'.choice = none := by
  unfold invokeNative at h
  simp only [hs, get_bind, hc] at h
  obtain ⟨_, w₁, hw₁, h⟩ := bind_eq_ok.mp h
  obtain rfl := modify_eq_ok.mp hw₁
  obtain ⟨_, w₂, hframe, h⟩ := bind_eq_ok.mp h
  obtain ⟨-, rfl⟩ := pure_eq_ok.mp h
  obtain ⟨_, _, -, -, rfl⟩ := Step.onFrame_eq_ok.mp hframe
  rfl

end Call

namespace Step

/-- An instruction that calls a source calls it. -/
theorem execute_eq_invokeNative (h : w.kernel.Awaits p t f i m s) :
    ∃ n, execute p t i w = Call.invokeNative p t i m { w with transient := n } := by
  rw [execute_of_isInvoke h.source.op]
  exact Call.invoke_eq_invokeNative h

/-- A thread that asked for a value consumes it with its next instruction. -/
theorem choice_eq_none_of_awaits (h : w.kernel.Awaits p t f i m s) (hc : w.choice = some c)
    (hperform : perform p t i w = .ok out w') : w'.choice = none := by
  obtain ⟨n, hn⟩ := execute_eq_invokeNative h
  unfold perform at hperform
  obtain ⟨flow, w₁, hexecute, hfollow⟩ := bind_eq_ok.mp hperform
  rw [hn] at hexecute
  rw [(keeps_follow flow hfollow).choice]
  exact Call.choice_of_invokeNative (w := { w with transient := n }) h.source.source hc hexecute

/-- A thread that asked for a value takes it with its next instruction, and goes on behind the
call. -/
theorem perform_of_awaits (h : w.kernel.Awaits p t f i m s) (hc : w.choice = some c)
    (hargs : m.argSlots ≤ f.operands.length) (hresult : 0 < m.resultSlots) :
    ∃ w', perform p t i w = .ok .running w' ∧
      w'.kernel = w.kernel.modifyThread t (·.setTop (f.behind m i c)) ∧ w'.choice = none ∧
      w'.pending = w.pending := by
  obtain ⟨n, hn⟩ := execute_eq_invokeNative h
  set g : Frame := { f with operands := c.toSlots.reverse ++ f.operands.drop m.argSlots } with hg
  set w₁ : Work := { w with
    kernel := w.kernel.modifyThread t (·.setTop g), choice := none, transient := n } with hw₁
  have hexecute : execute p t i w = .ok (.goto i.nextIndex) w₁ := by
    rw [hn]
    exact Call.invokeNative_of_choice (w := { w with transient := n }) h.top h.source.source hc hargs
      hresult
  have htop : w₁.kernel.topFrame t = .ok g := by
    obtain ⟨th, fs, hth, hframes⟩ := Kernel.topFrame_eq_ok.mp h.top
    refine Kernel.topFrame_eq_ok.mpr ⟨th.setTop g, th.frames.tail, ?_, rfl⟩
    rw [hw₁, Kernel.getElem?_modifyThread, if_pos rfl, hth]
    rfl
  refine ⟨{ w₁ with kernel := w₁.kernel.modifyThread t (·.setTop (f.behind m i c)) }, ?_, ?_, rfl,
    rfl⟩
  · unfold perform
    rw [bind_of_ok hexecute]
    refine bind_eq_ok.mpr ⟨(), _, onFrame_eq_ok.mpr ⟨g, _, htop, rfl, rfl⟩, rfl⟩
  · exact Kernel.modifyThread_setTop _ _ _ _

end Step

end Interleave

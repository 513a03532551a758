import Interleave.Proofs.Descriptors
import Interleave.Proofs.Step.Advance
import Interleave.Proofs.Step.Floors

/-!
# The calling convention

The arguments of a call stand on the operand stack of the caller in order, the receiver below them,
and a wide one is followed by padding. They become the first locals of the callee just as they
stand. So the place of an argument among the locals depends on the kinds of the arguments before it,
and nothing but padding comes between arguments.

A return takes as many slots as the result has, if it is the return for the kind of the result.
-/

namespace Interleave

open Effect

/-! ## Rows of arguments -/

namespace TypeCode

/-- A value as it stands on the operand stack, in the order of pushing. -/
def padded (c : TypeCode) (v : Slot) : List Slot := if c.slotSize = 2 then [v, 0] else [v]

/-- Values one after another. -/
def row (cs : List TypeCode) (vs : List Slot) : List Slot := (List.zipWith padded cs vs).flatten

/-- Where a value begins in a row. -/
def offset (cs : List TypeCode) (j : Nat) : Nat := sumOf ((cs.take j).map slotSize)

variable {c : TypeCode} {cs : List TypeCode} {vs : List Slot}

theorem length_padded (hc : c ≠ .void) (v : Slot) : (c.padded v).length = c.slotSize := by
  cases c <;> first | rfl | exact absurd rfl hc

theorem row_cons (c : TypeCode) (cs : List TypeCode) (v : Slot) (vs : List Slot) :
    row (c :: cs) (v :: vs) = c.padded v ++ row cs vs := by
  simp [row]

theorem offset_succ (c : TypeCode) (cs : List TypeCode) (j : Nat) :
    offset (c :: cs) (j + 1) = c.slotSize + offset cs j := by
  simp [offset]

/-- A row is as long as its values are together. -/
theorem length_row (hvoid : .void ∉ cs) (hlength : vs.length = cs.length) :
    (row cs vs).length = sumOf (cs.map slotSize) := by
  induction cs generalizing vs with
  | nil => simp [row]
  | cons c cs ih =>
    obtain ⟨hc, hcs⟩ : .void ≠ c ∧ .void ∉ cs := by simpa using hvoid
    cases vs with
    | nil => simp at hlength
    | cons v vs =>
      rw [row_cons, List.length_append, length_padded (Ne.symm hc), List.map_cons, sumOf_cons,
        ih hcs (by simpa using hlength)]

/-- A value stands where the sizes of those before it say. -/
theorem getElem?_row (hvoid : .void ∉ cs) (hlength : vs.length = cs.length) {j : Nat} {v : Slot}
    (hv : vs[j]? = some v) : (row cs vs)[offset cs j]? = some v := by
  induction cs generalizing vs j with
  | nil => simp [List.length_eq_zero_iff.mp hlength] at hv
  | cons c cs ih =>
    obtain ⟨hc, hcs⟩ : .void ≠ c ∧ .void ∉ cs := by simpa using hvoid
    cases vs with
    | nil => simp at hv
    | cons u vs =>
      rw [row_cons]
      cases j with
      | zero =>
        obtain rfl : u = v := by simpa using hv
        unfold padded
        split <;> rfl
      | succ j =>
        rw [offset_succ, ← length_padded (Ne.symm hc) u, List.getElem?_append_right (by omega),
          Nat.add_sub_cancel_left]
        exact ih hcs (by simpa using hlength) (by simpa using hv)

/-- Everything else in a row is padding. -/
theorem eq_zero_of_getElem?_row (hvoid : .void ∉ cs) (hlength : vs.length = cs.length) {n : Nat}
    {v : Slot} (hv : (row cs vs)[n]? = some v) (hn : ∀ j < vs.length, n ≠ offset cs j) : v = 0 := by
  induction cs generalizing vs n with
  | nil => simp [row] at hv
  | cons c cs ih =>
    obtain ⟨hc, hcs⟩ : .void ≠ c ∧ .void ∉ cs := by simpa using hvoid
    cases vs with
    | nil => simp at hlength
    | cons u vs =>
      rw [row_cons] at hv
      have hpositive : n ≠ 0 := hn 0 (by simp)
      by_cases hlt : n < (c.padded u).length
      · rw [List.getElem?_append_left hlt] at hv
        unfold padded at hlt hv
        split at hv
        · rename_i hwide
          rw [if_pos hwide] at hlt
          obtain rfl : n = 1 := by simp at hlt; omega
          simpa using hv.symm
        · rename_i hnarrow
          rw [if_neg hnarrow] at hlt
          simp at hlt
          omega
      · rw [List.getElem?_append_right (by omega)] at hv
        rw [length_padded (Ne.symm hc)] at hlt hv
        refine ih hcs (by simpa using hlength) hv fun j hj hoffset => ?_
        refine hn (j + 1) (by simpa using hj) ?_
        rw [offset_succ]
        omega

end TypeCode

/-! ## Entering -/

namespace Method

variable {m : Method} {s : Signature} {v₀ : Slot} {vs : List Slot}

theorem parts_of_parse (h : Signature.parse m.signature = .ok s) : m.parts = s := by
  simp [parts, h]

/-- The receiver of a method as it is passed, if there is one. -/
def receiverRow (m : Method) (v₀ : Slot) : List Slot := if m.isStatic then [] else [v₀]

/-- What the caller of a method pushes. -/
def passed (m : Method) (v₀ : Slot) (vs : List Slot) : List Slot :=
  m.receiverRow v₀ ++ TypeCode.row m.argCodes vs

theorem length_receiverRow (m : Method) (v₀ : Slot) :
    (m.receiverRow v₀).length = m.receiverSlots := by
  unfold receiverRow receiverSlots
  split <;> rfl

theorem argCodes_of_parse (h : Signature.parse m.signature = .ok s) : m.argCodes = s.argCodes := by
  rw [argCodes, parts_of_parse h]

theorem passed_of_parse (h : Signature.parse m.signature = .ok s) :
    m.passed v₀ vs = m.receiverRow v₀ ++ TypeCode.row s.argCodes vs := by
  rw [passed, argCodes_of_parse h]

theorem length_passed (h : Signature.parse m.signature = .ok s)
    (hlength : vs.length = s.argCodes.length) : (m.passed v₀ vs).length = m.argSlots := by
  rw [passed_of_parse h, List.length_append, length_receiverRow,
    TypeCode.length_row (Signature.void_notMem_argCodes h) hlength, argSlots, parts_of_parse h,
    Signature.argSlots, Nat.add_comm]

end Method

/-- A frame has just been entered with these arguments. -/
structure Frame.EnteredWith (g : Frame) (m : Method) (s : Signature) (v₀ : Slot) (vs : List Slot) :
    Prop where
  method : g.method = m
  pc : g.pc = 0
  operands : g.operands = []
  receiver : g.receiver = if m.isStatic then .null else .ofSlot v₀
  /-- There are as many locals as the method asks for, or more if the arguments need more. -/
  size : g.locals.size = max m.maxLocals m.argSlots
  /-- The first local of an instance method is its receiver. -/
  this : m.isStatic = false → g.locals[0]? = some v₀
  /-- An argument comes behind the receiver and the arguments before it. -/
  args : ∀ j v, vs[j]? = some v →
    g.locals[m.receiverSlots + TypeCode.offset s.argCodes j]? = some v
  /-- All other locals are zero. -/
  others : ∀ n v, g.locals[n]? = some v → (m.isStatic = false → n ≠ 0) →
    (∀ j < vs.length, n ≠ m.receiverSlots + TypeCode.offset s.argCodes j) → v = 0

namespace Call

variable {p : Program} {t : ThreadId} {i : Instruction} {w w' : Work} {f : Frame}
  {rest : List Frame} {m : Method} {s : Signature} {v₀ : Slot} {vs below : List Slot}

/-- The frame of a method whose arguments have been moved in. -/
def activation (m : Method) (receiver : ObjRef) (args : List Slot) : Frame :=
  { Frame.enter m receiver with
    locals := args.toArray ++ Array.replicate (m.maxLocals - args.length) 0 }

theorem getElem?_locals_activation (m : Method) (receiver : ObjRef) (args : List Slot) (n : Nat) :
    (activation m receiver args).locals[n]? =
      (args ++ List.replicate (m.maxLocals - args.length) (0 : Slot))[n]? := by
  rw [← Array.getElem?_toList]
  simp [activation]

/-- The receiver and the arguments are moved into the locals as they stand. -/
theorem enteredWith_activation (h : Signature.parse m.signature = .ok s)
    (hlength : vs.length = s.argCodes.length) :
    (activation m (if m.isStatic then .null else .ofSlot v₀) (m.passed v₀ vs)).EnteredWith m s v₀
      vs where
  method := rfl
  pc := rfl
  operands := rfl
  receiver := rfl
  size := by
    have hsize : (m.passed v₀ vs).length = m.argSlots := Method.length_passed h hlength
    rw [← hsize, activation, Array.size_append, Array.size_replicate, List.size_toArray]
    omega
  this hdynamic := by
    rw [getElem?_locals_activation, Method.passed, Method.receiverRow, hdynamic]
    rfl
  args j v hv := by
    have hrow := TypeCode.getElem?_row (Signature.void_notMem_argCodes h) hlength hv
    obtain ⟨hlt, -⟩ := List.getElem?_eq_some_iff.mp hrow
    rw [getElem?_locals_activation, Method.passed_of_parse h, List.append_assoc,
      ← Method.length_receiverRow m v₀, List.getElem?_append_right (Nat.le_add_right _ _),
      Nat.add_sub_cancel_left]
    rwa [List.getElem?_append_left hlt]
  others n v hv hthis hargs := by
    rw [getElem?_locals_activation, Method.passed_of_parse h, List.append_assoc] at hv
    have hbehind : m.receiverSlots ≤ n := by
      unfold Method.receiverSlots
      split
      · exact Nat.zero_le n
      · rename_i hdynamic
        exact Nat.pos_of_ne_zero (hthis (by simpa using hdynamic))
    rw [← Method.length_receiverRow m v₀] at hbehind hargs
    rw [List.getElem?_append_right hbehind] at hv
    by_cases hlt : n - (m.receiverRow v₀).length < (TypeCode.row s.argCodes vs).length
    · rw [List.getElem?_append_left hlt] at hv
      refine TypeCode.eq_zero_of_getElem?_row (Signature.void_notMem_argCodes h) hlength hv
        fun j hj hoffset => ?_
      have hne := hargs j hj
      omega
    · rw [List.getElem?_append_right (by omega)] at hv
      exact List.eq_of_mem_replicate (List.mem_of_getElem? hv)

/-- The arguments of a method are taken from the operand stack of its caller. -/
theorem frames_of_moveIn {receiver : ObjRef} {u : Unit} (hfs : w.kernel.frames t = f :: rest)
    (h : moveIn t m receiver w = .ok u w') :
    w'.kernel.frames t = activation m receiver (f.operands.take m.argSlots).reverse ::
      { f with operands := f.operands.drop m.argSlots } :: rest := by
  unfold moveIn at h
  obtain ⟨args, w₁, hpop, h⟩ := bind_eq_ok.mp h
  obtain ⟨g, g', rest', hg, hslots, hframes₁⟩ := Step.onFrame_frames hpop
  obtain ⟨rfl, rfl⟩ := List.cons.inj (hfs.symm.trans hg)
  obtain ⟨-, rfl, rfl⟩ := Frame.popSlots_eq_ok.mp hslots
  simp only [bind_eq_ok, Step.note_eq_ok, Step.pushFrame_eq_ok, Step.emit_eq_ok] at h
  obtain ⟨_, _, rfl, _, _, ⟨⟨th, hth⟩, rfl⟩, rfl⟩ := h
  refine (Kernel.frames_modifyThread hth _).trans ?_
  rw [Kernel.frames_of_getElem? hth] at hframes₁
  rw [Thread.pushFrame, hframes₁]
  rfl

theorem receiver_eq (hparse : Signature.parse m.signature = .ok s)
    (hlength : vs.length = s.argCodes.length)
    (hstack : f.operands = (below ++ m.passed v₀ vs).reverse) {r : ObjRef}
    (h : Receiver f m r) : r = if m.isStatic then .null else .ofSlot v₀ := by
  unfold Receiver at h
  by_cases hstatic : m.isStatic = true
  · rwa [if_pos hstatic] at h ⊢
  · rw [if_neg hstatic] at h ⊢
    obtain ⟨v, hv, rfl⟩ := Frame.peekRef_eq_ok.mp h
    have hpassed : m.passed v₀ vs = v₀ :: TypeCode.row m.argCodes vs := by
      rw [Method.passed, Method.receiverRow, if_neg hstatic, List.singleton_append]
    rw [hstack, ← Method.length_passed hparse hlength, hpassed] at hv
    -- the receiver stands below all arguments
    obtain rfl : v₀ = v := by simpa using hv
    rfl

/-- What stands on the operand stack of the caller becomes a frame. -/
theorem frames_of_enter (hfs : w.kernel.frames t = f :: rest)
    (hparse : Signature.parse m.signature = .ok s) (hlength : vs.length = s.argCodes.length)
    (hstack : f.operands = (below ++ m.passed v₀ vs).reverse)
    (h : enter t m w = .ok .entered w') :
    w'.kernel.frames t =
      activation m (if m.isStatic then .null else .ofSlot v₀) (m.passed v₀ vs) ::
        { f with operands := below.reverse } :: rest := by
  unfold enter at h
  obtain ⟨r, w₁, hreceiver, htries⟩ := bind_eq_ok.mp h
  obtain ⟨hw₁, hr⟩ := receiver_eq_ok hreceiver
  replace hr := receiver_eq hparse hlength hstack (hr f (Kernel.topFrame_eq_ok_iff.mpr ⟨rest, hfs⟩))
  obtain ⟨refused, w₂, hacquire, hmoves⟩ := bind_eq_ok.mp htries
  rcases acquire_eq_ok hacquire with ⟨_, _, rfl, -⟩ | ⟨heap, cs, rfl, -, -, hbecomes⟩
  · obtain ⟨_, _, -, hnoted⟩ := bind_eq_ok.mp hmoves
    obtain ⟨_, _, -, hblocked⟩ := bind_eq_ok.mp hnoted
    cases (pure_eq_ok.mp hblocked).1
  · obtain ⟨u, w₃, hmove, hentered⟩ := bind_eq_ok.mp hmoves
    obtain ⟨-, rfl⟩ := pure_eq_ok.mp hentered
    have hframes : w₂.kernel.frames t = f :: rest := by
      rw [hbecomes.kernel, hw₁]
      exact hfs
    have hsplit : f.operands = (m.passed v₀ vs).reverse ++ below.reverse := by
      rw [hstack, List.reverse_append]
    have hcount : m.argSlots = (m.passed v₀ vs).reverse.length := by
      rw [List.length_reverse, Method.length_passed hparse hlength]
    rw [frames_of_moveIn hframes hmove, hr, hcount, hsplit, List.take_left, List.drop_left,
      List.reverse_reverse]

theorem enter_of_enterFlow (h : enterFlow t m w = .ok .called w') :
    enter t m w = .ok .entered w' := by
  obtain ⟨e, w₁, henter, hflow⟩ := bind_eq_ok.mp h
  cases e with
  | entered =>
    obtain ⟨-, rfl⟩ := pure_eq_ok.mp hflow
    exact henter
  | blocked r => cases (pure_eq_ok.mp hflow).1

/-- The method that a call lands in is entered, if it has a body. -/
theorem exists_enter_of_callMethod (htop : w.kernel.topFrame t = .ok f)
    (hm : p.callTarget w.kernel f i = .ok (some m)) (habstract : m.isAbstract = false)
    (hnative : m.isNative = false) (h : callMethod p t i w = .ok .called w') :
    ∃ w₁, w₁.kernel = w.kernel ∧ enter t m w₁ = .ok .entered w' := by
  unfold callMethod at h
  simp only [Step.frame_bind_eq_ok, Step.kernel_bind_eq_ok, Step.lift_bind_eq_ok, htop, hm,
    Except.ok.injEq, exists_eq_left'] at h
  obtain ⟨_, w₁, hnote, h⟩ := bind_eq_ok.mp h
  obtain rfl := Step.note_eq_ok.mp hnote
  simp only [habstract, hnative, Bool.false_eq_true, if_false] at h
  refine ⟨_, ?_, enter_of_enterFlow h⟩
  rfl

theorem exists_enter_of_invoke (htop : w.kernel.topFrame t = .ok f)
    (hm : p.callTarget w.kernel f i = .ok (some m)) (habstract : m.isAbstract = false)
    (hnative : m.isNative = false) (h : invoke p t i w = .ok .called w') :
    ∃ w₁, w₁.kernel.frames t = w.kernel.frames t ∧ enter t m w₁ = .ok .entered w' := by
  unfold invoke at h
  by_cases hstatic : i.op = .invokeStatic
  · simp only [hstatic, if_true, Step.lift_bind_eq_ok] at h
    obtain ⟨r, hr, c, hc, h⟩ := h
    obtain ⟨pushed, w₁, hinit, h⟩ := bind_eq_ok.mp h
    cases pushed with
    | true => cases (pure_eq_ok.mp h).1
    | false =>
      -- checking the class changes neither frames nor objects
      obtain ⟨hsettles, -⟩ := initializeClass?_eq_ok_false hinit
      have hm₁ : p.callTarget w₁.kernel f i = .ok (some m) :=
        Kernel.callTarget_of_objects (fun r o ho => ⟨o, hsettles.heap ▸ ho, rfl⟩) hm
      obtain ⟨w₂, hw₂, henter⟩ := exists_enter_of_callMethod
        ((Kernel.topFrame_congr hsettles.threads t).trans htop) hm₁ habstract hnative h
      exact ⟨w₂, hw₂ ▸ Kernel.frames_congr hsettles.threads t, henter⟩
  · simp only [hstatic, if_false] at h
    obtain ⟨w₁, hw₁, henter⟩ := exists_enter_of_callMethod htop hm habstract hnative h
    exact ⟨w₁, hw₁ ▸ rfl, henter⟩

end Call

/-! ## Returning -/

/-- Is this the return for results of a kind? A float takes one slot and goes back like an int. -/
def Opcode.returns (op : Opcode) (c : TypeCode) : Bool :=
  match op with
  | .voidReturn => c == .void
  | .iReturn => c.isIntLike || c == .float
  | .lReturn => c == .long
  | .dReturn => c == .double
  | .aReturn => c.isReference
  | _ => false

theorem Opcode.returnSlots_of_returns {op : Opcode} {c : TypeCode} (h : op.returns c = true) :
    op.isReturn = true ∧ Call.returnSlots op = c.slotSize := by
  unfold returns at h
  split at h <;> cases c <;> first | exact ⟨rfl, rfl⟩ | cases h

namespace Step

variable {p : Program} {t : ThreadId} {i : Instruction} {w w' : Work} {out : Outcome} {f g : Frame}
  {rest : List Frame}

theorem frames_of_called {m : Method} {s : Signature} {v₀ : Slot} {vs below : List Slot}
    (hfs : w.kernel.frames t = f :: rest) (hop : i.op.isInvoke = true)
    (hm : p.callTarget w.kernel f i = .ok (some m)) (habstract : m.isAbstract = false)
    (hnative : m.isNative = false) (hparse : Signature.parse m.signature = .ok s)
    (hlength : vs.length = s.argCodes.length)
    (hstack : f.operands = (below ++ m.passed v₀ vs).reverse)
    (h : execute p t i w = .ok .called w') : ∃ callee, callee.EnteredWith m s v₀ vs ∧
      w'.kernel.frames t = callee :: { f with operands := below.reverse } :: rest := by
  rw [execute_of_isInvoke hop] at h
  obtain ⟨w₁, hw₁, henter⟩ := Call.exists_enter_of_invoke
    (Kernel.topFrame_eq_ok_iff.mpr ⟨rest, hfs⟩) hm habstract hnative h
  exact ⟨_, Call.enteredWith_activation hparse hlength,
    Call.frames_of_enter (hw₁.trans hfs) hparse hlength hstack henter⟩

theorem execute_of_isReturn (hop : i.op.isReturn = true) : execute p t i = Call.doReturn t i := by
  unfold execute
  split <;> simp_all [Opcode.isReturn]

/-- A caller gets the result on top of its operands, and goes on behind its call. -/
theorem frames_of_returned (hop : i.op.isReturn = true)
    (hfs : w.kernel.frames t = f :: g :: rest) (h : perform p t i w = .ok out w') :
    out = .running ∧ Call.returnSlots i.op ≤ f.operands.length ∧ w'.kernel.frames t = { g with
      operands := f.operands.take (Call.returnSlots i.op) ++ g.operands
      pc := g.pc + 1 } :: rest := by
  obtain ⟨flow, w₁, hexecute, hfollow⟩ := bind_eq_ok.mp h
  rw [execute_of_isReturn hop] at hexecute
  obtain ⟨f', rest', hframes, henough, hleft⟩ := Call.doReturn_frames hexecute
  obtain ⟨rfl, rfl⟩ := List.cons.inj (hfs.symm.trans hframes)
  rcases hleft with ⟨-, hnil, -⟩ | ⟨rfl, g', rest', hrest, hleft⟩
  · cases hnil
  · obtain ⟨rfl, rfl⟩ := List.cons.inj hrest
    obtain ⟨rfl, rfl⟩ := pure_eq_ok.mp hfollow
    exact ⟨rfl, henough, hleft⟩

end Step

end Interleave

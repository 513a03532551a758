import Interleave.Proofs.Machine.Commuting
import Interleave.Proofs.Step.Places
import Mathlib.Algebra.Group.Int.Defs
import Mathlib.Algebra.Group.Nat.Defs

/-!
# Integer arithmetic is exact

What an instruction computes on ints and longs is given here on exact integers: the operands are
the numbers that the slots hold in two's complement, the result is the exact one, and it is wrapped
to the width of the type when it is kept. Slots are any words of 64 bits; an int is read from the
low half of one and kept as the sign extension of 32 bits, so that equal ints are equal slots.
-/

namespace Interleave

open Effect

namespace Slot

/-! ## Numbers in slots -/

/-- The number that the low half of a slot holds in two's complement. -/
def intValue (s : Slot) : Int := (s.toNat : Int).bmod (2 ^ 32)

/-- The number that a slot holds in two's complement. -/
def longValue (s : Slot) : Int := (s.toNat : Int).bmod (2 ^ 64)

/-- The slot is the sign extension of its low half. -/
def IsCanonical (s : Slot) : Prop := (s.toBitVec.setWidth 32).signExtend 64 = s.toBitVec

instance (s : Slot) : Decidable s.IsCanonical :=
  inferInstanceAs (Decidable ((s.toBitVec.setWidth 32).signExtend 64 = s.toBitVec))

/-- The slot keeps an int: a number wrapped to 32 bits. -/
structure KeepsInt (s : Slot) (n : Int) : Prop where
  canonical : s.IsCanonical
  value : s.intValue = n.bmod (2 ^ 32)

/-- The slot keeps a long: a number wrapped to 64 bits. -/
def KeepsLong (s : Slot) (n : Int) : Prop := s.longValue = n.bmod (2 ^ 64)

variable {s s' : Slot} {n : Int}

theorem toInt_toInt (s : Slot) : (toInt s).toInt = s.intValue := by
  have hlow : (toInt s).toInt = s.toUInt32.toBitVec.toInt := rfl
  rw [hlow, UInt64.toBitVec_toUInt32, BitVec.toInt_setWidth, UInt64.toNat_toBitVec]
  rfl

theorem toInt_toLong (s : Slot) : (toLong s).toInt = s.longValue := by
  have hlong : (toLong s).toInt = s.toBitVec.toInt := rfl
  rw [hlong, BitVec.toInt_eq_toNat_bmod, UInt64.toNat_toBitVec]
  rfl

theorem toBitVec_ofInt (v : Int32) : (ofInt v).toBitVec = v.toBitVec.signExtend 64 := rfl

theorem toBitVec_toInt (s : Slot) : (toInt s).toBitVec = s.toBitVec.setWidth 32 :=
  UInt64.toBitVec_toUInt32 s

/-- Reading back what was kept. -/
theorem toInt_ofInt (v : Int32) : toInt (ofInt v) = v := by
  rw [← Int32.toBitVec_inj, toBitVec_toInt, toBitVec_ofInt]
  ext i hi
  rw [BitVec.getElem_setWidth, BitVec.getLsbD_signExtend]
  simp [hi, Nat.lt_trans hi (by decide : 32 < 64)]

theorem isCanonical_ofInt (v : Int32) : (ofInt v).IsCanonical := by
  rw [IsCanonical, ← toBitVec_toInt, toInt_ofInt, toBitVec_ofInt]

/-- A canonical slot is how the int in it is kept. -/
theorem IsCanonical.eq_ofInt (h : s.IsCanonical) : s = ofInt (toInt s) := by
  rw [← UInt64.toBitVec_inj, toBitVec_ofInt, toBitVec_toInt]
  exact h.symm

/-- Equal ints are equal slots. -/
theorem IsCanonical.eq_of_intValue (h : s.IsCanonical) (h' : s'.IsCanonical)
    (hvalue : s.intValue = s'.intValue) : s = s' := by
  have hints : toInt s = toInt s' := by
    rw [← Int32.toInt_inj, toInt_toInt, toInt_toInt, hvalue]
  rw [h.eq_ofInt, h'.eq_ofInt, hints]

theorem keepsInt_ofInt {v : Int32} (h : v.toInt = n.bmod (2 ^ 32)) : (ofInt v).KeepsInt n where
  canonical := isCanonical_ofInt v
  value := by rw [← toInt_toInt, toInt_ofInt, h]

theorem keepsLong_ofLong {v : Int64} (h : v.toInt = n.bmod (2 ^ 64)) : (ofLong v).KeepsLong n := by
  rw [KeepsLong, ← toInt_toLong]
  exact h

end Slot

namespace Local

/-! ## Instructions on integers -/

/-- The exact result of an operation on two numbers. Quotients are truncated toward zero. -/
def exactResult (op : Opcode) (a b : Int) : Int :=
  match op with
  | .iAdd | .lAdd => a + b
  | .iSub | .lSub => a - b
  | .iMul | .lMul => a * b
  | .iDiv | .lDiv => a.tdiv b
  | _ => a.tmod b

/-- The operations on two ints. -/
def intOps : List Opcode := [.iAdd, .iSub, .iMul, .iDiv, .iRem]

/-- The operations on two longs. -/
def longOps : List Opcode := [.lAdd, .lSub, .lMul, .lDiv]

/-- The operations that divide by their second operand. -/
def divisions : List Opcode := [.iDiv, .iRem, .lDiv]

/-- What an instruction on integers makes of a frame, on exact numbers. The operands are any slots;
a long has its value below a slot that is not looked at. -/
inductive Computes (i : Instruction) (f : Frame) : LocalFlow → Frame → Prop where
  | ints {a b s : Slot} {rest : List Slot} (hop : i.op ∈ intOps)
    (hoperands : f.operands = b :: a :: rest) (hdivisor : i.op ∈ divisions → b.intValue ≠ 0)
    (hs : s.KeepsInt (exactResult i.op a.intValue b.intValue)) :
    Computes i f (.goto i.nextIndex) { f with operands := s :: rest }
  | longs {a b s low high : Slot} {rest : List Slot} (hop : i.op ∈ longOps)
    (hoperands : f.operands = high :: b :: low :: a :: rest)
    (hdivisor : i.op ∈ divisions → b.longValue ≠ 0)
    (hs : s.KeepsLong (exactResult i.op a.longValue b.longValue)) :
    Computes i f (.goto i.nextIndex) { f with operands := 0 :: s :: rest }
  | intByZero {a b : Slot} {rest : List Slot} (hop : i.op ∈ intOps) (hdivides : i.op ∈ divisions)
    (hoperands : f.operands = b :: a :: rest) (hzero : b.intValue = 0) :
    Computes i f (.raise "java/lang/ArithmeticException" (some "/ by zero"))
      { f with operands := rest }
  | longByZero {a b low high : Slot} {rest : List Slot} (hop : i.op ∈ longOps)
    (hdivides : i.op ∈ divisions) (hoperands : f.operands = high :: b :: low :: a :: rest)
    (hzero : b.longValue = 0) :
    Computes i f (.raise "java/lang/ArithmeticException" (some "/ by zero"))
      { f with operands := rest }
  | negated {a s : Slot} {rest : List Slot} (hop : i.op = .iNeg)
    (hoperands : f.operands = a :: rest) (hs : s.KeepsInt (-a.intValue)) :
    Computes i f (.goto i.nextIndex) { f with operands := s :: rest }
  | incremented {v s : Slot} {slot : Nat} {amount : Int32} (hop : i.op = .iInc)
    (hincrement : i.increment = .ok (slot, amount)) (hlocal : f.locals[slot]? = some v)
    (hs : s.KeepsInt (v.intValue + amount.toInt)) :
    Computes i f (.goto i.nextIndex) { f with locals := f.locals.setIfInBounds slot s }
  | widened {a s : Slot} {rest : List Slot} (hop : i.op = .i2L)
    (hoperands : f.operands = a :: rest) (hs : s.KeepsLong a.intValue) :
    Computes i f (.goto i.nextIndex) { f with operands := 0 :: s :: rest }
  | narrowed {a s high : Slot} {rest : List Slot} (hop : i.op = .l2I)
    (hoperands : f.operands = high :: a :: rest) (hs : s.KeepsInt a.longValue) :
    Computes i f (.goto i.nextIndex) { f with operands := s :: rest }
  | compared {a b s low high : Slot} {rest : List Slot} (hop : i.op = .lCmp)
    (hoperands : f.operands = high :: b :: low :: a :: rest)
    (hs : s.KeepsInt (a.longValue - b.longValue).sign) :
    Computes i f (.goto i.nextIndex) { f with operands := s :: rest }

/-- The instructions on integers. -/
def integerOps : List Opcode := intOps ++ longOps ++ [.iNeg, .iInc, .i2L, .l2I, .lCmp]

/-- The slots that an instruction on integers takes off the operand stack. -/
def operandSlots : Opcode → Nat
  | .iAdd | .iSub | .iMul | .iDiv | .iRem | .l2I => 2
  | .lAdd | .lSub | .lMul | .lDiv | .lCmp => 4
  | .iNeg | .i2L => 1
  | _ => 0

/-- The frame has what an instruction on integers works on. -/
structure Supplies (f : Frame) (i : Instruction) : Prop where
  operands : operandSlots i.op ≤ f.operands.length
  incremented : i.op = .iInc →
    ∃ slot amount, i.increment = .ok (slot, amount) ∧ slot < f.locals.size

variable {i : Instruction} {f f' : Frame} {a b : Slot} {rest : List Slot}

theorem popInt_of_cons (h : f.operands = a :: rest) :
    Frame.popInt f = .ok (Slot.toInt a) { f with operands := rest } :=
  Frame.popInt_eq_ok.mpr ⟨a, rest, h, rfl, rfl⟩

theorem popLong_of_cons {high : Slot} (h : f.operands = high :: a :: rest) :
    Frame.popLong f = .ok (Slot.toLong a) { f with operands := rest } := by
  have hhigh : Frame.pop f = .ok high { f with operands := a :: rest } :=
    Frame.pop_eq_ok.mpr ⟨a :: rest, h, rfl⟩
  have hvalue : Frame.popWide f = .ok a { f with operands := rest } := by
    unfold Frame.popWide
    rw [bind_of_ok hhigh]
    rfl
  unfold Frame.popLong
  rw [bind_of_ok hvalue]
  rfl

/-- A division by zero has no result, and every other operation has the exact one. -/
theorem intResult_spec {op : Opcode} (hop : op ∈ intOps) (a b : Int32) :
    (op ∈ divisions ∧ b = 0 ∧ intResult op a b = none) ∨
      (op ∈ divisions → b ≠ 0) ∧ ∃ v, intResult op a b = some v ∧
        v.toInt = (exactResult op a.toInt b.toInt).bmod (2 ^ 32) := by
  simp only [intOps, List.mem_cons, List.not_mem_nil, or_false] at hop
  rcases hop with rfl | rfl | rfl | rfl | rfl
  · exact .inr ⟨fun h => absurd h (by decide), _, rfl, Int32.toInt_add a b⟩
  · exact .inr ⟨fun h => absurd h (by decide), _, rfl, Int32.toInt_sub a b⟩
  · exact .inr ⟨fun h => absurd h (by decide), _, rfl, Int32.toInt_mul a b⟩
  · by_cases hb : b = 0
    · exact .inl ⟨by decide, hb, if_pos hb⟩
    · exact .inr ⟨fun _ => hb, _, if_neg hb, Int32.toInt_div a b⟩
  · by_cases hb : b = 0
    · exact .inl ⟨by decide, hb, if_pos hb⟩
    · refine .inr ⟨fun _ => hb, _, if_neg hb, ?_⟩
      have hexact : exactResult .iRem a.toInt b.toInt = (a % b).toInt := (Int32.toInt_mod a b).symm
      rw [hexact]
      exact (Int32.toInt_bmod_size _).symm

/-- The same for longs. -/
theorem longResult_spec {op : Opcode} (hop : op ∈ longOps) (a b : Int64) :
    (op ∈ divisions ∧ b = 0 ∧ longResult op a b = none) ∨
      (op ∈ divisions → b ≠ 0) ∧ ∃ v, longResult op a b = some v ∧
        v.toInt = (exactResult op a.toInt b.toInt).bmod (2 ^ 64) := by
  simp only [longOps, List.mem_cons, List.not_mem_nil, or_false] at hop
  rcases hop with rfl | rfl | rfl | rfl
  · exact .inr ⟨fun h => absurd h (by decide), _, rfl, Int64.toInt_add a b⟩
  · exact .inr ⟨fun h => absurd h (by decide), _, rfl, Int64.toInt_sub a b⟩
  · exact .inr ⟨fun h => absurd h (by decide), _, rfl, Int64.toInt_mul a b⟩
  · by_cases hb : b = 0
    · exact .inl ⟨by decide, hb, if_pos hb⟩
    · exact .inr ⟨fun _ => hb, _, if_neg hb, Int64.toInt_div a b⟩

/-- The result of a comparison is the sign of the exact difference. -/
theorem compareLongs_toInt (a b : Int64) :
    (compareLongs a b).toInt = ((a.toInt - b.toInt).sign).bmod (2 ^ 32) := by
  have hless : a < b ↔ a.toInt < b.toInt := Int64.lt_iff_toInt_lt
  unfold compareLongs
  rcases Int.lt_trichotomy a.toInt b.toInt with hlt | heq | hgt
  · rw [if_pos (hless.mpr hlt), Int.sign_eq_neg_one_of_neg (by omega)]
    decide
  · rw [if_neg (mt hless.mp (by omega)), if_pos (Int64.toInt_inj.mp heq), heq, Int.sub_self]
    decide
  · have hne : a ≠ b := by
      rintro rfl
      omega
    rw [if_neg (mt hless.mp (by omega)), if_neg hne, Int.sign_eq_one_of_pos (by omega)]
    decide

/-- Two ints are taken off the operand stack, and the result is put on it. -/
theorem execute_ints (hop : i.op ∈ intOps) (h : f.operands = b :: a :: rest) :
    execute i f = match intResult i.op (Slot.toInt a) (Slot.toInt b) with
      | some v => .ok (.goto i.nextIndex) { f with operands := Slot.ofInt v :: rest }
      | none => .ok divisionByZero { f with operands := rest } := by
  have hb := popInt_of_cons h
  have ha : Frame.popInt { f with operands := a :: rest } =
      .ok (Slot.toInt a) { f with operands := rest } := rfl
  simp only [intOps, List.mem_cons, List.not_mem_nil, or_false] at hop
  unfold execute
  rcases hop with hop | hop | hop | hop | hop
  all_goals
    rw [hop]
    dsimp only
    rw [bind_of_ok hb, bind_of_ok ha]
    cases intResult _ (Slot.toInt a) (Slot.toInt b) <;> rfl

/-- Two longs are taken off the operand stack, and the result is put on it. -/
theorem execute_longs {low high : Slot} (hop : i.op ∈ longOps)
    (h : f.operands = high :: b :: low :: a :: rest) :
    execute i f = match longResult i.op (Slot.toLong a) (Slot.toLong b) with
      | some v => .ok (.goto i.nextIndex) { f with operands := 0 :: Slot.ofLong v :: rest }
      | none => .ok divisionByZero { f with operands := rest } := by
  have hb := popLong_of_cons h
  have ha : Frame.popLong { f with operands := low :: a :: rest } =
      .ok (Slot.toLong a) { f with operands := rest } := rfl
  simp only [longOps, List.mem_cons, List.not_mem_nil, or_false] at hop
  unfold execute
  rcases hop with hop | hop | hop | hop
  all_goals
    rw [hop]
    dsimp only
    rw [bind_of_ok hb, bind_of_ok ha]
    cases longResult _ (Slot.toLong a) (Slot.toLong b) <;> rfl

/-! ## What they compute -/

theorem intValue_ne_zero (h : Slot.toInt a ≠ 0) : a.intValue ≠ 0 := by
  rw [← Slot.toInt_toInt, ← Int32.toInt_zero]
  exact mt Int32.toInt_inj.mp h

theorem longValue_ne_zero (h : Slot.toLong a ≠ 0) : a.longValue ≠ 0 := by
  rw [← Slot.toInt_toLong, ← Int64.toInt_zero]
  exact mt Int64.toInt_inj.mp h

/-- An operation that does not divide by zero leaves the exact result, wrapped. -/
theorem execute_ints_exact (hop : i.op ∈ intOps) (h : f.operands = b :: a :: rest)
    (hdivisor : i.op ∈ divisions → b.intValue ≠ 0) :
    ∃ s, execute i f = .ok (.goto i.nextIndex) { f with operands := s :: rest } ∧
      s.KeepsInt (exactResult i.op a.intValue b.intValue) := by
  rw [execute_ints hop h]
  rcases intResult_spec hop (Slot.toInt a) (Slot.toInt b) with ⟨hdivides, hb, -⟩ | ⟨-, v, hr, hv⟩
  · refine absurd ?_ (hdivisor hdivides)
    rw [← Slot.toInt_toInt, hb, Int32.toInt_zero]
  · rw [hr]
    rw [Slot.toInt_toInt, Slot.toInt_toInt] at hv
    exact ⟨_, rfl, Slot.keepsInt_ofInt hv⟩

/-- A division of ints raises an exception exactly if the divisor is zero. -/
theorem execute_ints_raises (hop : i.op ∈ intOps) (hdivides : i.op ∈ divisions)
    (h : f.operands = b :: a :: rest) :
    execute i f = .ok divisionByZero { f with operands := rest } ↔ b.intValue = 0 := by
  constructor
  · intro hraise
    by_contra hb
    obtain ⟨s, hgoto, -⟩ := execute_ints_exact hop h fun _ => hb
    rw [hraise] at hgoto
    cases hgoto
  · intro hzero
    rw [execute_ints hop h]
    rcases intResult_spec hop (Slot.toInt a) (Slot.toInt b) with ⟨-, -, hr⟩ | ⟨hb, -⟩
    · rw [hr]
    · exact absurd hzero (intValue_ne_zero (hb hdivides))

theorem computes_ints (hop : i.op ∈ intOps) (h : f.operands = b :: a :: rest) :
    ∃ flow f', execute i f = .ok flow f' ∧ Computes i f flow f' := by
  by_cases hzero : i.op ∈ divisions ∧ b.intValue = 0
  · exact ⟨_, _, (execute_ints_raises hop hzero.1 h).mpr hzero.2,
      .intByZero hop hzero.1 h hzero.2⟩
  · have hdivisor : i.op ∈ divisions → b.intValue ≠ 0 := not_and.mp hzero
    obtain ⟨s, hexecute, hs⟩ := execute_ints_exact hop h hdivisor
    exact ⟨_, _, hexecute, .ints hop h hdivisor hs⟩

/-- The same for longs. -/
theorem execute_longs_exact {low high : Slot} (hop : i.op ∈ longOps)
    (h : f.operands = high :: b :: low :: a :: rest)
    (hdivisor : i.op ∈ divisions → b.longValue ≠ 0) :
    ∃ s, execute i f = .ok (.goto i.nextIndex) { f with operands := 0 :: s :: rest } ∧
      s.KeepsLong (exactResult i.op a.longValue b.longValue) := by
  rw [execute_longs hop h]
  rcases longResult_spec hop (Slot.toLong a) (Slot.toLong b) with
    ⟨hdivides, hb, -⟩ | ⟨-, v, hr, hv⟩
  · refine absurd ?_ (hdivisor hdivides)
    rw [← Slot.toInt_toLong, hb, Int64.toInt_zero]
  · rw [hr]
    rw [Slot.toInt_toLong, Slot.toInt_toLong] at hv
    exact ⟨_, rfl, Slot.keepsLong_ofLong hv⟩

theorem execute_longs_raises {low high : Slot} (hop : i.op ∈ longOps) (hdivides : i.op ∈ divisions)
    (h : f.operands = high :: b :: low :: a :: rest) :
    execute i f = .ok divisionByZero { f with operands := rest } ↔ b.longValue = 0 := by
  constructor
  · intro hraise
    by_contra hb
    obtain ⟨s, hgoto, -⟩ := execute_longs_exact hop h fun _ => hb
    rw [hraise] at hgoto
    cases hgoto
  · intro hzero
    rw [execute_longs hop h]
    rcases longResult_spec hop (Slot.toLong a) (Slot.toLong b) with ⟨-, -, hr⟩ | ⟨hb, -⟩
    · rw [hr]
    · exact absurd hzero (longValue_ne_zero (hb hdivides))

theorem computes_longs {low high : Slot} (hop : i.op ∈ longOps)
    (h : f.operands = high :: b :: low :: a :: rest) :
    ∃ flow f', execute i f = .ok flow f' ∧ Computes i f flow f' := by
  by_cases hzero : i.op ∈ divisions ∧ b.longValue = 0
  · exact ⟨_, _, (execute_longs_raises hop hzero.1 h).mpr hzero.2,
      .longByZero hop hzero.1 h hzero.2⟩
  · have hdivisor : i.op ∈ divisions → b.longValue ≠ 0 := not_and.mp hzero
    obtain ⟨s, hexecute, hs⟩ := execute_longs_exact hop h hdivisor
    exact ⟨_, _, hexecute, .longs hop h hdivisor hs⟩

theorem execute_iNeg (hop : i.op = .iNeg) (h : f.operands = a :: rest) : execute i f =
    .ok (.goto i.nextIndex) { f with operands := Slot.ofInt (-Slot.toInt a) :: rest } := by
  unfold execute
  rw [hop]
  dsimp only
  rw [bind_of_ok (popInt_of_cons h)]
  rfl

theorem execute_i2L (hop : i.op = .i2L) (h : f.operands = a :: rest) : execute i f =
    .ok (.goto i.nextIndex)
      { f with operands := 0 :: Slot.ofLong (Slot.toInt a).toInt64 :: rest } := by
  unfold execute
  rw [hop]
  dsimp only
  rw [bind_of_ok (popInt_of_cons h)]
  rfl

theorem execute_l2I {high : Slot} (hop : i.op = .l2I) (h : f.operands = high :: a :: rest) :
    execute i f = .ok (.goto i.nextIndex)
      { f with operands := Slot.ofInt (Slot.toLong a).toInt32 :: rest } := by
  unfold execute
  rw [hop]
  dsimp only
  rw [bind_of_ok (popLong_of_cons h)]
  rfl

theorem execute_lCmp {low high : Slot} (hop : i.op = .lCmp)
    (h : f.operands = high :: b :: low :: a :: rest) : execute i f = .ok (.goto i.nextIndex)
      { f with operands := Slot.ofInt (compareLongs (Slot.toLong a) (Slot.toLong b)) :: rest } := by
  unfold execute
  rw [hop]
  dsimp only
  rw [bind_of_ok (popLong_of_cons h)]
  rfl

theorem lift_of_ok {α : Type} {e : Except Fault α} {x : α} (h : e = .ok x) :
    (Frame.Action.lift e : Frame.Action α) f = .ok x f := by
  rw [h]
  rfl

theorem execute_iInc {v : Slot} {slot : Nat} {amount : Int32} (hop : i.op = .iInc)
    (hincrement : i.increment = .ok (slot, amount)) (h : f.locals[slot]? = some v) :
    execute i f = .ok (.goto i.nextIndex)
      { f with locals := f.locals.setIfInBounds slot (Slot.ofInt (Slot.toInt v + amount)) } := by
  have hlocal : f.local? slot = .ok v := by
    unfold Frame.local?
    rw [h]
  have hslot : slot < f.locals.size := (Array.getElem?_eq_some_iff.mp h).1
  have hset : Frame.setLocal slot (Slot.ofInt (Slot.toInt v + amount)) f = .ok ()
      { f with locals := f.locals.setIfInBounds slot (Slot.ofInt (Slot.toInt v + amount)) } := by
    unfold Frame.setLocal
    rw [get_bind, if_pos hslot]
    rfl
  unfold execute
  rw [hop]
  dsimp only
  rw [bind_of_ok (lift_of_ok hincrement)]
  dsimp only
  rw [get_bind, bind_of_ok (lift_of_ok hlocal), bind_of_ok hset]
  rfl

theorem exists_operand {n : Nat} {l : List Slot} (h : n + 1 ≤ l.length) :
    ∃ a rest, l = a :: rest ∧ n ≤ rest.length := by
  obtain ⟨a, rest, rfl⟩ := List.exists_cons_of_length_pos (Nat.lt_of_lt_of_le n.succ_pos h)
  exact ⟨a, rest, rfl, Nat.le_of_succ_le_succ h⟩

theorem exists_two_operands {n : Nat} (h : n + 2 ≤ f.operands.length) :
    ∃ b a rest, f.operands = b :: a :: rest ∧ n ≤ rest.length := by
  obtain ⟨b, rest, hb, hrest⟩ := exists_operand h
  obtain ⟨a, rest', ha, hrest'⟩ := exists_operand hrest
  exact ⟨b, a, rest', by rw [hb, ha], hrest'⟩

theorem exists_four_operands (h : 4 ≤ f.operands.length) :
    ∃ high b low a rest, f.operands = high :: b :: low :: a :: rest := by
  obtain ⟨high, b, rest, hb, hrest⟩ := exists_two_operands h
  obtain ⟨low, rest', hlow, hrest'⟩ := exists_operand hrest
  obtain ⟨a, rest'', ha, -⟩ := exists_operand hrest'
  exact ⟨high, b, low, a, rest'', by rw [hb, hlow, ha]⟩

/-- **Instructions on integers compute exact results.** -/
theorem exists_computes (hop : i.op ∈ integerOps) (h : Supplies f i) :
    ∃ flow f', execute i f = .ok flow f' ∧ Computes i f flow f' := by
  have hlength := h.operands
  simp only [integerOps, List.mem_append] at hop
  rcases hop with (hints | hlongs) | hop
  · have htwo : operandSlots i.op = 2 := by
      revert hints
      generalize i.op = op
      revert op
      decide
    obtain ⟨b, a, rest, hoperands, -⟩ := exists_two_operands (n := 0) (htwo ▸ hlength)
    exact computes_ints hints hoperands
  · have hfour : operandSlots i.op = 4 := by
      revert hlongs
      generalize i.op = op
      revert op
      decide
    obtain ⟨high, b, low, a, rest, hoperands⟩ := exists_four_operands (hfour ▸ hlength)
    exact computes_longs hlongs hoperands
  · simp only [List.mem_cons, List.not_mem_nil, or_false] at hop
    rcases hop with hop | hop | hop | hop | hop
    · rw [hop] at hlength
      obtain ⟨a, rest, hoperands, -⟩ := exists_operand hlength
      refine ⟨_, _, execute_iNeg hop hoperands, .negated hop hoperands (Slot.keepsInt_ofInt ?_)⟩
      rw [Int32.toInt_neg, Slot.toInt_toInt]
    · obtain ⟨slot, amount, hincrement, hslot⟩ := h.incremented hop
      have hlocal := Array.getElem?_eq_getElem hslot
      refine ⟨_, _, execute_iInc hop hincrement hlocal,
        .incremented hop hincrement hlocal (Slot.keepsInt_ofInt ?_)⟩
      rw [Int32.toInt_add, Slot.toInt_toInt]
    · rw [hop] at hlength
      obtain ⟨a, rest, hoperands, -⟩ := exists_operand hlength
      refine ⟨_, _, execute_i2L hop hoperands, .widened hop hoperands (Slot.keepsLong_ofLong ?_)⟩
      rw [← Slot.toInt_toInt, ← Int32.toInt_toInt64]
      exact (Int64.toInt_bmod_size _).symm
    · rw [hop] at hlength
      obtain ⟨high, a, rest, hoperands, -⟩ := exists_two_operands (n := 0) hlength
      refine ⟨_, _, execute_l2I hop hoperands, .narrowed hop hoperands (Slot.keepsInt_ofInt ?_)⟩
      rw [Int64.toInt_toInt32, Slot.toInt_toLong]
    · rw [hop] at hlength
      obtain ⟨high, b, low, a, rest, hoperands⟩ := exists_four_operands hlength
      refine ⟨_, _, execute_lCmp hop hoperands, .compared hop hoperands (Slot.keepsInt_ofInt ?_)⟩
      rw [compareLongs_toInt, Slot.toInt_toLong, Slot.toInt_toLong]

/-- Where control goes in a thread after an instruction on the frame on top of it. -/
def onward (p : Program) (t : ThreadId) : LocalFlow → Step Flow
  | .goto index => pure (.goto index)
  | .raise className message => Step.raise p t className message
  | .rethrow r => pure (.raise r)

/-- An instruction on integers in the frame on top of a thread. -/
theorem execute_of_integerOps (hop : i.op ∈ integerOps) {flow : LocalFlow} {p : Program}
    {t : ThreadId} {w : Work} (htop : w.kernel.topFrame t = .ok f)
    (h : execute i f = .ok flow f') : Step.execute p t i w =
      onward p t flow { w with kernel := w.kernel.modifyThread t (·.setTop f') } := by
  have hlocal : isLocal i.op = true := by
    revert hop
    generalize i.op = op
    revert op
    decide
  have hframe : Step.onFrame t (execute i) w =
      .ok flow { w with kernel := w.kernel.modifyThread t (·.setTop f') } :=
    Step.onFrame_eq_ok.mpr ⟨f, f', htop, h, rfl⟩
  rw [Step.execute_of_isLocal hlocal]
  unfold run
  rw [bind_of_ok hframe]
  cases flow <;> rfl

/-! ## Quotients and remainders -/

/-- A quotient of ints is exact but for the least one by minus one, which is the least one again. -/
theorem quotient_ints (a b : Slot) : (a.intValue.tdiv b.intValue).bmod (2 ^ 32) =
    if a.intValue = -2 ^ 31 ∧ b.intValue = -1 then -2 ^ 31 else a.intValue.tdiv b.intValue := by
  split
  · rename_i h
    rw [h.1, h.2]
    decide
  · rename_i h
    rw [← Slot.toInt_toInt, ← Slot.toInt_toInt, ← Int32.toInt_div]
    rw [← Slot.toInt_toInt, ← Slot.toInt_toInt] at h
    rcases not_and_or.mp h with ha | hb
    · exact Int32.toInt_div_of_ne_left _ _ fun hmin => ha (by rw [hmin]; decide)
    · exact Int32.toInt_div_of_ne_right _ _ fun hone => hb (by rw [hone]; decide)

theorem quotient_longs (a b : Slot) : (a.longValue.tdiv b.longValue).bmod (2 ^ 64) =
    if a.longValue = -2 ^ 63 ∧ b.longValue = -1 then -2 ^ 63 else a.longValue.tdiv b.longValue := by
  split
  · rename_i h
    rw [h.1, h.2]
    decide
  · rename_i h
    rw [← Slot.toInt_toLong, ← Slot.toInt_toLong, ← Int64.toInt_div]
    rw [← Slot.toInt_toLong, ← Slot.toInt_toLong] at h
    rcases not_and_or.mp h with ha | hb
    · exact Int64.toInt_div_of_ne_left _ _ fun hmin => ha (by rw [hmin]; decide)
    · exact Int64.toInt_div_of_ne_right _ _ fun hone => hb (by rw [hone]; decide)

/-- A remainder is exact, less than the divisor, and zero or of the sign of the dividend. -/
theorem remainder_ints {a b : Slot} (hb : b.intValue ≠ 0) {r : Int}
    (hr : r = (a.intValue.tmod b.intValue).bmod (2 ^ 32)) :
    r = a.intValue.tmod b.intValue ∧ r.natAbs < b.intValue.natAbs ∧
      (r = 0 ∨ r.sign = a.intValue.sign) := by
  have hexact : r = a.intValue.tmod b.intValue := by
    rw [hr, ← Slot.toInt_toInt, ← Slot.toInt_toInt, ← Int32.toInt_mod]
    exact Int32.toInt_bmod_size _
  refine ⟨hexact, ?_, ?_⟩
  · rw [hexact, Int.natAbs_tmod]
    exact Nat.mod_lt _ (Int.natAbs_pos.mpr hb)
  · rw [hexact]
    rcases Int.lt_or_le a.intValue 0 with hneg | hnonneg
    · have hle := Int.tmod_nonneg b.intValue (Int.neg_nonneg_of_nonpos (Int.le_of_lt hneg))
      rw [Int.neg_tmod] at hle
      rcases Int.lt_or_eq_of_le (Int.nonpos_of_neg_nonneg hle) with hlt | hzero
      · exact .inr (by rw [Int.sign_eq_neg_one_of_neg hlt, Int.sign_eq_neg_one_of_neg hneg])
      · exact .inl hzero
    · have hle := Int.tmod_nonneg b.intValue hnonneg
      rcases Int.lt_or_eq_of_le hle with hlt | hzero
      · have hpos : 0 < a.intValue := by
          refine Int.lt_iff_le_and_ne.mpr ⟨hnonneg, fun hzero => ?_⟩
          rw [← hzero, Int.zero_tmod] at hlt
          exact absurd hlt (Int.lt_irrefl 0)
        exact .inr (by rw [Int.sign_eq_one_of_pos hlt, Int.sign_eq_one_of_pos hpos])
      · exact .inl hzero.symm

/-- An int that is kept as such is the int itself. -/
theorem intValue_bmod (a : Slot) : a.intValue.bmod (2 ^ 32) = a.intValue := by
  rw [← Slot.toInt_toInt]
  exact Int32.toInt_bmod_size _

/-- Divides two ints, multiplies back, and adds the remainder. -/
def divideAndRebuild (div mul rem add : Instruction) (a b : Slot) : Frame.Action LocalFlow := do
  Frame.push a
  Frame.push b
  let _ ← execute div
  Frame.push b
  let _ ← execute mul
  Frame.push a
  Frame.push b
  let _ ← execute rem
  execute add

theorem execute_pushed {op : Opcode} (hop : i.op = op) (hints : op ∈ intOps) (f : Frame) (a : Slot)
    {b : Slot} (hdivisor : op ∈ divisions → b.intValue ≠ 0) :
    ∃ s, execute i ((f.pushed a).pushed b) = .ok (.goto i.nextIndex) (f.pushed s) ∧
      s.KeepsInt (exactResult op a.intValue b.intValue) := by
  subst hop
  exact execute_ints_exact hints rfl hdivisor

/-- Quotient and remainder together give back the dividend, whether or not the quotient wraps. -/
theorem divideAndRebuild_eq {div mul rem add : Instruction} (hdiv : div.op = .iDiv)
    (hmul : mul.op = .iMul) (hrem : rem.op = .iRem) (hadd : add.op = .iAdd) (f : Frame) (a : Slot)
    {b : Slot} (hb : b.intValue ≠ 0) :
    ∃ s, divideAndRebuild div mul rem add a b f = .ok (.goto add.nextIndex) (f.pushed s) ∧
      s.KeepsInt a.intValue := by
  obtain ⟨q, hdivide, hq⟩ := execute_pushed hdiv (by decide) f a fun _ => hb
  obtain ⟨m, hmultiply, hm⟩ := execute_pushed hmul (by decide) f q fun _ => hb
  obtain ⟨r, hremain, hr⟩ := execute_pushed hrem (by decide) (f.pushed m) a fun _ => hb
  obtain ⟨s, hsum, hs⟩ := execute_pushed hadd (by decide) f m (b := r) fun h => absurd h (by decide)
  have hpush : ∀ (v : Slot) (g : Frame), Frame.push v g = .ok () (g.pushed v) := fun _ _ => rfl
  refine ⟨s, ?_, hs.canonical, ?_⟩
  · unfold divideAndRebuild
    rw [bind_of_ok (hpush a f), bind_of_ok (hpush b _), bind_of_ok hdivide, bind_of_ok (hpush b _),
      bind_of_ok hmultiply, bind_of_ok (hpush a _), bind_of_ok (hpush b _), bind_of_ok hremain]
    exact hsum
  · have hvalue : s.intValue = (m.intValue + r.intValue).bmod (2 ^ 32) := hs.value
    have hmvalue : m.intValue = (q.intValue * b.intValue).bmod (2 ^ 32) := hm.value
    have hqvalue : q.intValue = (a.intValue.tdiv b.intValue).bmod (2 ^ 32) := hq.value
    have hrvalue : r.intValue = (a.intValue.tmod b.intValue).bmod (2 ^ 32) := hr.value
    rw [hvalue, hmvalue, hqvalue, hrvalue, Int.bmod_mul_bmod, Int.bmod_add_bmod,
      Int.add_bmod_bmod, Int.tdiv_mul_add_tmod]

/-- Widens an int to a long and narrows it again. -/
def widenAndNarrow (widen narrow : Instruction) : Frame.Action LocalFlow := do
  let _ ← execute widen
  execute narrow

theorem widenAndNarrow_eq {widen narrow : Instruction} (hwiden : widen.op = .i2L)
    (hnarrow : narrow.op = .l2I) (h : f.operands = a :: rest) :
    ∃ s, widenAndNarrow widen narrow f =
        .ok (.goto narrow.nextIndex) { f with operands := s :: rest } ∧
      s.KeepsInt a.intValue := by
  have hlong := execute_i2L hwiden h
  refine ⟨Slot.ofInt (Slot.toInt a), ?_, Slot.keepsInt_ofInt ?_⟩
  · unfold widenAndNarrow
    rw [bind_of_ok hlong, execute_l2I hnarrow rfl]
    have hback : (Slot.toLong (Slot.ofLong (Slot.toInt a).toInt64)).toInt32 = Slot.toInt a :=
      Int32.toInt32_toInt64 _
    rw [hback]
  · rw [Slot.toInt_toInt, intValue_bmod]

/-- **Integer arithmetic is exact.** Every instruction on integers that finds its operands computes
the exact result, wrapped, and keeps ints in one form only; in the frame on top of a thread it does
the same. A division raises an exception exactly if the divisor is zero. Quotients are truncated
toward zero, and the least number divided by minus one is itself; remainders are less than the
divisor and have the sign of the dividend; both together give back the dividend. A long made of an
int is narrowed to this int. -/
theorem arithmetic_exact :
    (∀ i f, i.op ∈ integerOps → Supplies f i →
      ∃ flow f', execute i f = .ok flow f' ∧ Computes i f flow f' ∧
        ∀ p t w, w.kernel.topFrame t = .ok f → Step.execute p t i w =
          onward p t flow { w with kernel := w.kernel.modifyThread t (·.setTop f') }) ∧
      (∀ s s' : Slot, s.IsCanonical → s'.IsCanonical → s.intValue = s'.intValue → s = s') ∧
      (∀ i f a b rest, i.op ∈ [.iDiv, .iRem] → f.operands = b :: a :: rest →
        (execute i f = .ok (.raise "java/lang/ArithmeticException" (some "/ by zero"))
          { f with operands := rest } ↔ b.intValue = 0)) ∧
      (∀ i f a b low high rest, i.op = .lDiv → f.operands = high :: b :: low :: a :: rest →
        (execute i f = .ok (.raise "java/lang/ArithmeticException" (some "/ by zero"))
          { f with operands := rest } ↔ b.longValue = 0)) ∧
      (∀ a b s : Slot, s.KeepsInt (a.intValue.tdiv b.intValue) → s.intValue =
        if a.intValue = -2 ^ 31 ∧ b.intValue = -1 then -2 ^ 31
        else a.intValue.tdiv b.intValue) ∧
      (∀ a b s : Slot, s.KeepsLong (a.longValue.tdiv b.longValue) → s.longValue =
        if a.longValue = -2 ^ 63 ∧ b.longValue = -1 then -2 ^ 63
        else a.longValue.tdiv b.longValue) ∧
      (∀ a b s : Slot, b.intValue ≠ 0 → s.KeepsInt (a.intValue.tmod b.intValue) →
        s.intValue = a.intValue.tmod b.intValue ∧ s.intValue.natAbs < b.intValue.natAbs ∧
          (s.intValue = 0 ∨ s.intValue.sign = a.intValue.sign)) ∧
      (∀ (div mul rem add : Instruction) f (a b : Slot), div.op = .iDiv → mul.op = .iMul →
        rem.op = .iRem → add.op = .iAdd → b.intValue ≠ 0 →
        ∃ s, divideAndRebuild div mul rem add a b f = .ok (.goto add.nextIndex) (f.pushed s) ∧
          s.IsCanonical ∧ s.intValue = a.intValue) ∧
      ∀ (widen narrow : Instruction) f a rest, widen.op = .i2L → narrow.op = .l2I →
        f.operands = a :: rest →
        ∃ s, widenAndNarrow widen narrow f =
            .ok (.goto narrow.nextIndex) { f with operands := s :: rest } ∧
          s.IsCanonical ∧ s.intValue = a.intValue := by
  refine ⟨fun i f hop h => ?_, fun s s' hs hs' => hs.eq_of_intValue hs',
    fun i f a b rest hop h => ?_, fun i f a b low high rest hop h => ?_,
    fun a b s hs => hs.value.trans (quotient_ints a b),
    fun a b s hs => hs.trans (quotient_longs a b),
    fun a b s hb hs => remainder_ints hb hs.value,
    fun div mul rem add f a b hdiv hmul hrem hadd hb => ?_,
    fun widen narrow f a rest hwiden hnarrow h => ?_⟩
  · obtain ⟨flow, f', hexecute, hcomputes⟩ := exists_computes hop h
    exact ⟨flow, f', hexecute, hcomputes, fun p t w htop =>
      execute_of_integerOps hop htop hexecute⟩
  · simp only [List.mem_cons, List.not_mem_nil, or_false] at hop
    rcases hop with hop | hop
    · exact execute_ints_raises (by rw [hop]; decide) (by rw [hop]; decide) h
    · exact execute_ints_raises (by rw [hop]; decide) (by rw [hop]; decide) h
  · exact execute_longs_raises (by rw [hop]; decide) (by rw [hop]; decide) h
  · obtain ⟨s, hexecute, hs⟩ := divideAndRebuild_eq hdiv hmul hrem hadd f a hb
    exact ⟨s, hexecute, hs.canonical, hs.value.trans (intValue_bmod a)⟩
  · obtain ⟨s, hexecute, hs⟩ := widenAndNarrow_eq hwiden hnarrow h
    exact ⟨s, hexecute, hs.canonical, hs.value.trans (intValue_bmod a)⟩

/-- The least int, below junk, divided by minus one without its sign extension is the least int in
its one form, and the remainder gives it back; a divisor that is zero in its low half raises. -/
theorem arithmetic_exact_corners :
    let least : Slot := 0xabcdef0180000000
    let minusOne : Slot := 0x00000000ffffffff
    let zero : Slot := 0x0000000700000000
    let div : Instruction := { op := .iDiv }
    let f : Frame := { method := default, locals := #[], operands := [minusOne, least] }
    let g : Frame := { method := default, locals := #[], operands := [zero, least] }
    (∃ flow f', execute div f = .ok flow f' ∧ Computes div f flow f') ∧
      (∃ s f', execute div g = .ok (.raise "java/lang/ArithmeticException" s) f') ∧
      ∃ s : Slot, s = 0xffffffff80000000 ∧
        divideAndRebuild div { op := .iMul } { op := .iRem } { op := .iAdd } least minusOne g =
          .ok (.goto 1) (g.pushed s) := by
  intro least minusOne zero div f g
  obtain ⟨hcomputes, hequal, hraises, -, -, -, -, hrebuild, -⟩ := arithmetic_exact
  obtain ⟨flow, f', hexecute, hf', -⟩ := hcomputes div f (by decide) ⟨by decide, nofun⟩
  obtain ⟨s, hsum, hs, hvalue⟩ := hrebuild div { op := .iMul } { op := .iRem } { op := .iAdd } g
    least minusOne rfl rfl rfl rfl (by decide)
  have hraise := (hraises div g least zero [] (by decide) rfl).mpr (by decide)
  exact ⟨⟨flow, f', hexecute, hf'⟩, ⟨_, _, hraise⟩, s,
    hequal _ _ hs (by decide) (hvalue.trans (by decide)), hsum⟩

end Local
end Interleave

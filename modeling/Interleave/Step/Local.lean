import Interleave.Step.Basic

/-!
# Instructions on one frame

Constants, locals, the operand stack, arithmetic, conversions, branches and assertions see nothing
but the frame they run in. They are computations on that frame alone.

Int and long arithmetic wraps; division by zero raises an exception. Doubles follow the usual
floating-point rules; comparing with a value that is no number counts as less.
-/

namespace Interleave

/-- Where control goes after an instruction on one frame. -/
inductive LocalFlow where
  /-- To the instruction at an index. -/
  | goto (index : Nat)
  /-- To a handler of a new exception. -/
  | raise (className : String) (message : Option String)
  /-- To a handler of this exception. -/
  | rethrow (exception : ObjRef)
deriving DecidableEq, Repr

namespace Local

/-- On to the next instruction. -/
def next (i : Instruction) : Frame.Action LocalFlow := pure (.goto i.nextIndex)

/-- The exception of a division by zero. -/
def divisionByZero : LocalFlow := .raise Builtin.arithmetic (some "/ by zero")

/-- The result of an operation on two ints; none if it divides by zero. -/
def intResult (op : Opcode) (a b : Int32) : Option Int32 :=
  match op with
  | .iAdd => some (a + b)
  | .iSub => some (a - b)
  | .iMul => some (a * b)
  | .iDiv => if b = 0 then none else some (a / b)
  | _ => if b = 0 then none else some (a % b)

/-- The result of an operation on two longs; none if it divides by zero. -/
def longResult (op : Opcode) (a b : Int64) : Option Int64 :=
  match op with
  | .lAdd => some (a + b)
  | .lSub => some (a - b)
  | .lMul => some (a * b)
  | _ => if b = 0 then none else some (a / b)

/-- The result of comparing two longs. -/
def compareLongs (a b : Int64) : Int32 := if a < b then -1 else if a = b then 0 else 1

/-- The result of an operation on two doubles. -/
def doubleResult (op : Opcode) (a b : Float) : Float :=
  match op with
  | .dAdd => a + b
  | .dSub => a - b
  | .dMul => a * b
  | _ => a / b

/-- The result of comparing two doubles. -/
def compareDoubles (a b : Float) : Int32 := if a == b then 0 else if b < a then 1 else -1

/-- Does a comparison of an int with zero take the branch? -/
def testInt (op : Opcode) (v : Int32) : Bool :=
  match op with
  | .ifEq => v == 0
  | .ifNe => v != 0
  | .ifLt => v < 0
  | .ifGe => 0 ≤ v
  | .ifGt => 0 < v
  | _ => v ≤ 0

/-- Does a comparison of two ints take the branch? -/
def testInts (op : Opcode) (a b : Int32) : Bool :=
  match op with
  | .ifICmpEq => a == b
  | .ifICmpNe => a != b
  | .ifICmpLt => a < b
  | .ifICmpGe => b ≤ a
  | .ifICmpGt => b < a
  | _ => a ≤ b

/-- Pops the operands of a branch and says whether it is taken. -/
def branchTaken (op : Opcode) : Frame.Action Bool := do
  match op with
  | .goto => pure true
  | .ifEq | .ifNe | .ifLt | .ifGe | .ifGt | .ifLe =>
    let v ← Frame.popInt
    pure (testInt op v)
  | .ifICmpEq | .ifICmpNe | .ifICmpLt | .ifICmpGe | .ifICmpGt | .ifICmpLe =>
    let b ← Frame.popInt
    let a ← Frame.popInt
    pure (testInts op a b)
  | .ifACmpEq | .ifACmpNe =>
    let b ← Frame.popRef
    let a ← Frame.popRef
    pure ((a == b) == (op == .ifACmpEq))
  | .ifNull => return (← Frame.popRef).isNull
  | _ => return !(← Frame.popRef).isNull

/-- Does an instruction run on its frame alone? -/
def isLocal : Opcode → Bool
  | .nop | .iConst | .lConst | .dConst | .aConstNull
  | .iLoad | .lLoad | .dLoad | .aLoad | .iStore | .lStore | .dStore | .aStore
  | .dup | .pop | .pop2 | .swap
  | .iAdd | .iSub | .iMul | .iDiv | .iRem | .iNeg | .iInc
  | .lAdd | .lSub | .lMul | .lDiv | .lCmp | .i2L | .l2I
  | .dAdd | .dSub | .dMul | .dDiv | .dCmpl | .i2D | .d2I | .f2D
  | .assert | .aThrow | .threadYield => true
  | op => op.isBranch

/-- Runs an instruction on its frame. -/
def execute (i : Instruction) : Frame.Action LocalFlow := do
  match i.op with
  | .iConst =>
    Frame.pushInt (← Frame.Action.lift i.intValue).toInt32
    next i
  | .lConst =>
    Frame.pushLong (← Frame.Action.lift i.intValue)
    next i
  | .dConst =>
    Frame.pushWide (← Frame.Action.lift i.doubleBits)
    next i
  | .aConstNull =>
    Frame.push 0
    next i
  | .iLoad | .aLoad =>
    let slot ← Frame.Action.lift i.localSlot
    Frame.push (← Frame.Action.lift ((← get).local? slot))
    next i
  | .lLoad | .dLoad =>
    let slot ← Frame.Action.lift i.localSlot
    Frame.pushWide (← Frame.Action.lift ((← get).local? slot))
    next i
  | .iStore | .aStore =>
    let slot ← Frame.Action.lift i.localSlot
    Frame.setLocal slot (← Frame.pop)
    next i
  | .lStore | .dStore =>
    let slot ← Frame.Action.lift i.localSlot
    Frame.setLocalWide slot (← Frame.popWide)
    next i
  | .dup =>
    Frame.push (← Frame.Action.lift ((← get).peek 0))
    next i
  | .pop =>
    let _ ← Frame.pop
    next i
  | .pop2 =>
    let _ ← Frame.pop
    let _ ← Frame.pop
    next i
  | .swap =>
    let a ← Frame.pop
    let b ← Frame.pop
    Frame.push a
    Frame.push b
    next i
  | .iAdd | .iSub | .iMul | .iDiv | .iRem =>
    let b ← Frame.popInt
    let a ← Frame.popInt
    match intResult i.op a b with
    | some v =>
      Frame.pushInt v
      next i
    | none => pure divisionByZero
  | .iNeg =>
    let a ← Frame.popInt
    Frame.pushInt (-a)
    next i
  | .iInc =>
    let (slot, amount) ← Frame.Action.lift i.increment
    let v ← Frame.Action.lift ((← get).local? slot)
    Frame.setLocal slot (Slot.ofInt (Slot.toInt v + amount))
    next i
  | .lAdd | .lSub | .lMul | .lDiv =>
    let b ← Frame.popLong
    let a ← Frame.popLong
    match longResult i.op a b with
    | some v =>
      Frame.pushLong v
      next i
    | none => pure divisionByZero
  | .lCmp =>
    let b ← Frame.popLong
    let a ← Frame.popLong
    Frame.pushInt (compareLongs a b)
    next i
  | .i2L =>
    let v ← Frame.popInt
    Frame.pushLong v.toInt64
    next i
  | .l2I =>
    let v ← Frame.popLong
    Frame.pushInt v.toInt32
    next i
  | .dAdd | .dSub | .dMul | .dDiv =>
    let b ← Frame.popWide
    let a ← Frame.popWide
    Frame.pushWide (doubleResult i.op (Float.ofBits a) (Float.ofBits b)).toBits
    next i
  | .dCmpl =>
    let b ← Frame.popWide
    let a ← Frame.popWide
    Frame.pushInt (compareDoubles (Float.ofBits a) (Float.ofBits b))
    next i
  | .i2D =>
    let v ← Frame.popInt
    Frame.pushWide v.toFloat.toBits
    next i
  | .d2I =>
    let v ← Frame.popWide
    Frame.pushInt (Float.ofBits v).toInt32
    next i
  | .f2D =>
    let v ← Frame.pop
    Frame.pushWide (Float32.ofBits v.toUInt32).toFloat.toBits
    next i
  | .assert =>
    let v ← Frame.popInt
    if v = 0 then pure (.raise Builtin.assertionError i.message?) else next i
  | .aThrow =>
    let r ← Frame.popRef
    if r.isNull then pure (.raise Builtin.nullPointer (some "throwing null"))
    else pure (.rethrow r)
  | op =>
    if op.isBranch then
      let target ← Frame.Action.lift i.target
      if ← branchTaken op then pure (.goto target) else next i
    else next i

/-- Runs an instruction on the frame on top of a thread. -/
def run (p : Program) (t : ThreadId) (i : Instruction) : Step Flow := do
  match ← Step.onFrame t (execute i) with
  | .goto index => pure (.goto index)
  | .raise className message => Step.raise p t className message
  | .rethrow r => pure (.raise r)

end Local

end Interleave

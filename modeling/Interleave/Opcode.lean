import Interleave.Ids

/-!
# Opcodes

The operations of the machine. Most have a class-file form; the rest exist only for the interpreter:
running a class initializer on top of the instruction that needs it, the return of a call stub, the
assertion, and the three thread operations.

An opcode is encoded as its position in `Opcode.all`.
-/

namespace Interleave

/-- An operation. -/
inductive Opcode where
  -- constants, locals and the operand stack
  | nop | iConst | lConst | dConst | aConstNull | iLoad | iStore | lLoad | lStore | dLoad
  | dStore | aLoad | aStore | dup | pop | pop2 | swap
  -- int arithmetic
  | iAdd | iSub | iMul | iDiv | iRem | iNeg | iInc
  -- long arithmetic
  | lAdd | lSub | lMul | lDiv | lCmp | i2L | l2I
  -- double arithmetic
  | dAdd | dSub | dMul | dDiv | dCmpl | i2D | d2I | f2D
  -- branches
  | ifEq | ifNe | ifLt | ifGe | ifGt | ifLe | ifICmpEq | ifICmpNe | ifICmpLt | ifICmpGe
  | ifICmpGt | ifICmpLe | ifACmpEq | ifACmpNe | ifNull | ifNonNull | goto
  -- objects, arrays and fields
  | new | newArray | aNewArray | arrayLength | iALoad | iAStore | aALoad | aAStore | getField
  | putField | getStatic | putStatic
  -- calls and returns
  | invokeVirtual | invokeSpecial | invokeStatic | invokeClinit | directCallReturn | voidReturn
  | iReturn | lReturn | dReturn | aReturn
  -- exceptions and monitors
  | aThrow | monitorEnter | monitorExit | assert
  -- threads
  | threadStart | threadJoin | threadYield
deriving DecidableEq, Hashable, Repr, Inhabited

namespace Opcode

/-- Every opcode, in the order of their encodings. -/
def all : Array Opcode := #[
  .nop, .iConst, .lConst, .dConst, .aConstNull, .iLoad, .iStore, .lLoad, .lStore, .dLoad,
  .dStore, .aLoad, .aStore, .dup, .pop, .pop2, .swap, .iAdd, .iSub, .iMul, .iDiv, .iRem, .iNeg,
  .iInc, .lAdd, .lSub, .lMul, .lDiv, .lCmp, .i2L, .l2I, .dAdd, .dSub, .dMul, .dDiv, .dCmpl, .i2D,
  .d2I, .f2D, .ifEq, .ifNe, .ifLt, .ifGe, .ifGt, .ifLe, .ifICmpEq, .ifICmpNe, .ifICmpLt,
  .ifICmpGe, .ifICmpGt, .ifICmpLe, .ifACmpEq, .ifACmpNe, .ifNull, .ifNonNull, .goto, .new,
  .newArray, .aNewArray, .arrayLength, .iALoad, .iAStore, .aALoad, .aAStore, .getField,
  .putField, .getStatic, .putStatic, .invokeVirtual, .invokeSpecial, .invokeStatic,
  .invokeClinit, .directCallReturn, .voidReturn, .iReturn, .lReturn, .dReturn, .aReturn, .aThrow,
  .monitorEnter, .monitorExit, .assert, .threadStart, .threadJoin, .threadYield]

/-- The opcode with a given encoding. -/
def ofNumber? (n : Nat) : Option Opcode := all[n]?

/-- The name of an opcode. -/
def name : Opcode → String
  | nop => "Nop"
  | iConst => "IConst"
  | lConst => "LConst"
  | dConst => "DConst"
  | aConstNull => "AConstNull"
  | iLoad => "ILoad"
  | iStore => "IStore"
  | lLoad => "LLoad"
  | lStore => "LStore"
  | dLoad => "DLoad"
  | dStore => "DStore"
  | aLoad => "ALoad"
  | aStore => "AStore"
  | dup => "Dup"
  | pop => "Pop"
  | pop2 => "Pop2"
  | swap => "Swap"
  | iAdd => "IAdd"
  | iSub => "ISub"
  | iMul => "IMul"
  | iDiv => "IDiv"
  | iRem => "IRem"
  | iNeg => "INeg"
  | iInc => "IInc"
  | lAdd => "LAdd"
  | lSub => "LSub"
  | lMul => "LMul"
  | lDiv => "LDiv"
  | lCmp => "LCmp"
  | i2L => "I2L"
  | l2I => "L2I"
  | dAdd => "DAdd"
  | dSub => "DSub"
  | dMul => "DMul"
  | dDiv => "DDiv"
  | dCmpl => "DCmpl"
  | i2D => "I2D"
  | d2I => "D2I"
  | f2D => "F2D"
  | ifEq => "IfEq"
  | ifNe => "IfNe"
  | ifLt => "IfLt"
  | ifGe => "IfGe"
  | ifGt => "IfGt"
  | ifLe => "IfLe"
  | ifICmpEq => "IfICmpEq"
  | ifICmpNe => "IfICmpNe"
  | ifICmpLt => "IfICmpLt"
  | ifICmpGe => "IfICmpGe"
  | ifICmpGt => "IfICmpGt"
  | ifICmpLe => "IfICmpLe"
  | ifACmpEq => "IfACmpEq"
  | ifACmpNe => "IfACmpNe"
  | ifNull => "IfNull"
  | ifNonNull => "IfNonNull"
  | goto => "Goto"
  | new => "New"
  | newArray => "NewArray"
  | aNewArray => "ANewArray"
  | arrayLength => "ArrayLength"
  | iALoad => "IALoad"
  | iAStore => "IAStore"
  | aALoad => "AALoad"
  | aAStore => "AAStore"
  | getField => "GetField"
  | putField => "PutField"
  | getStatic => "GetStatic"
  | putStatic => "PutStatic"
  | invokeVirtual => "InvokeVirtual"
  | invokeSpecial => "InvokeSpecial"
  | invokeStatic => "InvokeStatic"
  | invokeClinit => "InvokeClinit"
  | directCallReturn => "DirectCallReturn"
  | voidReturn => "Return"
  | iReturn => "IReturn"
  | lReturn => "LReturn"
  | dReturn => "DReturn"
  | aReturn => "AReturn"
  | aThrow => "AThrow"
  | monitorEnter => "MonitorEnter"
  | monitorExit => "MonitorExit"
  | assert => "Assert"
  | threadStart => "ThreadStart"
  | threadJoin => "ThreadJoin"
  | threadYield => "ThreadYield"

/-- The opcode with a given name. -/
def ofName? (s : String) : Option Opcode := all.find? (·.name == s)

/-- The name of an opcode in listings. -/
def mnemonic (op : Opcode) : String := op.name.toLower

/-- Does the operand say where to continue? -/
def isBranch : Opcode → Bool
  | ifEq | ifNe | ifLt | ifGe | ifGt | ifLe | ifICmpEq | ifICmpNe | ifICmpLt | ifICmpGe
  | ifICmpGt | ifICmpLe | ifACmpEq | ifACmpNe | ifNull | ifNonNull | goto => true
  | _ => false

/-- Does the opcode call the method that its operand names? -/
def isInvoke : Opcode → Bool
  | invokeVirtual | invokeSpecial | invokeStatic => true
  | _ => false

/-- Does the opcode leave a method for its caller? -/
def isReturn : Opcode → Bool
  | voidReturn | iReturn | lReturn | dReturn | aReturn => true
  | _ => false

/-- Does the opcode exist for the interpreter alone? -/
def isExtended : Opcode → Bool
  | invokeClinit | directCallReturn | assert | threadStart | threadJoin | threadYield => true
  | _ => false

/-- The encoded length in bytes; positions in code are sums of these. -/
def length : Opcode → Nat
  | iConst | iLoad | iStore | lLoad | lStore | dLoad | dStore | aLoad | aStore | newArray => 2
  | lConst | dConst | iInc | new | aNewArray | getField | putField | getStatic | putStatic
  | invokeVirtual | invokeSpecial | invokeStatic | assert => 3
  | op => if op.isBranch then 3 else 1

theorem length_pos (op : Opcode) : 0 < op.length := by
  cases op <;> decide

end Opcode

end Interleave

import Interleave.CommandLine.Answer

/-!
# The program

Prints the answer to its command line.
-/

namespace Interleave

/-- A random word. -/
def drawEntropy : IO UInt64 := do
  let bytes ← IO.getRandomBytes 8
  return bytes.foldl (fun word byte => word * 256 + byte.toUInt64) 0

end Interleave

/-- Answers the command line and ends with the status of the answer. -/
def main (arguments : List String) : IO UInt32 := do
  let answer := Interleave.CommandLine.answer (← Interleave.drawEntropy) arguments
  answer.output.forM fun line => IO.println line
  answer.errors.forM fun line => IO.eprintln line
  return answer.status.toUInt32

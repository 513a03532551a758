/-!
# Hexadecimal text

Numbers in lower-case hexadecimal, filled with zeros up to a least width.
-/

namespace Interleave

/-- The hexadecimal digits of a number, at least `width` of them. -/
def hexDigits (width n : Nat) : List Char :=
  let ds := Nat.toDigits 16 n
  List.replicate (width - ds.length) '0' ++ ds

/-- The hexadecimal digits of a number as text. -/
def hexText (width n : Nat) : String := String.ofList (hexDigits width n)

end Interleave

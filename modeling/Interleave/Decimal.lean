/-!
# Shortest decimals

The decimal numeral with the fewest digits among those that stand for a given binary floating-point
number, that is, that lie in the interval of reals which round to it. Of two with equally many
digits the nearer one is taken, and of two equally near ones the larger.

The number is given by its bits, with the widths of its format. All arithmetic is exact.
-/

namespace Interleave.Decimal

/-- The widths of a binary floating-point format. -/
structure Format where
  /-- The number of stored bits of the significand. -/
  fraction : Nat
  /-- The number of bits of the exponent. -/
  exponent : Nat
deriving DecidableEq, Repr

/-- Single precision. -/
def single : Format := ⟨23, 8⟩

/-- Double precision. -/
def double : Format := ⟨52, 11⟩

/-- What the bits of a number say. -/
inductive Parts where
  | nan
  | infinite (negative : Bool)
  | zero (negative : Bool)
  /-- The significand times two to the exponent. `lowest` says whether the next smaller number is
  only half as far away as the next larger one. -/
  | finite (negative : Bool) (significand : Nat) (exponent : Int) (lowest : Bool)
deriving DecidableEq, Repr

/-- Takes the bits of a number apart. -/
def Format.parts (f : Format) (bits : Nat) : Parts :=
  let implicit := Nat.pow 2 f.fraction
  let biases := Nat.pow 2 f.exponent
  let fraction := bits % implicit
  let biased := bits / implicit % biases
  let negative := bits / (implicit * biases) % 2 == 1
  let bias : Int := biases / 2 - 1 + f.fraction
  if biased + 1 = biases then
    if fraction = 0 then .infinite negative else .nan
  else if biased = 0 then
    if fraction = 0 then .zero negative else .finite negative fraction (1 - bias) false
  else
    .finite negative (fraction + implicit) (biased - bias) (fraction == 0 && biased != 1)

/-- A numeral: an integer times a power of ten. -/
structure Numeral where
  digits : Nat
  /-- The power of ten. -/
  exponent : Int
deriving DecidableEq, Repr

/-- The numeral without zeros at its end. -/
def strip : Nat → Numeral → Numeral
  | 0, d => d
  | n + 1, d =>
    if d.digits % 10 = 0 ∧ d.digits ≠ 0 then strip n ⟨d.digits / 10, d.exponent + 1⟩ else d

/-- The least number of places by which the fraction has to be moved to reach one. -/
def placesToOne (num den : Nat) : Nat → Nat
  | 0 => 0
  | n + 1 => if den ≤ num then 0 else placesToOne (num * 10) den n + 1

/-- The power of ten of the leading digit of a positive fraction. -/
def magnitude (num den : Nat) : Int :=
  if den ≤ num then ((Nat.toDigits 10 (num / den)).length : Int) - 1
  else -(placesToOne num den 400 : Int)

/-- An interval around a positive number; all three are numerators over one denominator. -/
structure Interval where
  /-- The lower end. -/
  low : Nat
  /-- The number itself. -/
  mid : Nat
  /-- The upper end. -/
  high : Nat
  den : Nat
  /-- Do the ends belong to it? -/
  closed : Bool

/-- The reals that round to a number. -/
def interval (significand : Nat) (exponent : Int) (lowest : Bool) : Interval :=
  let scale := Nat.pow 2 (exponent - 2).toNat
  { low := (4 * significand - if lowest then 1 else 2) * scale
    mid := 4 * significand * scale
    high := (4 * significand + 2) * scale
    den := Nat.pow 2 (2 - exponent).toNat
    closed := significand % 2 == 0 }

/-- Does a numeral, as a fraction, lie in the interval? -/
def Interval.contains (i : Interval) (num den : Nat) : Bool :=
  if i.closed then i.low * den ≤ num * i.den && num * i.den ≤ i.high * den
  else i.low * den < num * i.den && num * i.den < i.high * den

/-- A numeral with this power of ten in the interval, if a neighbour of the number is one. -/
def Interval.onGrid (i : Interval) (exponent : Int) : Option Numeral :=
  let up := Nat.pow 10 exponent.toNat
  let down := Nat.pow 10 (-exponent).toNat
  let below := i.mid * down / (i.den * up)
  let hit (n : Nat) : Bool := i.contains (n * up) down
  let distanceBelow := i.mid * down - below * up * i.den
  let distanceAbove := (below + 1) * up * i.den - i.mid * down
  if hit below && (!hit (below + 1) || distanceBelow < distanceAbove) then some ⟨below, exponent⟩
  else if hit (below + 1) then some ⟨below + 1, exponent⟩
  else none

/-- The shortest numeral of a positive number; seventeen digits always suffice. -/
def shortest (significand : Nat) (exponent : Int) (lowest : Bool) : Numeral :=
  let i := interval significand exponent lowest
  let top := magnitude i.mid i.den
  let found := (List.range 17).findSome? fun (n : Nat) => i.onGrid (top - n)
  strip 20 (found.getD ⟨0, 0⟩)

/-- A numeral written out, with at least one digit behind the point. Numbers whose leading digit is
beyond the sixteenth place before the point or the fourth behind it are written with an exponent. -/
def Numeral.text (d : Numeral) : String :=
  let ds := Nat.toDigits 10 d.digits
  let lead : Int := d.exponent + ds.length - 1
  if lead < -4 ∨ 16 ≤ lead then
    let rest := ds.drop 1
    String.ofList (ds.take 1 ++ (if rest.isEmpty then [] else '.' :: rest)) ++ "e" ++ toString lead
  else if lead < 0 then
    "0." ++ String.ofList (List.replicate (-lead - 1).toNat '0' ++ ds)
  else
    let whole := ds.take (lead.toNat + 1)
    let rest := ds.drop (lead.toNat + 1)
    String.ofList (whole ++ List.replicate (lead.toNat + 1 - whole.length) '0') ++ "."
      ++ String.ofList (if rest.isEmpty then ['0'] else rest)

/-- The text of a floating-point number, given by its bits. -/
def Format.text (f : Format) (bits : Nat) : String :=
  let sign (negative : Bool) : String := if negative then "-" else ""
  match f.parts bits with
  | .nan => "NaN"
  | .infinite negative => sign negative ++ "inf"
  | .zero negative => sign negative ++ "0.0"
  | .finite negative significand exponent lowest =>
    sign negative ++ (shortest significand exponent lowest).text

end Interleave.Decimal

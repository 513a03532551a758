/-!
# Pseudo-random numbers

A small generator whose state is one 64-bit word. The state advances by a fixed odd step, so it
takes every value before it repeats; a draw multiplies the state with a masked copy of itself and
folds the two halves of the product together.

`Rng.below` reduces a draw to a range by taking the high half of its product with the length of
the range. Products whose low half falls short of the bias bound are drawn again, which makes every
number in the range equally likely.
-/

namespace Interleave

/-- A generator, which is its state. -/
structure Rng where
  state : UInt64
deriving DecidableEq, Repr, Inhabited

namespace Rng

/-- The amount by which the state advances. -/
def increment : UInt64 := 0x2d358dccaa6c78a5

/-- The mask of the copy that the state is multiplied with. -/
def mask : UInt64 := 0x8bb84b93962eacc9

/-- The high and the low half of the product of two words. -/
def wideMul (a b : UInt64) : UInt64 × UInt64 :=
  let p := a.toNat * b.toNat
  (UInt64.ofNat (p / UInt64.size), UInt64.ofNat p)

/-- One draw. -/
def next (g : Rng) : UInt64 × Rng :=
  let s := g.state + increment
  let (hi, lo) := wideMul s (s ^^^ mask)
  (lo ^^^ hi, ⟨s⟩)

/-- Draws until the low half of a product with `n` reaches `bound`, and gives the high half. The
state has `UInt64.size` values, so that many attempts look at every draw there is. -/
def drawAbove (n bound : UInt64) : Nat → UInt64 → UInt64 → Rng → UInt64 × Rng
  | 0, hi, _, g => (hi, g)
  | k + 1, hi, lo, g =>
    if lo < bound then
      let (r, g') := g.next
      let (hi', lo') := wideMul r n
      drawAbove n bound k hi' lo' g'
    else (hi, g)

/-- A number below `n`, for a positive `n`. -/
def below (n : UInt64) (g : Rng) : UInt64 × Rng :=
  let (r, g') := g.next
  let (hi, lo) := wideMul r n
  if lo < n then drawAbove n ((0 - n) % n) UInt64.size hi lo g' else (hi, g')

end Rng

end Interleave

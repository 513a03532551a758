/-!
# Sums

The sum of a list of numbers, by which sizes and positions are counted.
-/

namespace Interleave

/-- The sum of a list of numbers. -/
def sumOf (ns : List Nat) : Nat := ns.foldr (· + ·) 0

@[simp] theorem sumOf_nil : sumOf [] = 0 := rfl

@[simp] theorem sumOf_cons (n : Nat) (ns : List Nat) : sumOf (n :: ns) = n + sumOf ns := rfl

@[simp] theorem sumOf_append (ms ns : List Nat) : sumOf (ms ++ ns) = sumOf ms + sumOf ns := by
  induction ms with
  | nil => simp
  | cons m ms ih => simp [ih, Nat.add_assoc]

theorem sumOf_perm {ms ns : List Nat} (h : ms.Perm ns) : sumOf ms = sumOf ns := by
  induction h with
  | nil => rfl
  | cons n _ ih => rw [sumOf_cons, sumOf_cons, ih]
  | swap m n ns => exact Nat.add_left_comm n m (sumOf ns)
  | trans _ _ ih ih' => exact ih.trans ih'

theorem sumOf_length {α : Type} (xss : List (List α)) :
    sumOf (xss.map List.length) = xss.flatten.length := by
  induction xss with
  | nil => rfl
  | cons xs xss ih => rw [List.map_cons, sumOf_cons, ih, List.flatten_cons, List.length_append]

end Interleave

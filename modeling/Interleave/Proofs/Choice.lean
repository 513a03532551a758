import Interleave.Choice
import Mathlib.Tactic.Common

/-!
# Going through the choices of a generator

A generator is gone through by `advance`, which takes its choices in the order of their positions.
To go through it and to select its choices one by one comes to the same.
-/

namespace Interleave

/-- There is a choice at each position of a domain. -/
theorem Domain.exists_get?_of_lt {d : Domain} {i : Nat} (h : i < d.size) :
    ∃ c, d.get? i = some c := by
  cases d with
  | threads ids =>
    have hi : i < ids.length := h
    exact ⟨.thread ids[i], by simp [get?, size, hi]⟩
  | bool => exact ⟨_, by simp only [get?, if_pos h]; rfl⟩
  | ints lo hi => exact ⟨_, by simp only [get?, if_pos h]; rfl⟩
  | longs lo hi => exact ⟨_, by simp only [get?, if_pos h]; rfl⟩
  | floats bits =>
    have hi : i < bits.length := h
    exact ⟨.float bits[i], by simp [get?, size, hi]⟩
  | doubles bits =>
    have hi : i < bits.length := h
    exact ⟨.double bits[i], by simp [get?, size, hi]⟩
  | references refs =>
    have hi : i < refs.length := h
    exact ⟨.reference refs[i], by simp [get?, size, hi]⟩

/-- Threads are chosen from a domain of threads, and only from one. -/
theorem Domain.kind_of_get? {d : Domain} {i : Nat} {c : Choice} (h : d.get? i = some c) :
    d.kind = .threads ↔ ∃ t, c = .thread t := by
  unfold get? at h
  split at h
  · cases d <;> simp_all [kind] <;> aesop
  · cases h

theorem Domain.mem_of_get? {d : Domain} {i : Nat} {t : ThreadId} (h : d.get? i = some (.thread t)) :
    ∃ ids, d = .threads ids ∧ t ∈ ids := by
  have hkind : d.kind = .threads := (kind_of_get? h).mpr ⟨t, rfl⟩
  cases d with
  | threads ids =>
    unfold get? at h
    split at h
    · obtain ⟨u, hu, hut⟩ := Option.map_eq_some_iff.mp h
      cases hut
      exact ⟨ids, rfl, List.mem_of_getElem? hu⟩
    · cases h
  | _ => cases hkind

/-- The ints of a range are those between its bounds, both included. -/
theorem Domain.exists_get?_ints {lo hi : Int32} {c : Choice} :
    (∃ i, (ints lo hi).get? i = some c) ↔ ∃ v, lo ≤ v ∧ v ≤ hi ∧ c = .int v := by
  simp only [Int32.le_iff_toInt_le]
  constructor
  · rintro ⟨i, hi⟩
    unfold get? at hi
    split at hi
    · rename_i hsize
      cases hi
      simp only [size, span] at hsize
      have hlo := Int32.le_toInt lo
      have hhi := Int32.toInt_lt hi
      have hv : (Int32.ofInt (lo.toInt + i)).toInt = lo.toInt + i :=
        Int32.toInt_ofInt_of_le (by omega) (by omega)
      exact ⟨_, by omega, by omega, rfl⟩
    · cases hi
  · rintro ⟨v, hlo, hhi, rfl⟩
    refine ⟨(v.toInt - lo.toInt).toNat, ?_⟩
    have hv : lo.toInt + ((v.toInt - lo.toInt).toNat : Int) = v.toInt := by omega
    unfold get?
    rw [if_pos (by simp only [size, span]; omega)]
    simp only [hv, Int32.ofInt_toInt]

namespace Generator

variable {g : Generator} {i : Nat}

/-- The generator when the choices before a position have been tried. -/
def before (g : Generator) (i : Nat) : Generator :=
  { g with cursor := if i = 0 then none else some (i - 1) }

@[simp] theorem total_before : (g.before i).total = g.total := rfl

@[simp] theorem processed_before : (g.before i).processed = i := by
  cases i with
  | zero => rfl
  | succ i => rfl

theorem before_zero (h : g.cursor = none) : g.before 0 = g := by
  cases g
  cases h
  rfl

/-- There is a choice to select at each position. -/
theorem exists_select_fst (h : i < g.total) : ∃ c, (g.select i).1 = some c := by
  obtain ⟨c, hc⟩ := Domain.exists_get?_of_lt h
  refine ⟨c, ?_⟩
  unfold select
  rw [hc]

/-- The choice that is selected is the current one from then on. -/
theorem current_select (h : i < g.total) :
    ∃ c, g.domain.get? i = some c ∧ (g.select i).1 = some c ∧ (g.select i).2.current = some c := by
  obtain ⟨c, hc⟩ := Domain.exists_get?_of_lt h
  refine ⟨c, hc, ?_⟩
  unfold select
  rw [hc]
  exact ⟨rfl, hc⟩

/-- The choice at a position becomes the current one when it is selected. -/
theorem select_snd (h : i < g.total) : (g.select i).2 = g.before (i + 1) := by
  obtain ⟨c, hc⟩ := Domain.exists_get?_of_lt h
  unfold select
  rw [hc]
  rfl

/-- The next choice is the one at the next position. -/
theorem advance_before (h : i < g.total) : ∃ c, (g.before i).advance = (some c, (g.select i).2) := by
  obtain ⟨c, hc⟩ := Domain.exists_get?_of_lt h
  refine ⟨c, ?_⟩
  unfold advance hasMore
  rw [processed_before, total_before, if_pos (by simpa using h), select_snd h]
  exact congrArg (·, _) hc

/-- There is no next choice behind the last one. -/
theorem advance_before_of_le (h : g.total ≤ i) : (g.before i).advance = (none, g.before i) := by
  unfold advance hasMore
  rw [processed_before, total_before, if_neg (by simpa using h)]

/-- If no choice has been tried and there is no next one, there is none. -/
theorem total_eq_zero_of_advance {g' : Generator} (hcursor : g.cursor = none)
    (h : g.advance = (none, g')) : g.total = 0 := by
  by_contra hne
  obtain ⟨c, hc⟩ := advance_before (Nat.pos_of_ne_zero hne)
  rw [before_zero hcursor, h] at hc
  cases hc

end Generator

end Interleave

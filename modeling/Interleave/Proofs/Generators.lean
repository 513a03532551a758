import Interleave.Proofs.Search.Draws
import Mathlib.Data.List.Nodup

/-!
# Generators go through their whole domain

The values of a domain are given here on exact integers: the one at position `i` of a range is `i`
above the lower bound, however far apart the bounds are. Every domain agrees with that, apart from
the range of all longs, which has one value more than a size can tell.

The cursor of a generator then takes the positions of the domain in their order, wherever random
jumps have put it.
-/

namespace Interleave

namespace Domain

/-! ## The values of a domain -/

/-- The domain has this value at this position, on exact integers. -/
inductive Offers : Domain → Nat → Choice → Prop where
  | thread {ids : List ThreadId} {i : Nat} {t : ThreadId} (h : ids[i]? = some t) :
    Offers (.threads ids) i (.thread t)
  | no : Offers .bool 0 (.bool false)
  | yes : Offers .bool 1 (.bool true)
  | int {lo hi v : Int32} {i : Nat} (hv : v.toInt = lo.toInt + i) (hle : v.toInt ≤ hi.toInt) :
    Offers (.ints lo hi) i (.int v)
  | long {lo hi v : Int64} {i : Nat} (hv : v.toInt = lo.toInt + i) (hle : v.toInt ≤ hi.toInt) :
    Offers (.longs lo hi) i (.long v)
  | float {bits : List UInt32} {i : Nat} {v : UInt32} (h : bits[i]? = some v) :
    Offers (.floats bits) i (.float v)
  | double {bits : List UInt64} {i : Nat} {v : UInt64} (h : bits[i]? = some v) :
    Offers (.doubles bits) i (.double v)
  | reference {refs : List ObjRef} {i : Nat} {r : ObjRef} (h : refs[i]? = some r) :
    Offers (.references refs) i (.reference r)

/-- The number of values, on exact integers. -/
def count : Domain → Int
  | threads ids => ids.length
  | bool => 2
  | ints lo hi => if hi < lo then 0 else hi.toInt - lo.toInt + 1
  | longs lo hi => if hi < lo then 0 else hi.toInt - lo.toInt + 1
  | floats bits => bits.length
  | doubles bits => bits.length
  | references refs => refs.length

variable {d : Domain} {i : Nat} {c : Choice}

/-- The range of all longs. -/
def allLongs : Domain := .longs Int64.minValue Int64.maxValue

theorem maxSize_eq : maxSize = 18446744073709551615 := by decide

/-- Only the range of all longs is cut off at the greatest size. -/
theorem size_longs {lo hi : Int64} (h : longs lo hi ≠ allLongs) :
    (longs lo hi).size = span lo.toInt hi.toInt := by
  have hmin : Int64.minValue.toInt = -9223372036854775808 := by decide
  have hmax : Int64.maxValue.toInt = 9223372036854775807 := by decide
  have hbounds : ¬ (lo.toInt = -9223372036854775808 ∧ hi.toInt = 9223372036854775807) := by
    rintro ⟨hlo, hhi⟩
    rw [← hmin, Int64.toInt_inj] at hlo
    rw [← hmax, Int64.toInt_inj] at hhi
    exact h (by rw [hlo, hhi, allLongs])
  have hlo := Int64.le_toInt lo
  have hhi := Int64.toInt_lt hi
  show min (span lo.toInt hi.toInt) maxSize = _
  rw [maxSize_eq, span]
  omega

theorem size_eq_count (h : d ≠ allLongs) : (d.size : Int) = d.count := by
  cases d with
  | ints lo hi =>
    simp only [size, span, count, Int32.lt_iff_toInt_lt]
    split <;> omega
  | longs lo hi =>
    rw [size_longs h]
    simp only [span, count, Int64.lt_iff_toInt_lt]
    split <;> omega
  | _ => rfl

theorem lt_size_ints {lo hi : Int32} : i < (ints lo hi).size ↔ lo.toInt + i ≤ hi.toInt := by
  rw [size, span]
  omega

theorem lt_size_longs {lo hi : Int64} (h : longs lo hi ≠ allLongs) :
    i < (longs lo hi).size ↔ lo.toInt + i ≤ hi.toInt := by
  rw [size_longs h, span]
  omega

theorem get?_of_size_le (h : d.size ≤ i) : d.get? i = none := by
  unfold get?
  rw [if_neg (Nat.not_lt.mpr h)]

theorem isSome_get?_iff : (d.get? i).isSome ↔ i < d.size := by
  constructor
  · intro h
    by_contra hge
    rw [get?_of_size_le (Nat.not_lt.mp hge)] at h
    cases h
  · intro h
    obtain ⟨c, hc⟩ := exists_get?_of_lt h
    rw [hc]
    rfl

theorem get?_ints {lo hi : Int32} (h : i < (ints lo hi).size) :
    (ints lo hi).get? i = some (.int (Int32.ofInt (lo.toInt + i))) := by
  unfold get?
  rw [if_pos h]

theorem get?_longs {lo hi : Int64} (h : i < (longs lo hi).size) :
    (longs lo hi).get? i = some (.long (Int64.ofInt (lo.toInt + i))) := by
  unfold get?
  rw [if_pos h]

theorem get?_ints_iff {lo hi : Int32} : (ints lo hi).get? i = some c ↔
    ∃ v : Int32, v.toInt = lo.toInt + i ∧ v.toInt ≤ hi.toInt ∧ .int v = c := by
  have hlo := Int32.le_toInt lo
  have hhi := Int32.toInt_lt hi
  constructor
  · intro h
    have hi : i < (ints lo hi).size := isSome_get?_iff.mp (by rw [h]; rfl)
    have hle := lt_size_ints.mp hi
    have hv : (Int32.ofInt (lo.toInt + i)).toInt = lo.toInt + i :=
      Int32.toInt_ofInt_of_le (by omega) (by omega)
    rw [get?_ints hi] at h
    exact ⟨_, hv, by omega, Option.some.inj h⟩
  · rintro ⟨v, hv, hle, rfl⟩
    rw [get?_ints (lt_size_ints.mpr (by omega)), ← hv, Int32.ofInt_toInt]

theorem get?_longs_iff {lo hi : Int64} (hne : longs lo hi ≠ allLongs) :
    (longs lo hi).get? i = some c ↔
      ∃ v : Int64, v.toInt = lo.toInt + i ∧ v.toInt ≤ hi.toInt ∧ .long v = c := by
  have hlo := Int64.le_toInt lo
  have hhi := Int64.toInt_lt hi
  constructor
  · intro h
    have hi : i < (longs lo hi).size := isSome_get?_iff.mp (by rw [h]; rfl)
    have hle := (lt_size_longs hne).mp hi
    have hv : (Int64.ofInt (lo.toInt + i)).toInt = lo.toInt + i :=
      Int64.toInt_ofInt_of_le (by omega) (by omega)
    rw [get?_longs hi] at h
    exact ⟨_, hv, by omega, Option.some.inj h⟩
  · rintro ⟨v, hv, hle, rfl⟩
    rw [get?_longs ((lt_size_longs hne).mpr (by omega)), ← hv, Int64.ofInt_toInt]

/-- A value that is listed is found at its position. -/
theorem listed_iff {α : Type} {f : α → Choice} {xs : List α} (hsize : d.size = xs.length)
    (hget : ∀ i, d.get? i = if i < d.size then xs[i]?.map f else none) :
    d.get? i = some c ↔ ∃ x, xs[i]? = some x ∧ f x = c := by
  rw [hget, hsize]
  by_cases hi : i < xs.length
  · rw [if_pos hi, Option.map_eq_some_iff]
  · rw [if_neg hi, List.getElem?_eq_none (Nat.le_of_not_lt hi)]
    simp

/-- **The values are exact.** -/
theorem get?_eq_some_iff (h : d ≠ allLongs) : d.get? i = some c ↔ d.Offers i c := by
  cases d with
  | threads ids =>
    rw [listed_iff rfl fun _ => rfl]
    constructor
    · rintro ⟨t, ht, rfl⟩
      exact .thread ht
    · rintro ⟨ht⟩
      exact ⟨_, ‹_›, rfl⟩
  | bool =>
    constructor
    · intro h
      have hi : i < 2 := isSome_get?_iff.mp (by rw [h]; rfl)
      match i, hi with
      | 0, _ =>
        cases h
        exact .no
      | 1, _ =>
        cases h
        exact .yes
    · rintro (_ | _) <;> rfl
  | ints lo hi =>
    rw [get?_ints_iff]
    constructor
    · rintro ⟨v, hv, hle, rfl⟩
      exact .int hv hle
    · rintro ⟨hv, hle⟩
      exact ⟨_, ‹_›, ‹_›, rfl⟩
  | longs lo hi =>
    rw [get?_longs_iff h]
    constructor
    · rintro ⟨v, hv, hle, rfl⟩
      exact .long hv hle
    · rintro ⟨hv, hle⟩
      exact ⟨_, ‹_›, ‹_›, rfl⟩
  | floats bits =>
    rw [listed_iff rfl fun _ => rfl]
    constructor
    · rintro ⟨v, hv, rfl⟩
      exact .float hv
    · rintro ⟨hv⟩
      exact ⟨_, ‹_›, rfl⟩
  | doubles bits =>
    rw [listed_iff rfl fun _ => rfl]
    constructor
    · rintro ⟨v, hv, rfl⟩
      exact .double hv
    · rintro ⟨hv⟩
      exact ⟨_, ‹_›, rfl⟩
  | references refs =>
    rw [listed_iff rfl fun _ => rfl]
    constructor
    · rintro ⟨v, hv, rfl⟩
      exact .reference hv
    · rintro ⟨hv⟩
      exact ⟨_, ‹_›, rfl⟩

/-! ### The same values in machine words

A position is a word of 64 bits, and may turn negative where it is taken as a long. -/

/-- The distance between two ints is exact in longs. -/
theorem size_ints_words {lo hi : Int32} (h : lo ≤ hi) :
    (ints lo hi).size = (hi.toInt64 - lo.toInt64).toUInt64.toNat + 1 := by
  have hle := Int32.le_iff_toInt_le.mp h
  have hlo := Int32.le_toInt lo
  have hhi := Int32.toInt_lt hi
  have hdiff : (hi.toInt64 - lo.toInt64).toInt = hi.toInt - lo.toInt := by
    rw [Int64.toInt_sub, Int32.toInt_toInt64, Int32.toInt_toInt64]
    exact Int.bmod_eq_of_le (by omega) (by omega)
  have hnonneg : 0 ≤ hi.toInt64 - lo.toInt64 := by
    rw [Int64.le_iff_toInt_le, hdiff, Int64.toInt_zero]
    omega
  rw [Int64.toNat_toUInt64_of_le hnonneg, Int64.toNatClampNeg, hdiff, size, span]
  omega

/-- The sum of the lower bound and a position is exact in longs, and fits an int. -/
theorem get?_ints_words {lo hi : Int32} (h : i < (ints lo hi).size) :
    (lo.toInt64 + Int64.ofNat i).toInt = lo.toInt + i ∧
      (ints lo hi).get? i = some (.int (lo.toInt64 + Int64.ofNat i).toInt32) := by
  have hle := lt_size_ints.mp h
  have hlo := Int32.le_toInt lo
  have hhi := Int32.toInt_lt hi
  have hsum : (lo.toInt64 + Int64.ofNat i).toInt = lo.toInt + i := by
    rw [Int64.toInt_add, Int32.toInt_toInt64, Int64.toInt_ofNat_of_lt (by omega)]
    exact Int.bmod_eq_of_le (by omega) (by omega)
  refine ⟨hsum, ?_⟩
  rw [get?_ints h, ← hsum]
  rfl

/-- The sum of the lower bound and a position wraps to the exact value. -/
theorem get?_longs_words {lo hi : Int64} (h : i < (longs lo hi).size) :
    (longs lo hi).get? i = some (.long (lo + Int64.ofNat i)) := by
  rw [get?_longs h, Int64.ofInt_add, Int64.ofInt_toInt]
  rfl

/-- The domain has the values that it should have, one at each position below its size. For ranges
the computation in machine words gives the same as the one on exact integers. -/
structure IsExact (d : Domain) : Prop where
  size : (d.size : Int) = d.count
  present : ∀ i, (d.get? i).isSome ↔ i < d.size
  offers : ∀ i c, d.get? i = some c ↔ d.Offers i c
  int_size : ∀ lo hi, d = .ints lo hi → lo ≤ hi →
    d.size = (hi.toInt64 - lo.toInt64).toUInt64.toNat + 1
  int_words : ∀ lo hi, d = .ints lo hi → ∀ i < d.size,
    (lo.toInt64 + Int64.ofNat i).toInt = lo.toInt + i ∧
      d.get? i = some (.int (lo.toInt64 + Int64.ofNat i).toInt32)
  long_words : ∀ lo hi, d = .longs lo hi → ∀ i < d.size,
    d.get? i = some (.long (lo + Int64.ofNat i))

theorem isExact (h : d ≠ allLongs) : d.IsExact where
  size := size_eq_count h
  present _ := isSome_get?_iff
  offers _ _ := get?_eq_some_iff h
  int_size := by
    rintro lo hi rfl hle
    exact size_ints_words hle
  int_words := by
    rintro lo hi rfl i hi
    exact get?_ints_words hi
  long_words := by
    rintro lo hi rfl i hi
    exact get?_longs_words hi

end Domain

namespace Generator

/-! ## Going through a domain -/

variable {g g' : Generator} {i : Nat} {cs : List Choice}

/-- These are the choices that are gone through until there is no next one. -/
inductive Drains : Generator → List Choice → Generator → Prop where
  | drained {g g' : Generator} (h : g.advance = (none, g')) : Drains g [] g'
  | next {g g' g'' : Generator} {c : Choice} {cs : List Choice} (h : g.advance = (some c, g'))
    (rest : Drains g' cs g'') : Drains g (c :: cs) g''

/-- The choices of a domain from a position on. -/
def choicesFrom (d : Domain) (i : Nat) : List Choice :=
  (List.range' i (d.size - i)).filterMap d.get?

theorem choicesFrom_of_get? {d : Domain} {c : Choice} (h : d.get? i = some c) :
    choicesFrom d i = c :: choicesFrom d (i + 1) := by
  have hi : i < d.size := Domain.isSome_get?_iff.mp (by rw [h]; rfl)
  have hsize : d.size - i = (d.size - (i + 1)) + 1 := by omega
  rw [choicesFrom, hsize, List.range'_succ, List.filterMap_cons, h]
  rfl

theorem choicesFrom_of_size_le {d : Domain} (h : d.size ≤ i) : choicesFrom d i = [] := by
  rw [choicesFrom, Nat.sub_eq_zero_of_le h]
  rfl

theorem length_choicesFrom (d : Domain) (i : Nat) : (choicesFrom d i).length = d.size - i := by
  obtain ⟨k, hk⟩ : ∃ k, k = d.size - i := ⟨_, rfl⟩
  induction k generalizing i with
  | zero =>
    rw [choicesFrom_of_size_le (by omega), ← hk]
    rfl
  | succ k ih =>
    obtain ⟨c, hc⟩ := Domain.exists_get?_of_lt (d := d) (i := i) (by omega)
    rw [choicesFrom_of_get? hc, List.length_cons, ih (i + 1) (by omega)]
    omega

theorem getElem?_choicesFrom (d : Domain) (i n : Nat) :
    (choicesFrom d i)[n]? = d.get? (i + n) := by
  induction n generalizing i with
  | zero =>
    cases hget : d.get? i with
    | none =>
      have hsize : d.size ≤ i := by
        by_contra hlt
        have hsome := Domain.isSome_get?_iff.mpr (Nat.lt_of_not_le hlt)
        rw [hget] at hsome
        cases hsome
      rw [choicesFrom_of_size_le hsize]
      rfl
    | some c =>
      rw [choicesFrom_of_get? hget]
      rfl
  | succ n ih =>
    rcases Nat.lt_or_ge i d.size with hi | hi
    · obtain ⟨c, hc⟩ := Domain.exists_get?_of_lt hi
      rw [choicesFrom_of_get? hc, List.getElem?_cons_succ, ih (i + 1)]
      congr 1
      omega
    · rw [choicesFrom_of_size_le hi, Domain.get?_of_size_le (by omega)]
      rfl

/-- The next choice of a generator is the one behind those that have been passed. -/
theorem advance_of_get? {c : Choice} (h : g.domain.get? g.processed = some c) :
    g.advance = (some c, { g with cursor := some g.processed }) := by
  have hmore : g.hasMore = true := by
    unfold hasMore
    exact decide_eq_true (Domain.isSome_get?_iff.mp (by rw [h]; rfl))
  rw [advance, if_pos hmore, h]

/-- There is no next choice behind the last one, and looking for it changes nothing. -/
theorem advance_of_total_le (h : g.total ≤ g.processed) : g.advance = (none, g) := by
  have hmore : ¬ g.hasMore = true := by
    unfold hasMore
    simpa using h
  rw [advance, if_neg hmore]

/-- A generator whose choices before a position have been tried goes through the others. -/
theorem drains_before (h : i ≤ g.total) :
    Drains (g.before i) (choicesFrom g.domain i) (g.before g.total) := by
  obtain ⟨k, hk⟩ : ∃ k, k = g.total - i := ⟨_, rfl⟩
  induction k generalizing i with
  | zero =>
    have hi : i = g.total := by omega
    rw [hi, choicesFrom_of_size_le (d := g.domain) (i := g.total) (Nat.le_refl _)]
    exact .drained (advance_before_of_le (Nat.le_refl _))
  | succ k ih =>
    have hi : i < g.total := by omega
    obtain ⟨c, hc⟩ := Domain.exists_get?_of_lt hi
    rw [choicesFrom_of_get? hc]
    have hnext : (g.before i).advance = (some c, g.before (i + 1)) := by
      rw [advance_of_get? (by rw [processed_before]; exact hc), processed_before]
      rfl
    exact .next hnext (ih hi (by omega))

/-- Going through a generator has one outcome. -/
theorem Drains.unique {cs' : List Choice} {g₁ g₂ : Generator} (h : Drains g cs g₁)
    (h' : Drains g cs' g₂) : cs' = cs ∧ g₂ = g₁ := by
  induction h generalizing cs' with
  | drained h =>
    cases h' with
    | drained h' =>
      rw [h] at h'
      cases h'
      exact ⟨rfl, rfl⟩
    | next h' rest' =>
      rw [h] at h'
      cases h'
  | next h rest ih =>
    cases h' with
    | drained h' =>
      rw [h] at h'
      cases h'
    | next h' rest' =>
      rw [h] at h'
      cases h'
      obtain ⟨rfl, rfl⟩ := ih rest'
      exact ⟨rfl, rfl⟩

/-- All values of a domain in their order, each of a range exactly once. -/
structure Lists (d : Domain) (cs : List Choice) : Prop where
  length : cs.length = d.size
  getElem? : ∀ i, cs[i]? = d.get? i
  ints : ∀ lo hi, d = .ints lo hi →
    ∀ v, cs.count (.int v) = if lo ≤ v ∧ v ≤ hi then 1 else 0
  longs : ∀ lo hi, d = .longs lo hi →
    ∀ v, cs.count (.long v) = if lo ≤ v ∧ v ≤ hi then 1 else 0

/-- A value that has at most one position is listed once if it has one, and not at all if not. -/
theorem count_choicesFrom {d : Domain} {c : Choice} {p : Prop} [Decidable p]
    (hinj : ∀ i j c, d.get? i = some c → d.get? j = some c → i = j)
    (hmem : (∃ i, d.get? i = some c) ↔ p) : (choicesFrom d 0).count c = if p then 1 else 0 := by
  have hget : ∀ i, (choicesFrom d 0)[i]? = d.get? i := by
    intro i
    rw [getElem?_choicesFrom, Nat.zero_add]
  have hlisted : c ∈ choicesFrom d 0 ↔ p := by
    rw [List.mem_iff_getElem?, ← hmem]
    simp only [hget]
  split
  · rename_i hp
    refine List.count_eq_one_of_mem (List.nodup_iff_getElem?_ne_getElem?.mpr ?_) (hlisted.mpr hp)
    intro i j hij hj heq
    have hj' := List.getElem?_eq_getElem hj
    have hi' := heq.trans hj'
    rw [hget] at hi' hj'
    exact Nat.ne_of_lt hij (hinj i j _ hi' hj')
  · rename_i hp
    exact List.count_eq_zero.mpr (mt hlisted.mp hp)

theorem lists_choicesFrom {d : Domain} (h : d ≠ Domain.allLongs) : Lists d (choicesFrom d 0) where
  length := length_choicesFrom d 0
  getElem? i := by rw [getElem?_choicesFrom, Nat.zero_add]
  ints lo hi hd v := by
    subst hd
    refine count_choicesFrom (fun i j c hi hj => ?_) ?_
    · obtain ⟨w, hw, -, rfl⟩ := Domain.get?_ints_iff.mp hi
      obtain ⟨w', hw', -, hwv'⟩ := Domain.get?_ints_iff.mp hj
      cases hwv'
      omega
    · rw [Domain.exists_get?_ints]
      constructor
      · rintro ⟨w, hlo, hhi, hw⟩
        cases hw
        exact ⟨hlo, hhi⟩
      · rintro ⟨hlo, hhi⟩
        exact ⟨v, hlo, hhi, rfl⟩
  longs lo hi hd v := by
    subst hd
    refine count_choicesFrom (fun i j c hi hj => ?_) ?_
    · obtain ⟨w, hw, -, rfl⟩ := (Domain.get?_longs_iff h).mp hi
      obtain ⟨w', hw', -, hwv'⟩ := (Domain.get?_longs_iff h).mp hj
      cases hwv'
      omega
    · constructor
      · rintro ⟨i, hi⟩
        obtain ⟨w, hw, hle, hwv⟩ := (Domain.get?_longs_iff h).mp hi
        cases hwv
        rw [Int64.le_iff_toInt_le, Int64.le_iff_toInt_le]
        omega
      · rw [Int64.le_iff_toInt_le, Int64.le_iff_toInt_le]
        rintro ⟨hlo, hhi⟩
        have hv : v.toInt = lo.toInt + ((v.toInt - lo.toInt).toNat : Int) := by omega
        exact ⟨_, (Domain.get?_longs_iff h).mpr ⟨v, hv, hhi, rfl⟩⟩

/-! ## Moving the cursor -/

/-- The generator is what a fresh one becomes when choices are taken in any way. -/
inductive Reached (id : String) (d : Domain) : Generator → Prop where
  | fresh : Reached id d { id, domain := d }
  | advance {g : Generator} (h : Reached id d g) : Reached id d g.advance.2
  | select {g : Generator} (h : Reached id d g) (i : Nat) : Reached id d (g.select i).2
  | selectRandom {g : Generator} (h : Reached id d g) (rng : Rng) :
    Reached id d (g.selectRandom rng).2.1
  | reset {g : Generator} (h : Reached id d g) : Reached id d g.reset

/-- The cursor is at no position or at one of the domain. -/
structure Placed (id : String) (d : Domain) (g : Generator) : Prop where
  id : g.id = id
  domain : g.domain = d
  cursor : ∀ i, g.cursor = some i → i < d.size

variable {id : String} {d : Domain}

theorem Placed.at (h : Placed id d g) (hi : i < d.size) :
    Placed id d { g with cursor := some i } where
  id := h.id
  domain := h.domain
  cursor j hj := by
    cases hj
    exact hi

theorem Placed.total (h : Placed id d g) : g.total = d.size := congrArg Domain.size h.domain

theorem select_of_get? {c : Choice} (h : g.domain.get? i = some c) :
    g.select i = (some c, { g with cursor := some i }) := by
  rw [select, h]

theorem select_of_total_le (h : g.total ≤ i) : g.select i = (none, g) := by
  rw [select, Domain.get?_of_size_le h]

/-- A random choice is the one at some position, whatever the state of the source of numbers. -/
theorem exists_selectRandom (h : 0 < g.total) (rng : Rng) :
    ∃ i c rng', i < g.total ∧ g.domain.get? i = some c ∧
      g.selectRandom rng = (some c, { g with cursor := some i }, rng') := by
  have hindex := Rng.index_lt rng h
  unfold Rng.index at hindex
  unfold selectRandom
  rw [if_neg (Nat.ne_of_gt h)]
  obtain ⟨⟨i, rng'⟩, hr⟩ : ∃ r, r = rng.below (UInt64.ofNat g.total) := ⟨_, rfl⟩
  rw [← hr] at hindex ⊢
  obtain ⟨c, hc⟩ := Domain.exists_get?_of_lt hindex
  refine ⟨i.toNat, c, rng', hindex, hc, ?_⟩
  dsimp only
  rw [select_of_get? hc]

theorem Placed.advance (h : Placed id d g) : Placed id d g.advance.2 := by
  rcases Nat.lt_or_ge g.processed g.total with hlt | hge
  · obtain ⟨c, hc⟩ := Domain.exists_get?_of_lt hlt
    rw [advance_of_get? hc]
    exact h.at (h.total ▸ hlt)
  · rw [advance_of_total_le hge]
    exact h

theorem Placed.select (h : Placed id d g) (i : Nat) : Placed id d (g.select i).2 := by
  rcases Nat.lt_or_ge i g.total with hlt | hge
  · obtain ⟨c, hc⟩ := Domain.exists_get?_of_lt hlt
    rw [select_of_get? hc]
    exact h.at (h.total ▸ hlt)
  · rw [select_of_total_le hge]
    exact h

theorem Placed.selectRandom (h : Placed id d g) (rng : Rng) :
    Placed id d (g.selectRandom rng).2.1 := by
  rcases Nat.eq_zero_or_pos g.total with hzero | hpos
  · rw [selectRandom_of_empty hzero]
    exact h
  · obtain ⟨i, c, rng', hi, -, hselect⟩ := exists_selectRandom hpos rng
    rw [hselect]
    exact h.at (h.total ▸ hi)

theorem Reached.placed (h : Reached id d g) : Placed id d g := by
  induction h with
  | fresh => exact ⟨rfl, rfl, nofun⟩
  | advance _ ih => exact ih.advance
  | select _ i ih => exact ih.select i
  | selectRandom _ rng ih => exact ih.selectRandom rng
  | reset _ ih => exact ⟨ih.id, ih.domain, nofun⟩

/-- What the operations on a generator do, in terms of the values of its domain. -/
structure Serves (d : Domain) (g : Generator) : Prop where
  /-- The cursor is before the first choice, or at one that is the current one. -/
  cursor : (g.cursor = none ∧ g.processed = 0 ∧ g.current = none) ∨
    ∃ i c, i < d.size ∧ g.cursor = some i ∧ g.processed = i + 1 ∧ d.Offers i c ∧ g.current = some c
  /-- A choice is selected at each position, and the next one after it is at the next position. -/
  select : ∀ i, i < d.size → ∃ c, d.Offers i c ∧
    g.select i = (some c, { g with cursor := some i }) ∧
    (g.select i).2.advance =
      if i + 1 < d.size then (d.get? (i + 1), { g with cursor := some (i + 1) })
      else (none, (g.select i).2)
  /-- A random choice is among those of the domain. -/
  selectRandom : 0 < d.size → ∀ rng, ∃ i c rng', d.Offers i c ∧
    g.selectRandom rng = (some c, { g with cursor := some i }, rng')
  advance_fails : g.advance.1 = none → g.advance.2 = g
  select_fails : ∀ i, (g.select i).1 = none → (g.select i).2 = g

theorem Placed.serves (hd : d ≠ Domain.allLongs) (h : Placed id d g) : Serves d g where
  cursor := by
    have hdomain := h.domain
    have hcursor := h.cursor
    unfold processed current
    cases hg : g.cursor with
    | none => exact .inl ⟨rfl, rfl, rfl⟩
    | some i =>
      have hi := hcursor i hg
      obtain ⟨c, hc⟩ := Domain.exists_get?_of_lt hi
      exact .inr ⟨i, c, hi, rfl, rfl, (Domain.get?_eq_some_iff hd).mp hc, hdomain ▸ hc⟩
  select i hi := by
    obtain ⟨c, hc⟩ := Domain.exists_get?_of_lt hi
    have hselect : g.select i = (some c, { g with cursor := some i }) :=
      select_of_get? (h.domain ▸ hc)
    refine ⟨c, (Domain.get?_eq_some_iff hd).mp hc, hselect, ?_⟩
    rw [hselect]
    split
    · rename_i hnext
      obtain ⟨c', hc'⟩ := Domain.exists_get?_of_lt hnext
      rw [hc']
      exact advance_of_get? (h.domain ▸ hc')
    · rename_i hlast
      exact advance_of_total_le (h.total ▸ Nat.le_of_not_lt hlast)
  selectRandom hpos rng := by
    obtain ⟨i, c, rng', -, hc, hselect⟩ := exists_selectRandom (g := g) (h.total ▸ hpos) rng
    exact ⟨i, c, rng', (Domain.get?_eq_some_iff hd).mp (h.domain ▸ hc), hselect⟩
  advance_fails hnone := by
    rcases Nat.lt_or_ge g.processed g.total with hlt | hge
    · obtain ⟨c, hc⟩ := Domain.exists_get?_of_lt hlt
      rw [advance_of_get? hc] at hnone
      cases hnone
    · rw [advance_of_total_le hge]
  select_fails i hnone := by
    rcases Nat.lt_or_ge i g.total with hlt | hge
    · obtain ⟨c, hc⟩ := Domain.exists_get?_of_lt hlt
      rw [select_of_get? hc] at hnone
      cases hnone
    · rw [select_of_total_le hge]

/-- **Generators enumerate their domain.** The domain has exact values at the positions below its
size. A fresh generator goes through all of them in their order, and through nothing else. And
however choices have been taken from it, its cursor is empty or at one of them, it goes on from
where a selection has put it, and an operation that gives no choice changes nothing. -/
theorem enumerates_domain (hd : d ≠ Domain.allLongs) (id : String) :
    d.IsExact ∧
      (∃ cs, Lists d cs ∧ (∃ g', Drains { id, domain := d } cs g') ∧
        ∀ cs' g', Drains { id, domain := d } cs' g' → cs' = cs) ∧
      ∀ g, Reached id d g → g.id = id ∧ g.domain = d ∧ Serves d g := by
  refine ⟨Domain.isExact hd, ⟨choicesFrom d 0, lists_choicesFrom hd, ?_⟩, fun g hg => ?_⟩
  · have hdrains := drains_before (g := { id, domain := d }) (Nat.zero_le _)
    rw [before_zero rfl] at hdrains
    exact ⟨⟨_, hdrains⟩, fun cs' g' h => (hdrains.unique h).1⟩
  · exact ⟨hg.placed.id, hg.placed.domain, hg.placed.serves hd⟩

/-- The largest range whose size can be told: its last position is `-2` as a long, and the value
there is the upper bound. -/
theorem enumerates_domain_widest :
    let d := Domain.longs (Int64.minValue + 1) Int64.maxValue
    d ≠ Domain.allLongs ∧ d.size = 18446744073709551615 ∧ Int64.ofNat 18446744073709551614 = -2 ∧
      d.get? 18446744073709551614 = some (.long Int64.maxValue) ∧
      d.get? 18446744073709551615 = none := by
  intro d
  have hd : d ≠ Domain.allLongs := by decide
  obtain ⟨hexact, -, -⟩ := enumerates_domain hd "longs"
  have hsize : (d.size : Int) = 18446744073709551615 := hexact.size.trans (by decide)
  have hlast := (hexact.offers 18446744073709551614 (.long Int64.maxValue)).mpr
    (.long (by decide) (by decide))
  have hpast := mt (hexact.present 18446744073709551615).mp (by omega)
  exact ⟨hd, by omega, by decide, hlast, by simpa using hpast⟩

end Generator
end Interleave

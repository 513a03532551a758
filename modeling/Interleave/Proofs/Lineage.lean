import Interleave.Proofs.Provenance
import Mathlib.Order.Defs.Unbundled

/-!
# Classes and their superclasses

The chain of a class is the walk from the class to its superclass, and on until a class has none. In
`Program.chain` the walk breaks off where a superclass is not declared earlier; in a program whose
superclasses all come first it never does, so that the chain is the whole walk, `Program.Ascends`.
Numbers fall along a chain, which makes classes ordered by it.
-/

namespace Interleave.Program

variable {p : Program} {c d e : ClassId}

/-- The walk from a class up to one without a superclass, and the classes that it passes. -/
inductive Ascends (p : Program) : ClassId → List ClassId → Prop where
  | top {c : ClassId} (none : p.superclass? c = none) : Ascends p c [c]
  | up {c s : ClassId} {above : List ClassId} (some : p.superclass? c = some s)
    (rest : Ascends p s above) : Ascends p c (c :: above)

/-- Every superclass is declared before the classes below it. -/
def SuperclassesFirst (p : Program) : Prop :=
  ∀ c s, p.superclass? c = some s → s.index < c.index

/-! ## Chains -/

/-- If superclasses come first, the walk from a class ends, and it passes the chain of the class. -/
theorem SuperclassesFirst.ascends (h : p.SuperclassesFirst) (c : ClassId) :
    p.Ascends c (p.chain c) := by
  induction c using chain.induct with
  | _ c ih =>
    rw [chain]
    cases hs : p.superclass? c with
    | none => exact .top hs
    | some s =>
      have hlt : s.index < c.index := h c s hs
      simp only [hlt, if_true]
      exact .up hs (ih s hlt)

/-- The class at the end of a walk has no superclass. -/
theorem Ascends.exists_getLast? {l : List ClassId} (h : p.Ascends c l) :
    ∃ r, l.getLast? = some r ∧ p.superclass? r = none := by
  induction h with
  | @top c hnone => exact ⟨c, rfl, hnone⟩
  | @up c s above _ _ ih =>
    obtain ⟨r, hr, hnone⟩ := ih
    refine ⟨r, ?_, hnone⟩
    rw [List.getLast?_cons, hr]
    rfl

theorem mem_chain_self (p : Program) (c : ClassId) : c ∈ p.chain c := mem_chain_iff.mpr (.inl rfl)

/-- Numbers fall along a chain. -/
theorem index_le_of_mem_chain (h : d ∈ p.chain c) : d.index ≤ c.index := by
  induction c using chain.induct with
  | _ c ih =>
    rcases mem_chain_iff.mp h with rfl | ⟨s, hs, hlt, hd⟩
    · exact Nat.le_refl _
    · exact Nat.le_trans (ih s hlt hd) (Nat.le_of_lt hlt)

/-- The superclasses of a superclass are superclasses. -/
theorem mem_chain_trans (hd : d ∈ p.chain c) (he : e ∈ p.chain d) : e ∈ p.chain c := by
  induction c using chain.induct with
  | _ c ih =>
    rcases mem_chain_iff.mp hd with rfl | ⟨s, hs, hlt, hds⟩
    · exact he
    · exact mem_chain_iff.mpr (.inr ⟨s, hs, hlt, ih s hlt hds⟩)

/-- No class is passed twice. -/
theorem nodup_chain (p : Program) (c : ClassId) : (p.chain c).Nodup := by
  induction c using chain.induct with
  | _ c ih =>
    rw [chain]
    cases hs : p.superclass? c with
    | none => simp
    | some s =>
      by_cases hlt : s.index < c.index
      · simp only [hlt, if_true, List.nodup_cons]
        refine ⟨fun hmem => ?_, ih s hlt⟩
        have hle : c.index ≤ s.index := index_le_of_mem_chain hmem
        omega
      · simp [hlt]

/-- Being a class or below it is a partial order. -/
theorem isPartialOrder_isSubclass (p : Program) :
    IsPartialOrder ClassId fun sub sup => p.isSubclass sub sup = true where
  refl c := by simpa [isSubclass] using mem_chain_self p c
  trans c d e hd he := by
    simp only [isSubclass, decide_eq_true_eq] at *
    exact mem_chain_trans hd he
  antisymm c d hd hc := by
    simp only [isSubclass, decide_eq_true_eq] at *
    have hdc : d.index ≤ c.index := index_le_of_mem_chain hd
    have hcd : c.index ≤ d.index := index_le_of_mem_chain hc
    obtain ⟨i⟩ := c
    obtain ⟨j⟩ := d
    exact congrArg ClassId.mk (Nat.le_antisymm hcd hdc)

end Interleave.Program

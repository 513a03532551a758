import Interleave.Proofs.Choice
import Interleave.Proofs.Search.Arrival

/-!
# Drawing a choice

A draw gives one of the choices of a generator, whatever the state of the source of random numbers.
So a round of a sampling search fails to choose only at a generator without choices; otherwise it
runs the transition of the choice that was drawn, and looks at the state it leads to.
-/

namespace Interleave

open Effect

namespace Rng

variable {n r : UInt64} {rng : Rng}

/-- The high half of a product is below each of its factors. -/
theorem wideMul_fst_lt (r : UInt64) (hn : 0 < n) : (wideMul r n).1 < n := by
  have hn' : 0 < n.toNat := UInt64.lt_iff_toNat_lt.mp hn
  have hlt : r.toNat * n.toNat < UInt64.size * n.toNat :=
    Nat.mul_lt_mul_of_pos_right r.toNat_lt_size hn'
  have hhigh : r.toNat * n.toNat / UInt64.size < n.toNat := Nat.div_lt_of_lt_mul hlt
  rw [UInt64.lt_iff_toNat_lt]
  show (UInt64.ofNat (r.toNat * n.toNat / UInt64.size)).toNat < n.toNat
  rw [UInt64.toNat_ofNat_of_lt' (Nat.lt_trans hhigh n.toNat_lt_size)]
  exact hhigh

theorem drawAbove_lt {bound hi lo : UInt64} {k : Nat} (hn : 0 < n) (hhi : hi < n) :
    (drawAbove n bound k hi lo rng).1 < n := by
  induction k generalizing hi lo rng with
  | zero => exact hhi
  | succ k ih =>
    unfold drawAbove
    split
    · exact ih (wideMul_fst_lt _ hn)
    · exact hhi

theorem below_lt (rng : Rng) (hn : 0 < n) : (below n rng).1 < n := by
  unfold below
  have hhigh := wideMul_fst_lt rng.next.1 hn
  dsimp only
  split
  · exact drawAbove_lt hn hhigh
  · exact hhigh

theorem below_zero (rng : Rng) : (below 0 rng).1 = 0 := by
  have hzero : wideMul rng.next.1 0 = (0, 0) := by simp [wideMul]
  unfold below
  dsimp only
  rw [hzero, if_neg (by decide)]

/-- One of `n` positions is drawn. -/
def index (n : Nat) (rng : Rng) : Nat × Rng :=
  ((rng.below (UInt64.ofNat n)).1.toNat, (rng.below (UInt64.ofNat n)).2)

theorem index_lt {n : Nat} (rng : Rng) (h : 0 < n) : (index n rng).1 < n := by
  have hle : (UInt64.ofNat n).toNat ≤ n := by
    rw [UInt64.toNat_ofNat']
    exact Nat.mod_le _ _
  show (rng.below (UInt64.ofNat n)).1.toNat < n
  by_cases hzero : UInt64.ofNat n = 0
  · rw [hzero, below_zero]
    exact h
  · have hlt := below_lt rng (UInt64.pos_iff_ne_zero.mpr hzero)
    exact Nat.lt_of_lt_of_le (UInt64.lt_iff_toNat_lt.mp hlt) hle

/-- What is drawn one after another, and the state afterwards, when a draw is made by `f`. -/
def drawsBy {σ : Type} (f : Nat → σ → Nat × σ) : List Nat → σ → List Nat × σ
  | [], s => ([], s)
  | n :: ns, s => ((f n s).1 :: (drawsBy f ns (f n s).2).1, (drawsBy f ns (f n s).2).2)

theorem drawsBy_concat {σ : Type} (f : Nat → σ → Nat × σ) (ns : List Nat) (n : Nat) (s : σ) :
    (drawsBy f (ns ++ [n]) s).1 = (drawsBy f ns s).1 ++ [(f n (drawsBy f ns s).2).1] ∧
      (drawsBy f (ns ++ [n]) s).2 = (f n (drawsBy f ns s).2).2 := by
  induction ns generalizing s with
  | nil => exact ⟨rfl, rfl⟩
  | cons k ns ih =>
    rw [List.cons_append, drawsBy, drawsBy, (ih _).1, (ih _).2]
    exact ⟨rfl, rfl⟩

/-- The positions that are drawn one after another, each among so many. -/
def draws (ns : List Nat) (rng : Rng) : List Nat := (drawsBy index ns rng).1

def after (ns : List Nat) (rng : Rng) : Rng := (drawsBy index ns rng).2

theorem draws_concat (ns : List Nat) (n : Nat) (rng : Rng) :
    draws (ns ++ [n]) rng = draws ns rng ++ [(index n (after ns rng)).1] := by
  unfold draws after
  exact (drawsBy_concat index ns n rng).1

theorem after_concat (ns : List Nat) (n : Nat) (rng : Rng) :
    after (ns ++ [n]) rng = (index n (after ns rng)).2 := by
  unfold after
  exact (drawsBy_concat index ns n rng).2

end Rng

namespace Generator

variable {g : Generator}

theorem selectRandom_of_empty {rng : Rng} (h : g.total = 0) :
    g.selectRandom rng = (none, g, rng) := by
  unfold selectRandom
  rw [if_pos h]

/-- The choice that is drawn becomes the current one. -/
theorem selectRandom_eq (rng : Rng) (h : 0 < g.total) :
    ∃ c, g.selectRandom rng =
      (some c, (g.select (rng.index g.total).1).2, (rng.index g.total).2) := by
  obtain ⟨c, hc⟩ := exists_select_fst (Rng.index_lt rng h)
  obtain ⟨⟨i, rng'⟩, hr⟩ : ∃ r, r = rng.below (UInt64.ofNat g.total) := ⟨_, rfl⟩
  have hindex : rng.index g.total = (i.toNat, rng') := by
    unfold Rng.index
    rw [← hr]
  rw [hindex] at hc ⊢
  refine ⟨c, ?_⟩
  unfold selectRandom
  rw [if_neg (Nat.ne_of_gt h), ← hr]
  dsimp only at hc ⊢
  rw [hc]

end Generator

namespace Search.Sampling

variable {s : Search} {g root : Generator} (bound : Option Nat) (init : Snapshot) (root : Generator)
  (rng : Rng)

/-- The search goes on from where it has come to, or starts another path, or is over. -/
def look (bound : Option Nat) (init : Snapshot) (root : Generator) (rng : Rng) :
    Action ((Generator × Rng) ⊕ Unit) := fun s =>
  match proceed s.checkProperties.2 bound with
  | (some next, s) => .ok (.inl (next, rng)) s
  | (none, s) =>
    if s.done || s.config.pathLimit < s.pathFinished.stats.paths then .ok (.inr ()) s.pathFinished
    else .ok (.inl (root, rng)) (s.pathFinished.restore init)

theorem round_eq (h : 0 < g.total) :
    round bound init root (g, rng) s =
      (forward (g.select (rng.index g.total).1).2 >>= fun _ =>
        look bound init root (rng.index g.total).2) s := by
  obtain ⟨c, hc⟩ := g.selectRandom_eq rng h
  unfold round
  dsimp only
  rw [hc]
  refine bind_congr fun _ t => ?_
  rw [get_bind]
  unfold look
  rcases proceed t.checkProperties.2 bound with ⟨_ | next, t'⟩
  · dsimp only
    split
    · rename_i hover
      rw [if_pos (show (t'.done || t'.config.pathLimit < t'.pathFinished.stats.paths) = true
        from hover)]
      rfl
    · rename_i hgo
      rw [if_neg (show ¬(t'.done || t'.config.pathLimit < t'.pathFinished.stats.paths) = true
        from hgo)]
      rfl
  · rfl

theorem round_of_empty (h : g.total = 0) :
    round bound init root (g, rng) s = .error (.emptyChoice g.id) s := by
  unfold round
  dsimp only
  rw [Generator.selectRandom_of_empty h]
  rfl

end Search.Sampling

end Interleave

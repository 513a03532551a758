import Interleave.Proofs.Choice
import Interleave.Proofs.Search.Arrival

/-!
# The stack of a depth-first search

A choice point stands on the stack with the choices before a position tried. A round tries the next
choice of the choice point on top, from the state in front of it, or takes the choice point off the
stack when no choice is left.
-/

namespace Interleave.Search.DepthFirst

open Effect

variable {s s₁ : Search} {m : Machine} {g : Generator} {i : Nat} {fresh : Bool}
  {e : TransitionEnd} (bound : Option Nat) (rest : List Branch)

/-- A choice point on the stack with the choices before a position tried. -/
def branchAt (m : Machine) (g : Generator) (i : Nat) (fresh : Bool) : Branch :=
  { snapshot := m.snapshot, generator := g.before i, fresh }

/-- The search goes back to a choice point, unless it is still there. -/
def backTo (s : Search) (top : Branch) : Search :=
  if top.fresh then s else s.backtrack top.snapshot

/-- What an arrival makes of the stack. -/
def stackAfter (stack : List Branch) (s : Search) : Arrival → List Branch ⊕ Unit
  | .stopped => .inr ()
  | .closed => .inl stack
  | .opened g => .inl (branch s g :: stack)

/-- A choice point that was just reached has no choice tried. -/
theorem branch_eq (h : s.machine.Alike True { m with pending := none }) (hg : g.cursor = none) :
    branch s g = branchAt m g 0 true := by
  unfold branch branchAt
  rw [h.snapshot, Generator.before_zero hg]
  rfl

/-- The search is in the state in front of the choice point on top, once it has gone back. -/
theorem backTo_branchAt (hrun : Machine.SameRun m s.machine)
    (hfresh : fresh = true → s.machine.Alike True { m with pending := none }) :
    (backTo s (branchAt m g i fresh) = s ∨
        Returned s m.snapshot (backTo s (branchAt m g i fresh))) ∧
      (backTo s (branchAt m g i fresh)).machine.Alike True { m with pending := none } := by
  cases fresh with
  | true => exact ⟨.inl rfl, hfresh rfl⟩
  | false =>
    have hreturned := Returned.backtrack s m.snapshot
    refine ⟨.inr hreturned, ?_⟩
    rw [show backTo s (branchAt m g i false) = s.backtrack m.snapshot from rfl, hreturned.machine]
    exact hrun.restore

/-- A search that is over goes no further. -/
theorem round_of_done {top : Branch} (hdone : s.done = true) :
    round bound (top :: rest) s = .ok (.inr ()) s := by
  unfold round
  dsimp only
  rw [get_bind, hdone, if_pos rfl]
  rfl

/-- The search looks at the state it has reached, above this stack. -/
def look (bound : Option Nat) (stack : List Branch) : Action (List Branch ⊕ Unit) := fun s =>
  .ok (stackAfter stack (s.arrive bound).2 (s.arrive bound).1) (s.arrive bound).2

/-- The choice point on top is gone through, from wherever its generator stands. -/
theorem round_cons (top : Branch) (hdone : s.done = false) :
    round bound (top :: rest) s =
      match top.generator.advance with
      | (none, _) =>
        if top.generator.total = 0 then .error (.emptyChoice top.generator.id) s
        else .ok (.inl rest) s
      | (some _, g) =>
        (forward g >>= fun _ => look bound ({ top with generator := g, fresh := false } :: rest))
          (backTo s top) := by
  unfold round
  dsimp only
  rw [get_bind, hdone, if_neg Bool.false_ne_true]
  rcases top.generator.advance with ⟨_ | c, g'⟩
  · dsimp only
    split <;> rfl
  · obtain ⟨snapshot, generator, fresh⟩ := top
    dsimp only
    cases fresh
    case' true => rw [if_neg (by decide)]
    case' false => rw [if_pos (by decide), modify_bind]
    -- from here on the two cases differ only in where the search stands
    all_goals
      refine bind_congr fun _ t => ?_
      have harrive : t.arrive bound = ((t.arrive bound).1, (t.arrive bound).2) := rfl
      rw [get_bind, harrive]
      unfold look
      cases (t.arrive bound).1 <;> rfl

/-- A choice point without any choices is a fault. -/
theorem round_of_empty (hdone : s.done = false) (hempty : g.total = 0) :
    round bound (branchAt m g i fresh :: rest) s = .error (.emptyChoice g.id) s := by
  rw [round_cons bound rest _ hdone, show (branchAt m g i fresh).generator.advance = _ from
    Generator.advance_before_of_le (hempty ▸ Nat.zero_le i)]
  exact if_pos hempty

/-- A choice point without further choices leaves the stack. -/
theorem round_of_exhausted (hdone : s.done = false) (hi : g.total ≤ i) (hpos : 0 < g.total) :
    round bound (branchAt m g i fresh :: rest) s = .ok (.inl rest) s := by
  rw [round_cons bound rest _ hdone,
    show (branchAt m g i fresh).generator.advance = _ from Generator.advance_before_of_le hi]
  exact if_neg (Nat.ne_of_gt hpos)

/-- The next choice of the choice point on top is tried, and the state it leads to looked at. -/
theorem round_eq (hdone : s.done = false) (hi : i < g.total) :
    round bound (branchAt m g i fresh :: rest) s =
      (forward (g.select i).2 >>= fun _ => look bound (branchAt m g (i + 1) false :: rest))
        (backTo s (branchAt m g i fresh)) := by
  obtain ⟨c, hadvance⟩ := Generator.advance_before hi
  rw [round_cons bound rest _ hdone,
    show (branchAt m g i fresh).generator.advance = _ from hadvance, Generator.select_snd hi]
  rfl

/-- A choice whose transition succeeds. -/
theorem round_of_choice (hdone : s.done = false) (hi : i < g.total)
    (hforward : forward (g.select i).2 (backTo s (branchAt m g i fresh)) = .ok e s₁) :
    round bound (branchAt m g i fresh :: rest) s =
      .ok (stackAfter (branchAt m g (i + 1) false :: rest) (s₁.arrive bound).2 (s₁.arrive bound).1)
        (s₁.arrive bound).2 := by
  rw [round_eq bound rest hdone hi, bind_of_ok hforward]
  rfl

end Interleave.Search.DepthFirst

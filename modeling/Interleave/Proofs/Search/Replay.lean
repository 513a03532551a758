import Interleave.Proofs.Choice
import Interleave.Proofs.Search.Arrival

/-!
# Replaying a trail

A trail says which choices were taken, and for each one what the generator was that offered it. To
replay it is to take the choices again: the generator that is pending must be the one of the record
and offer the recorded choice at the recorded position, and the transition must succeed.

A state is retraced if replaying what was added to its trail since leads to it. The state in which a
search begins is retraced, and so is every state that a choice leads to from one that is.
-/

namespace Interleave

open Effect

namespace Machine

variable {full : Prop} {m n x y : Machine} {g : Generator} {i : Nat} {c : Choice}
  {e : TransitionEnd} {r : ChoiceRecord} {rs ss : List ChoiceRecord}

/-- Takes recorded choices again, one after another. There is no result if a record does not fit the
generator that is pending, or if a transition fails. -/
def replay : List ChoiceRecord → Machine → Option Machine
  | [], m => some m
  | r :: rs, m =>
    match m.takePending with
    | (none, _) => none
    | (some g, m) =>
      if g.id = r.generator ∧ g.total = r.total ∧ (g.select r.index).1 = some r.choice then
        match transition (g.select r.index).2 m with
        | .ok _ m => replay rs m
        | .error .. => none
      else none

/-- A transition does not look at what is pending. -/
theorem transition_withoutPending_eq_ok :
    transition g { m with pending := none } = .ok e n ↔ transition g m = .ok e n := by
  simp only [transition_eq_ok]
  exact Iff.rfl

/-- The first record fits, and the others are replayed from where it leads. -/
theorem replay_cons_eq_some : m.replay (r :: rs) = some n ↔
    ∃ g e k, m.pending = some g ∧ g.id = r.generator ∧ g.total = r.total ∧
      (g.select r.index).1 = some r.choice ∧ transition (g.select r.index).2 m = .ok e k ∧
        k.replay rs = some n := by
  rw [replay]
  unfold takePending
  cases hg : m.pending with
  | none => simp
  | some g =>
    dsimp only
    split
    · rename_i hfits
      cases ht : transition (g.select r.index).2 { m with pending := none } with
      | ok e k =>
        have ht' := transition_withoutPending_eq_ok.mp ht
        constructor
        · exact fun hrest => ⟨g, e, k, rfl, hfits.1, hfits.2.1, hfits.2.2, ht', hrest⟩
        · rintro ⟨_, _, _, ⟨⟩, -, -, -, hk, hrest⟩
          rw [ht'] at hk
          cases hk
          exact hrest
      | error f k =>
        constructor
        · exact nofun
        · rintro ⟨_, _, _, ⟨⟩, -, -, -, hk, -⟩
          rw [← transition_withoutPending_eq_ok, ht] at hk
          cases hk
    · rename_i hfits
      constructor
      · exact nofun
      · rintro ⟨_, _, _, ⟨⟩, hid, htotal, hchoice, -⟩
        exact absurd ⟨hid, htotal, hchoice⟩ hfits

/-- Records are replayed one part after the other. -/
theorem replay_append (h : m.replay rs = some n) : m.replay (rs ++ ss) = n.replay ss := by
  induction rs generalizing m with
  | nil =>
    cases h
    rfl
  | cons r rs ih =>
    obtain ⟨g, e, k, hg, hid, htotal, hchoice, ht, hrest⟩ := replay_cons_eq_some.mp h
    refine Option.ext fun o => ?_
    rw [List.cons_append, replay_cons_eq_some]
    constructor
    · rintro ⟨g', e', k', hg', -, -, -, ht', hrest'⟩
      rw [hg] at hg'
      cases hg'
      rw [ht] at ht'
      cases ht'
      rw [← ih hrest]
      exact hrest'
    · intro ho
      exact ⟨g, e, k, hg, hid, htotal, hchoice, ht, (ih hrest).trans ho⟩

/-- Machines that are alike are led to machines that are alike. -/
theorem Alike.replay (h : Alike full m n) (hm : m.replay rs = some x) :
    ∃ y, n.replay rs = some y ∧ Alike full x y := by
  induction rs generalizing m n with
  | nil =>
    cases hm
    exact ⟨n, rfl, h⟩
  | cons r rs ih =>
    obtain ⟨g, e, k, hg, hid, htotal, hchoice, ht, hrest⟩ := replay_cons_eq_some.mp hm
    have hforgetful : Alike full { m with pending := none, path := { m.path with uncaught := none } }
        { n with pending := none, path := { n.path with uncaught := none } } :=
      ⟨h.1, h.2, h.3, h.4, h.5, h.6, rfl, h.8, rfl, h.10, h.11⟩
    obtain ⟨k', ht', hk⟩ := transition_agree hforgetful ht
    obtain ⟨y, hy, hxy⟩ := ih hk hrest
    exact ⟨y, replay_cons_eq_some.mpr
      ⟨g, e, k', h.pending ▸ hg, hid, htotal, hchoice, ht', hy⟩, hxy⟩

/-- Replaying what was added to the trail leads from `m` to the state `x`. -/
structure Retraces (m x : Machine) : Prop where
  ready : x.IsReady
  sameRun : m.SameRun x
  replayed : ∃ rs, x.path.trail.toList = m.path.trail.toList ++ rs ∧ m.replay rs = some x

namespace Retraces

/-- A state is retraced from itself. -/
protected theorem refl (hm : m.IsReady) : m.Retraces m where
  ready := hm
  sameRun := refl m
  replayed := ⟨[], by simp, rfl⟩

/-- Choices that are taken of a pending generator are recorded as they can be taken again. -/
theorem step (h : m.Retraces x) (hg : x.pending = some g) (hc : (g.select i).1 = some c)
    (ht : transition (g.select i).2 x = .ok e y) : m.Retraces y := by
  obtain ⟨rs, htrail, hrs⟩ := h.replayed
  obtain ⟨-, c', hc', htrail'⟩ := transition_trail h.ready.hostCall ht
  have hselect : (g.select i).2 = { g with cursor := some i } ∧ g.domain.get? i = some c := by
    unfold Generator.select at hc ⊢
    cases hd : g.domain.get? i with
    | none => rw [hd] at hc; cases hc
    | some d =>
      rw [hd] at hc
      exact ⟨rfl, hc⟩
  have hcurrent : c' = c := by
    rw [hselect.1] at hc'
    exact Option.some.inj (hc'.symm.trans hselect.2)
  refine ⟨h.ready.transition ht,
    IsTrans.trans _ _ _ h.sameRun (sameRun_of_transition h.ready.hostCall ht),
    rs ++ [.of (g.select i).2 c], ?_, ?_⟩
  · rw [htrail', Array.toList_push, htrail, hcurrent, List.append_assoc]
  · rw [replay_append hrs, replay_cons_eq_some]
    refine ⟨g, e, y, hg, ?_, ?_, ?_, ?_, rfl⟩
    · rw [hselect.1]
      rfl
    · rw [hselect.1]
      rfl
    · rw [hselect.1]
      exact hc
    · rw [hselect.1] at ht ⊢
      rw [show (ChoiceRecord.of { g with cursor := some i } c).index = i from rfl, hselect.1]
      exact ht

end Retraces

end Machine

end Interleave

import Interleave.Proofs.Search.Draws
import Interleave.Proofs.Search.Queue
import Interleave.Proofs.Search.Stack

/-!
# Searches go on

What listeners were told of, they were told of earlier: a search adds to the states that it has
reached, and takes nothing back. Only a transition adds one. Nothing else that a search does reaches a
state, and only checking properties finds anything.
-/

namespace Interleave

open Effect

namespace Search

variable {s s' t : Search} {g : Generator} {e : TransitionEnd}

/-- A search has reached no state since, nor found anything. -/
structure Steady (s s' : Search) : Prop where
  config : s'.config = s.config
  properties : s'.properties = s.properties
  violations : s'.violations = s.violations
  transitions : s'.stats.transitions = s.stats.transitions
  checkedAt : s'.checkedAt = s.checkedAt
  listening : s'.listening = s.listening
  advanced : s'.advanced = s.advanced

instance : IsPreorder Search Steady where
  refl _ := ⟨rfl, rfl, rfl, rfl, rfl, rfl, rfl⟩
  trans _ _ _ h h' := ⟨h'.config.trans h.config, h'.properties.trans h.properties,
    h'.violations.trans h.violations, h'.transitions.trans h.transitions,
    h'.checkedAt.trans h.checkedAt, h'.listening.trans h.listening, h'.advanced.trans h.advanced⟩

theorem Told.steady (h : Told s s') : Steady s s' :=
  ⟨h.task.config, h.task.properties, h.violations, by rw [h.stats], h.checkedAt, h.task.listening,
    h.advanced⟩

theorem Returned.steady {snapshot : Snapshot} (h : Returned s snapshot s') : Steady s s' :=
  ⟨h.task.config, h.task.properties, h.violations, h.transitions, h.checkedAt, h.task.listening,
    h.advanced⟩

theorem steady_pathFinished (s : Search) : Steady s s.pathFinished :=
  ⟨rfl, rfl, rfl, rfl, rfl, rfl, rfl⟩

theorem steady_takeChoicePoint (s : Search) : Steady s s.takeChoicePoint.2 :=
  ⟨rfl, rfl, rfl, rfl, rfl, rfl, rfl⟩

theorem steady_visit (s : Search) (g : Generator) : Steady s (s.visit g).2 := by
  rcases visit_eq s g with ⟨-, -, hvisit⟩ | ⟨-, hvisit⟩
  · rw [hvisit]
    exact ⟨rfl, rfl, rfl, rfl, rfl, rfl, rfl⟩
  · rw [hvisit]
    exact ⟨rfl, rfl, rfl, rfl, rfl, rfl, rfl⟩

theorem steady_cutOff (s : Search) : Steady s s.cutOff := by
  obtain ⟨htold, hstats⟩ := cutOff_eq s
  exact ⟨htold.task.config, htold.task.properties, htold.violations, by rw [hstats],
    htold.checkedAt, htold.task.listening, htold.advanced⟩

theorem steady_forward {e : SearchFault} (h : forward g s = .error e s') : Steady s s' := by
  unfold forward at h
  split at h
  · cases h
    exact ⟨rfl, rfl, rfl, rfl, rfl, rfl, rfl⟩
  · cases h

/-- After the properties are checked, at most a choice point is taken and counted. -/
theorem steady_arrive (s : Search) (bound : Option Nat) :
    Steady s.checkProperties.2 (s.arrive bound).2 := by
  unfold arrive
  generalize s.checkProperties = c
  obtain ⟨failed, t⟩ := c
  dsimp only
  split
  · exact steady_pathFinished t
  · split
    · exact IsTrans.trans _ _ _ (steady_cutOff t) (steady_pathFinished _)
    · have htaken := steady_takeChoicePoint t
      generalize t.takeChoicePoint = taken at htaken
      obtain ⟨_ | g, t'⟩ := taken
      · exact IsTrans.trans _ _ _ htaken (steady_pathFinished t')
      · dsimp only
        have hvisit := steady_visit t' g
        generalize t'.visit g = visited at hvisit
        obtain ⟨_ | _, t''⟩ := visited
        · exact IsTrans.trans _ _ _ htaken hvisit
        · exact IsTrans.trans _ _ _ htaken hvisit

theorem steady_proceed (s : Search) (bound : Option Nat) : Steady s (Sampling.proceed s bound).2 := by
  unfold Sampling.proceed
  split
  · exact refl s
  · split
    · exact steady_cutOff s
    · exact steady_takeChoicePoint s

/-- Checking properties reaches no state. -/
structure Examined (s s' : Search) : Prop where
  config : s'.config = s.config
  properties : s'.properties = s.properties
  transitions : s'.stats.transitions = s.stats.transitions
  checkedAt : s'.checkedAt = some s.stats.transitions
  advanced : s'.advanced = s.advanced

theorem examined_checkProperties (s : Search) : Examined s s.checkProperties.2 := by
  unfold checkProperties
  by_cases hchecked : s.checkedAt = some s.stats.transitions
  · rw [if_pos hchecked]
    exact ⟨rfl, rfl, rfl, hchecked, rfl⟩
  · rw [if_neg hchecked]
    dsimp only
    cases hf : ({ s with checkedAt := some s.stats.transitions } : Search).failures with
    | nil => exact ⟨rfl, rfl, rfl, rfl, rfl⟩
    | cons v vs =>
      obtain ⟨t, ht, htold, -⟩ := foldl_recordViolation (v :: vs)
        { s with checkedAt := some s.stats.transitions }
      dsimp only
      rw [ht]
      exact ⟨htold.task.config, htold.task.properties, by rw [htold.stats], htold.checkedAt,
        htold.advanced⟩

/-- What listeners were told of, they were told of earlier. -/
def Grows (s s' : Search) : Prop := s.advanced <+: s'.advanced

instance : IsPreorder Search Grows where
  refl _ := List.prefix_rfl
  trans _ _ _ h h' := List.IsPrefix.trans h h'

theorem Grows.of_eq (h : s'.advanced = s.advanced) : Grows s s' := ⟨[], by rw [h, List.append_nil]⟩

theorem Steady.grows (h : Steady s s') : Grows s s' := .of_eq h.advanced

theorem Moved.grows {k : Machine} (h : Moved s e k s') : Grows s s' := ⟨_, h.advanced.symm⟩

theorem grows_arrive (s : Search) (bound : Option Nat) : Grows s (s.arrive bound).2 :=
  .of_eq ((steady_arrive s bound).advanced.trans (examined_checkProperties s).advanced)

/-- The search goes on from where it stands, or faults there. -/
abbrev Ongoing {α : Type} (s : Search) (r : EStateM.Result SearchFault Search α) : Prop :=
  Ends (fun _ t => Grows s t) (Grows s) r

theorem ongoing_forward (g : Generator) (s : Search) : Ongoing s (forward g s) := by
  cases hforward : forward g s with
  | ok e t =>
    obtain ⟨_, -, hmoved⟩ := exists_moved hforward
    exact hmoved.grows
  | error e t => exact (steady_forward hforward).grows

theorem Ongoing.bind {α β : Type} {x : Action α} {f : α → Action β} (hs : Grows s t)
    (hx : Ongoing t (x t)) (hf : ∀ a u, Ongoing u (f a u)) : Ongoing s ((x >>= f) t) := by
  cases h : x t with
  | ok a u =>
    rw [h] at hx
    have hu : Grows s u := IsTrans.trans _ _ _ hs hx
    rw [bind_of_ok h]
    have hfu := hf a u
    cases hfa : f a u with
    | ok b v =>
      rw [hfa] at hfu
      exact IsTrans.trans s u v hu hfu
    | error e v =>
      rw [hfa] at hfu
      exact IsTrans.trans s u v hu hfu
  | error e u =>
    rw [h] at hx
    rw [bind_of_error h]
    exact IsTrans.trans s t u hs hx

theorem DepthFirst.ongoing_round (bound : Option Nat) (stack : List Branch) (s : Search) :
    Ongoing s (round bound stack s) := by
  cases stack with
  | nil => exact List.prefix_rfl
  | cons top rest =>
    by_cases hdone : s.done = true
    · rw [round_of_done bound rest hdone]
      exact List.prefix_rfl
    · rw [round_cons bound rest top (Bool.not_eq_true _ ▸ hdone)]
      rcases top.generator.advance with ⟨_ | c, g⟩
      · dsimp only
        split
        · exact List.prefix_rfl
        · exact List.prefix_rfl
      · refine Ongoing.bind ?_ (ongoing_forward g _) fun _ u => grows_arrive u bound
        unfold backTo
        split
        · exact List.prefix_rfl
        · exact (Returned.backtrack s top.snapshot).steady.grows

theorem BestFirst.ongoing_look {α : Type} (h : Heuristic α) (bound : Option Nat) (q : Queue α)
    (s : Search) : Ongoing s (look h bound q s) := by
  have hgrows := grows_arrive s bound
  unfold look
  generalize s.arrive bound = r at hgrows
  obtain ⟨_ | _ | g, t⟩ := r
  · exact hgrows
  · exact hgrows
  · refine Ongoing.bind hgrows ?_ fun _ _ => List.prefix_rfl
    dsimp only
    rw [Queue.expand_apply]
    split
    · exact List.prefix_rfl
    · exact List.prefix_rfl

theorem BestFirst.ongoing_round {α : Type} (h : Heuristic α) (bound : Option Nat) (q : Queue α)
    (s : Search) : Ongoing s (round h bound q s) := by
  cases hq : q.entries.minEntry? with
  | none =>
    rw [round_of_none hq]
    exact List.prefix_rfl
  | some r =>
    obtain ⟨rank, entry⟩ := r
    by_cases hdone : s.done = true
    · rw [round_of_done hdone hq]
      exact List.prefix_rfl
    · rw [round_eq h bound (Bool.not_eq_true _ ▸ hdone) hq]
      refine Ongoing.bind ?_ (ongoing_forward entry.generator _) fun _ u => ongoing_look h bound _ u
      unfold jumpTo
      split
      · exact List.prefix_rfl
      · exact (Returned.restore s entry.snapshot).steady.grows

theorem Sampling.ongoing_look (bound : Option Nat) (init : Snapshot) (root : Generator) (rng : Rng)
    (s : Search) : Ongoing s (look bound init root rng s) := by
  have hgrows : Grows s (proceed s.checkProperties.2 bound).2 :=
    .of_eq ((steady_proceed _ bound).advanced.trans (examined_checkProperties s).advanced)
  unfold look
  generalize proceed s.checkProperties.2 bound = r at hgrows
  obtain ⟨_ | next, u⟩ := r
  · dsimp only
    split
    · exact IsTrans.trans s u _ hgrows (steady_pathFinished u).grows
    · exact IsTrans.trans s u _ hgrows (IsTrans.trans u _ _ (steady_pathFinished u).grows
        (Returned.restore u.pathFinished init).steady.grows)
  · exact hgrows

theorem Sampling.ongoing_round (bound : Option Nat) (init : Snapshot) (root : Generator)
    (next : Generator × Rng) (s : Search) : Ongoing s (round bound init root next s) := by
  obtain ⟨g, rng⟩ := next
  rcases Nat.eq_zero_or_pos g.total with hempty | hpos
  · rw [round_of_empty bound init root rng hempty]
    exact List.prefix_rfl
  · rw [round_eq bound init root rng hpos]
    exact Ongoing.bind List.prefix_rfl (ongoing_forward _ s) fun _ u =>
      ongoing_look bound init root (rng.index g.total).2 u

theorem ongoing_run {β : Type} {body : β → Action (β ⊕ Unit)} {exhausted : SearchFault}
    (hbody : ∀ b s, Ongoing s (body b s)) (rounds : Nat) (b : β) (s : Search) :
    Ongoing s (Loop.run body exhausted rounds b s) := by
  refine Loop.run_ends exhausted (I := fun _ t => Grows s t) (fun b t ht => ?_) (fun _ _ ht => ht)
    rounds (refl s)
  refine (hbody b t).mono (fun r u hu => ?_) fun u hu => IsTrans.trans s t u ht hu
  cases r with
  | inl b' => exact IsTrans.trans s t u ht hu
  | inr u' => exact IsTrans.trans s t u ht hu

end Search

end Interleave

import Interleave.Proofs.Search.Agenda

/-!
# The order of a search does not change what it explores

Whatever priorities a heuristic gives to choices, without state matching a best-first search goes
through the same tree of choices as depth-first search. The choices that are open at some time are
the roots of a forest, and what is yet to be explored are the vertices of this forest: `Sprouts`.
Trying a choice takes one vertex out of it, and whichever choice is tried, the others are still in
it afterwards.
-/

namespace Interleave

open Effect

namespace Search

namespace BestFirst

/-- The states behind some choices and behind the choices there, in preorder. -/
inductive Sprouts (bound : Option Nat) : List Pick → List Vertex → Prop where
  | nil : Sprouts bound [] []
  /-- The path ends behind the first choice. -/
  | closed {k : Pick} {ks : List Pick} {vs : List Vertex} {e : TransitionEnd} {n : Machine}
    (transition : k.point.state.transition (k.point.generator.select k.index).2 = .ok e n)
    (ends : bound.any (· ≤ n.depth) = true ∨ n.pending = none) (rest : Sprouts bound ks vs) :
    Sprouts bound (k :: ks) (⟨e, n, false⟩ :: vs)
  /-- There are choices behind the first choice. -/
  | opened {k : Pick} {ks : List Pick} {below vs : List Vertex} {e : TransitionEnd} {n : Machine}
    {g : Generator}
    (transition : k.point.state.transition (k.point.generator.select k.index).2 = .ok e n)
    (within : bound.any (· ≤ n.depth) = false) (pending : n.pending = some g)
    (nonempty : 0 < g.total) (deeper : Sprouts bound (Point.picks ⟨n, g⟩) below)
    (rest : Sprouts bound ks vs) : Sprouts bound (k :: ks) (⟨e, n, true⟩ :: (below ++ vs))

variable {bound : Option Nat} {m : Machine} {k : Pick} {ks js : List Pick} {vs ws : List Vertex}

namespace Sprouts

theorem append (h : Sprouts bound ks vs) (h' : Sprouts bound js ws) :
    Sprouts bound (ks ++ js) (vs ++ ws) := by
  induction h with
  | nil => exact h'
  | closed transition ends _ ih => exact .closed transition ends ih
  | opened transition within pending nonempty deeper _ _ ih =>
    rw [List.cons_append, List.cons_append, List.append_assoc]
    exact .opened transition within pending nonempty deeper ih

/-- What is behind the first choice, and what is behind the others. -/
theorem exists_split (h : Sprouts bound (k :: ks) vs) :
    ∃ own rest, vs = own ++ rest ∧ Sprouts bound [k] own ∧ Sprouts bound ks rest := by
  cases h with
  | closed transition ends rest => exact ⟨[_], _, rfl, .closed transition ends .nil, rest⟩
  | @opened _ _ below vs e n g transition within pending nonempty deeper rest =>
    refine ⟨⟨e, n, true⟩ :: below, vs, rfl, ?_, rest⟩
    have hown := Sprouts.opened transition within pending nonempty deeper .nil
    rwa [List.append_nil] at hown

/-- The order of the choices does not matter. -/
theorem perm (h : Sprouts bound ks vs) (hperm : ks.Perm js) :
    ∃ ws, Sprouts bound js ws ∧ vs.Perm ws := by
  induction hperm generalizing vs with
  | nil => exact ⟨vs, h, .refl vs⟩
  | cons k _ ih =>
    obtain ⟨own, rest, rfl, hown, hrest⟩ := h.exists_split
    obtain ⟨ws, hws, hperm⟩ := ih hrest
    exact ⟨own ++ ws, hown.append hws, hperm.append_left own⟩
  | swap k j ks =>
    obtain ⟨first, others, rfl, hfirst, hothers⟩ := h.exists_split
    obtain ⟨second, rest, rfl, hsecond, hrest⟩ := hothers.exists_split
    exact ⟨second ++ (first ++ rest), hsecond.append (hfirst.append hrest),
      List.perm_append_comm_assoc first second rest⟩
  | trans _ _ ih ih' =>
    obtain ⟨ws, hws, hperm⟩ := ih h
    obtain ⟨us, hus, hperm'⟩ := ih' hws
    exact ⟨us, hus, hperm.trans hperm'⟩

/-- The choices of a generator from a position on sprout the tree of these choices, cut off. -/
theorem of_branches {g : Generator} {i limit : Nat} {b : Branches} (h : Branches.Of m g i b)
    (hm : m.IsReady) (hcuts : DepthFirst.CutsAfter bound m.depth limit) :
    Sprouts bound ((Point.picks ⟨m, g⟩).drop i) (b.cut limit).preorder := by
  induction h generalizing limit with
  | exhausted last =>
    rw [List.drop_eq_nil_of_le (by simpa using last)]
    exact .nil
  | @ended m m' g i e after more transition pending _ ih =>
    rw [Point.drop_picks more, Branches.cut_leaf]
    exact .closed transition (.inr pending) (ih hm hcuts)
  | @opened m m' g g' i e below after more transition pending nonempty deeper _ ihb iha =>
    have hdepth := DepthFirst.depth_of_transition hm transition
    have hreached : bound.any (· ≤ m'.depth) = decide (limit = 1) := hdepth ▸ hcuts.reached
    have hrest := iha hm hcuts
    rw [Point.drop_picks more]
    by_cases hlimit : limit = 1
    · have hcut : bound.any (· ≤ m'.depth) = true := by rw [hreached, decide_eq_true hlimit]
      simp only [Branches.cut, if_pos hlimit]
      exact .closed transition (.inl hcut) hrest
    · have hwithin : bound.any (· ≤ m'.depth) = false := by rw [hreached, decide_eq_false hlimit]
      have hbelow := ihb (hm.transition transition) (hdepth ▸ hcuts.below hlimit)
      rw [List.drop_zero] at hbelow
      have hisNone : (below.cut (limit - 1)).isNone = false := by
        rw [Branches.isNone_cut, deeper.isNone_eq_false nonempty]
      simp only [Branches.cut, if_neg hlimit, Branches.preorder_cons, hisNone, Bool.not_false]
      exact .opened transition hwithin pending nonempty hbelow hrest

/-- The first choice leads somewhere, and if the path goes on there, to choices. -/
theorem exists_transition (h : Sprouts bound (k :: ks) vs) : ∃ e n,
    k.point.state.transition (k.point.generator.select k.index).2 = .ok e n ∧
      (bound.any (· ≤ n.depth) = false → ∀ g, n.pending = some g → 0 < g.total) := by
  cases h with
  | @closed _ _ _ e n transition ends =>
    refine ⟨e, n, transition, fun hwithin g hg => ?_⟩
    rcases ends with hreached | hnone
    · rw [hreached] at hwithin
      cases hwithin
    · rw [hnone] at hg
      cases hg
  | @opened _ _ _ _ e n g transition within pending nonempty =>
    refine ⟨e, n, transition, fun _ g' hg' => ?_⟩
    rw [pending] at hg'
    cases hg'
    exact nonempty

end Sprouts

/-! ## Going through the forest -/

variable {α : Type} {h : Heuristic α} {A A' : Agenda α}

/-- A step takes one state out of the forest. -/
theorem Agenda.Step.sprouts {t : Trial} (hstep : A.Step h bound t A')
    (hvs : Sprouts bound (A.entries.map Open.pick) vs) :
    ∃ ws, Sprouts bound (A'.entries.map Open.pick) ws ∧ vs.Perm (t.vertex :: ws) := by
  cases hstep with
  | closed first transition ends =>
    obtain ⟨us, hus, hperm⟩ := hvs.perm (first.entries.map Open.pick)
    rw [List.map_cons] at hus
    cases hus with
    | closed transition' _ rest =>
      rw [transition] at transition'
      cases transition'
      exact ⟨_, rest, hperm⟩
    | opened transition' within pending =>
      rw [transition] at transition'
      cases transition'
      rcases ends with hreached | hnone
      · rw [within] at hreached
        cases hreached
      · rw [pending] at hnone
        cases hnone
  | opened first transition within pending _ queues =>
    obtain ⟨us, hus, hperm⟩ := hvs.perm (first.entries.map Open.pick)
    rw [List.map_cons] at hus
    cases hus with
    | closed transition' ends =>
      rw [transition] at transition'
      cases transition'
      rcases ends with hreached | hnone
      · rw [within] at hreached
        cases hreached
      · rw [pending] at hnone
        cases hnone
    | opened transition' _ pending' _ deeper rest =>
      rw [transition] at transition'
      cases transition'
      rw [pending] at pending'
      cases pending'
      refine ⟨_, ?_, hperm⟩
      rw [List.map_append, queues.map_pick_all]
      exact deeper.append rest

theorem Agenda.Runs.sprouts {ts : List Trial} (hruns : A.Runs h bound ts A')
    (hvs : Sprouts bound (A.entries.map Open.pick) vs) :
    ∃ ws, Sprouts bound (A'.entries.map Open.pick) ws ∧ vs.Perm (ts.map Trial.vertex ++ ws) := by
  induction hruns with
  | refl => exact ⟨vs, hvs, .refl vs⟩
  | tail run step ih =>
    obtain ⟨ws, hws, hperm⟩ := ih
    obtain ⟨us, hus, hperm'⟩ := step.sprouts hws
    refine ⟨us, hus, hperm.trans ?_⟩
    rw [List.map_append, List.append_assoc]
    exact hperm'.append_left _

/-- When nothing is left on the agenda, the search has gone through the whole forest. -/
theorem Agenda.Runs.perm_of_nil {ts : List Trial} (hruns : A.Runs h bound ts A')
    (hvs : Sprouts bound (A.entries.map Open.pick) vs) (hnil : A'.entries = []) :
    (ts.map Trial.vertex).Perm vs := by
  obtain ⟨ws, hws, hperm⟩ := hruns.sprouts hvs
  rw [hnil, List.map_nil] at hws
  cases hws
  rw [List.append_nil] at hperm
  exact hperm.symm

/-- How far the loop has come that began with an agenda, and that it needs no more than `n` further
rounds before the last one. -/
structure Proceeds (m : Machine) (h : Heuristic α) (bound : Option Nat) (A₀ : Agenda α)
    (s₀ : Search) (n : Nat) (q : Queue α) (s : Search) : Prop where
  plain : s.Plain
  run : ∃ ts A vs, A₀.Runs h bound ts A ∧ Carries m A q s ∧
    Explored s₀ s (ts.map Trial.vertex) ∧ Sprouts bound (A.entries.map Open.pick) vs ∧ vs.length ≤ n

/-- A round takes one state out of the forest, or the forest is empty. -/
theorem Proceeds.round {A₀ : Agenda α} {s₀ s : Search} {n : Nat} {q : Queue α} (hm : m.IsReady)
    (hn : Proceeds m h bound A₀ s₀ n q s) :
    (∃ q' s' n', BestFirst.round h bound q s = .ok (.inl q') s' ∧ n' < n ∧
        Proceeds m h bound A₀ s₀ n' q' s') ∨
      ∃ u s', BestFirst.round h bound q s = .ok (.inr u) s' ∧ ∃ ts A, A₀.Runs h bound ts A ∧
        A.entries = [] ∧ Explored s₀ s' (ts.map Trial.vertex) := by
  obtain ⟨ts, A, vs, hruns, hA, hexplored, hvs, hlength⟩ := hn.run
  by_cases hnil : A.entries = []
  · exact .inr ⟨(), s, round_of_nil hA hnil, ts, A, hruns, hnil, hexplored⟩
  · obtain ⟨o, left, hfront⟩ := hA.exists_front hm hnil
    obtain ⟨us, hus, hperm⟩ := hvs.perm (hfront.first.entries.map Open.pick)
    obtain ⟨e, n', htransition, hpos⟩ := hus.exists_transition
    have hgo : s.config.stopOnFirstError = true → n'.failures = [] := by
      intro hstop
      rw [hn.plain.config] at hstop
      cases hstop
    obtain ⟨expanded, A', q', s', hround, hstep, hA', hvertex⟩ :=
      hfront.goes_on hm hA hn.plain.toWatchful hn.plain.matching htransition hpos hgo
    obtain ⟨ws, hws, hperm'⟩ := hstep.sprouts hvs
    have hlength' := hperm'.length_eq
    rw [List.length_cons] at hlength'
    refine .inl ⟨q', s', n - 1, hround, by omega, hn.plain.explored hvertex, ?_⟩
    refine ⟨_, A', ws, .tail hruns hstep, hA', ?_, hws, by omega⟩
    rw [List.map_append]
    exact hexplored.trans hvertex

/-- A search that begins at a choice point goes through the choice tree in some order. -/
theorem search_goes_through {config : SearchConfig} {listening : Bool} {s : Search}
    {g : Generator} {tree : Branches} (h : Heuristic α) (hm : m.IsReady)
    (hmatching : config.stateMatching = false) (hstop : config.stopOnFirstError = false)
    (hp : m.pending = some g) (hpos : 0 < g.total) (htree : tree.Of m g 0)
    (hs : Told { machine := m, config, listening } s) :
    ∃ (s₀ s' : Search) (ts : List Trial), Rooted m config listening s₀ ∧
      Agenda.Exhausts h (depthBound { machine := m, config }) m ts ∧
      (ts.map Trial.vertex).Perm (tree.cut (limitFrom config m)).preorder ∧
      Explored s₀ s' (ts.map Trial.vertex) ∧
      ∀ rounds, (tree.cut (limitFrom config m)).edges < rounds →
        search h rounds s = .ok () s' := by
  obtain ⟨A₀, q, s₀, hbegins, hrooted, hA, hsearch⟩ := search_of_some h hmatching hp hpos hs
  have hcuts := DepthFirst.cutsAfter_depthBound { machine := m, config }
  have hvs : Sprouts (depthBound { machine := m, config }) (A₀.entries.map Open.pick)
      (tree.cut (limitFrom config m)).preorder := by
    cases hbegins with
    | idle pending =>
      rw [hp] at pending
      cases pending
    | root pending _ queues =>
      rw [hp] at pending
      cases pending
      rw [queues.map_pick_all]
      exact .of_branches htree hm hcuts
  have hplain : s₀.Plain := {
    toWatchful := hrooted.toWatchful
    config := by rw [hrooted.config, hstop]
    matching := by rw [hrooted.config, hmatching] }
  obtain ⟨_, s', hrun, ts, A, hruns, hnil, hexplored⟩ := Loop.run_of_decreasing
    SearchFault.budgetExhausted (I := Proceeds m h (depthBound { machine := m, config }) A₀ s₀)
    (fun n q s hn => hn.round hm)
    ⟨hplain, [], A₀, _, .refl, hA, .refl s₀, hvs, Nat.le_refl _⟩
  refine ⟨s₀, s', ts, hrooted, ⟨A₀, A, hbegins, hruns, hnil⟩, hruns.perm_of_nil hvs hnil, hexplored,
    fun rounds hrounds => ?_⟩
  rw [hsearch]
  exact hrun rounds hrounds

/-- A search goes through the choice tree, and finds what is wrong there, in some order. -/
theorem search_covers {config : SearchConfig} {listening : Bool} {rounds : Nat} {s : Search}
    {tree : Branches} (h : Heuristic α) (hm : m.IsReady) (hmatching : config.stateMatching = false)
    (hstop : config.stopOnFirstError = false) (htree : m.Unfolds tree)
    (hrounds : (tree.cut (limitFrom config m)).edges < rounds)
    (hs : Told { machine := m, config, listening } s) :
    ∃ (s' : Search) (ts : List Trial), search h rounds s = .ok () s' ∧
      Agenda.Exhausts h (depthBound { machine := m, config }) m ts ∧
      (ts.map Trial.vertex).Perm (tree.cut (limitFrom config m)).preorder ∧
      Counted s'.stats (tree.cut (limitFrom config m)) ∧
      s'.violations.toList.Perm ((if tree.isNone then m.failures else []) ++
        (tree.cut (limitFrom config m)).failures) ∧
      (listening = true →
        List.Forall₂ (Machine.Alike True) s'.advanced (ts.map (·.vertex.state))) := by
  cases hp : m.pending with
  | none =>
    obtain ⟨hcovers, hlistening⟩ := covers_finishWithoutChoice hstop hs
    have hnone := htree.of_none hp
    subst hnone
    refine ⟨_, [], search_of_none h rounds hp hs, ⟨_, _, .idle hp, .refl, rfl⟩, .refl [],
      hcovers.counted, ?_, fun hl => hcovers.advanced (hlistening.trans hl)⟩
    rw [hcovers.violations]
    exact .refl _
  | some g =>
    obtain ⟨hpos, hof⟩ := htree.of_some hp
    obtain ⟨s₀, s', ts, hrooted, hexhausts, hperm, hexplored, hsearch⟩ :=
      search_goes_through h hm hmatching hstop hp hpos hof hs
    have hisNone := hof.isNone_eq_false hpos
    refine ⟨s', ts, hsearch rounds hrounds, hexhausts, hperm, ?_, ?_, fun hl => ?_⟩
    · exact hrooted.counted hexplored hperm (by rw [Branches.isNone_cut, hisNone])
    · rw [hexplored.violations, hrooted.violations, hisNone]
      exact hperm.flatMap_right _
    · obtain ⟨ms, hms, halike⟩ := hexplored.advanced
      rw [hms, hrooted.advanced, List.nil_append]
      have hvertices := halike (hrooted.listening.trans hl)
      rwa [List.map_map] at hvertices

end BestFirst

variable {m : Machine}

/-- **The order of a search does not change what it explores.** Begun in a state whose choice tree is
finite, without state matching and going on after violations, best-first search succeeds with every
heuristic. It tries the open choice of the lowest priority, and of those the one that was queued
first, until none is left; so it reaches the states of the tree, cut off at its depth limit, each of
them once. Its counters are those of depth-first search, and it finds the same violations. -/
theorem bestFirst_anyOrder (hm : m.IsReady) (hfinite : m.HasFiniteTree) :
    ∃ tree, m.Unfolds tree ∧
      ∀ {α : Type} (h : Heuristic α) (config : SearchConfig) (listening : Bool) (rounds : Nat),
        config.stateMatching = false → config.stopOnFirstError = false →
        (tree.cut (limitFrom config m)).edges + (tree.cut (limitFrom config m)).points < rounds →
        ∃ (report report' : SearchReport) (s' s'' : Search) (ts : List BestFirst.Trial),
          run (bestFirst h) rounds { machine := m, config, listening } = .ok report s' ∧
          BestFirst.Agenda.Exhausts h (depthBound { machine := m, config }) m ts ∧
          (ts.map BestFirst.Trial.vertex).Perm (tree.cut (limitFrom config m)).preorder ∧
          (listening = true →
            List.Forall₂ (Machine.Alike True) s'.advanced (ts.map (·.vertex.state))) ∧
          run depthFirst rounds { machine := m, config, listening } = .ok report' s'' ∧
          report.stats.transitions = report'.stats.transitions ∧
          report.stats.newStates = report'.stats.newStates ∧
          report.stats.paths = report'.stats.paths ∧
          report.stats.endStates = report'.stats.endStates ∧
          report.stats.constraintHits = report'.stats.constraintHits ∧
          report.violations.Perm report'.violations := by
  obtain ⟨tree, htree, -, hdepthFirst⟩ := depthFirst_preorder hm hfinite
  refine ⟨tree, htree, ?_⟩
  intro α h config listening rounds hmatching hstop hrounds
  obtain ⟨report', s'', hrun', hcovers, -, hstats', hviolations', -⟩ :=
    hdepthFirst config listening rounds hmatching hstop hrounds
  have hstart := Told.tell { machine := m, config, listening } (n := .started m.depth)
    fun _ => by exact nofun
  obtain ⟨s', ts, hsearch, hexhausts, hperm, hcounted, hviolations, hadvanced⟩ :=
    BestFirst.search_covers h hm hmatching hstop htree (Nat.lt_of_add_right_lt hrounds) hstart
  have hrun := run_eq_ok (bestFirst h) rounds
    (s := { machine := m, config, listening }) hm.started hsearch
  have htold := Told.tell s' (n := .finished s'.stats.transitions) fun _ => by exact nofun
  have hcounted' := hcovers.counted
  rw [← hstats'] at hcounted'
  refine ⟨_, report', _, s'', ts, hrun, hexhausts, hperm, ?_, hrun', ?_⟩
  · rw [htold.advanced]
    exact hadvanced
  · refine ⟨?_, ?_, ?_, ?_, ?_, ?_⟩
    · rw [hcounted'.transitions]
      exact hcounted.transitions
    · rw [hcounted'.newStates]
      exact hcounted.newStates
    · rw [hcounted'.paths]
      exact hcounted.paths
    · rw [hcounted'.endStates]
      exact hcounted.endStates
    · rw [hcounted'.constraintHits]
      exact hcounted.constraintHits
    · rw [hviolations', hcovers.violations, Branches.isNone_cut]
      exact hviolations

/-- The program that picks three values has a finite choice tree, and there is something wrong behind
its first choices. -/
theorem exists_nondet : ∃ (p : Program) (m n : Machine),
    Demo.nondet.run (Program.base .plain) = .ok ((), p) ∧ m.Driven p {} ∧ m.HasFiniteTree ∧
      m.pending.isSome = true ∧ m.Reaches n ∧ m.depth < n.depth ∧ n.failures ≠ [] := by
  obtain ⟨p, m, hbuild, hdriven, htest⟩ := Machine.Driven.exists_of_demo Demo.nondet []
    (fun _ m => m.pending.isSome && m.endsWithin 5 && gives (Machine.follow [0, 0, 0, 0]) m fun _ n =>
      decide (m.depth < n.depth) && n.path.uncaught.isSome) (by decide +kernel)
  simp only [Bool.and_eq_true, gives_iff, decide_eq_true_eq] at htest
  obtain ⟨⟨hpending, hends⟩, _, n, hfollow, hdepth, huncaught⟩ := htest
  obtain ⟨u, hu⟩ := Option.isSome_iff_exists.mp huncaught
  refine ⟨p, m, n, hbuild, hdriven, .of_endsWithin hends, hpending,
    hdriven.isReady.reaches_follow hfollow, hdepth, ?_⟩
  unfold Machine.failures Property.defaults Property.noUncaughtExceptions
  simp [hu]

/-- Shorter paths first, the search goes through the choices of the program that picks three values,
and finds what depth-first search finds. -/
theorem bestFirst_anyOrder_nondet : ∃ p m tree report report' s' s'' ts,
    Demo.nondet.run (Program.base .plain) = .ok ((), p) ∧ m.Driven p {} ∧ m.IsReady ∧
      m.HasFiniteTree ∧ m.Unfolds tree ∧ tree.isNone = false ∧
      run (bestFirst .breadthFirst) (tree.edges + tree.points + 1)
        { machine := m, config := exhaustive } = .ok report s' ∧
      BestFirst.Agenda.Exhausts .breadthFirst none m ts ∧
      (ts.map BestFirst.Trial.vertex).Perm tree.preorder ∧
      run depthFirst (tree.edges + tree.points + 1)
        { machine := m, config := exhaustive } = .ok report' s'' ∧
      report.stats.paths = report'.stats.paths ∧
      report.violations.Perm report'.violations := by
  obtain ⟨p, m, -, hbuild, hdriven, hfinite, hpending, -⟩ := exists_nondet
  obtain ⟨tree, htree, hsame⟩ := bestFirst_anyOrder hdriven.isReady hfinite
  have hcut : tree.cut (limitFrom exhaustive m) = tree := tree.cut_zero
  obtain ⟨report, report', s', s'', ts, hrun, hexhausts, hperm, -, hrun', -, -, hpaths, -, -,
    hviolations⟩ := hsame .breadthFirst exhaustive false (tree.edges + tree.points + 1) rfl rfl
      (by rw [hcut]; exact Nat.lt_succ_self _)
  rw [hcut] at hperm
  refine ⟨p, m, tree, report, report', s', s'', ts, hbuild, hdriven, hdriven.isReady, hfinite,
    htree, ?_, hrun, hexhausts, hperm, hrun', hpaths, hviolations⟩
  cases hp : m.pending with
  | none => simp [hp] at hpending
  | some g =>
    obtain ⟨hpos, hof⟩ := htree.of_some hp
    exact hof.isNone_eq_false hpos

end Search

end Interleave

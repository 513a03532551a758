import Interleave.Proofs.Search.Expansion
import Interleave.Proofs.Search.Paths
import Interleave.Proofs.Search.StateMatching
import Interleave.Proofs.Search.Violations

/-!
# The depth limit is exact

The bound is computed once, from the path with which the search begins, and is compared with the path
behind each transition. No strategy goes beyond it, and none leaves out what is in front of it.
-/

namespace Interleave

open Effect

namespace Search

variable {start s : Search} {tried : List Pick} {k : Pick} {n m : Machine} {root g : Generator}

/-- The length at which paths are cut off that begin in a state. -/
def cutLength (config : SearchConfig) (m : Machine) : Nat :=
  min (config.depthLimit + m.depth) maxLength

/-- A choice point at which the search is not over and paths go on. -/
structure GoesOn (config : SearchConfig) (m n : Machine) (g : Generator) : Prop where
  going : config.stopsAt n = false
  short : config.depthLimit = 0 ∨ n.depth < cutLength config m
  pending : n.pending = some g

theorem any_depthBound (start : Search) (n : Machine) : start.depthBound.any (· ≤ n.depth) = false ↔
    start.config.depthLimit = 0 ∨ n.depth < cutLength start.config start.machine := by
  unfold depthBound Search.depth cutLength
  by_cases h : start.config.depthLimit = 0
  · simp [h]
  · simp [h]

theorem fate_eq_handedOn_iff :
    fate start.config start.depthBound n = .handedOn g ↔ GoesOn start.config start.machine n g := by
  rw [fate_eq_handedOn, any_depthBound]
  exact ⟨fun h => ⟨h.1, h.2.1, h.2.2⟩, fun h => ⟨h.going, h.short, h.pending⟩⟩

theorem GoesOnAt.short (hlength : start.machine.depth < maxLength) (h : start.GoesOnAt n) :
    start.config.depthLimit = 0 ∨ n.depth < cutLength start.config start.machine := by
  rcases h with rfl | hbelow
  · unfold cutLength
    omega
  · exact (any_depthBound start n).mp hbelow

/-- Choices are tried in front of the bound, and do not lead beyond it. -/
theorem Ledger.depth_le (hm : start.machine.IsReady) (h : Ledger start tried s)
    (hlength : start.machine.depth < maxLength) (hlimit : start.config.depthLimit ≠ 0)
    (hk : k ∈ tried) :
    k.point.state.depth < cutLength start.config start.machine ∧
      k.target.depth ≤ cutLength start.config start.machine := by
  have hdepth := (h.taken k hk).depth hm
  have hlt := ((h.within k hk).short hlength).resolve_left hlimit
  exact ⟨hlt, by omega⟩

/-- What is counted are the paths that end at the bound and could go on. -/
theorem Ledger.constraintHits_eq (hm : start.machine.IsReady) (h : Ledger start tried s)
    (hlength : start.machine.depth < maxLength) (hlimit : start.config.depthLimit ≠ 0) :
    s.stats.constraintHits = tried.countP fun k => !start.config.stopsAt k.target &&
      decide (k.target.depth = cutLength start.config start.machine) && k.target.pending.isSome := by
  rw [h.constraintHits]
  refine List.countP_congr fun k hk => ?_
  -- no path is longer than the bound, so to have reached it is to be as long
  obtain ⟨-, hle⟩ := h.depth_le hm hlength hlimit hk
  have hreached : start.depthBound.any (· ≤ k.target.depth) =
      decide (k.target.depth = cutLength start.config start.machine) := by
    have hany := any_depthBound start k.target
    rw [or_iff_right hlimit] at hany
    cases hb : start.depthBound.any (· ≤ k.target.depth) with
    | true =>
      rw [hb] at hany
      simp only [Bool.true_eq_false, false_iff] at hany
      exact (decide_eq_true (by omega)).symm
    | false =>
      have hlt := hany.mp hb
      exact (decide_eq_false (by omega)).symm
  unfold hits
  rw [hreached]

theorem Ledger.constraintHits_eq_zero (h : Ledger start tried s)
    (hlimit : start.config.depthLimit = 0) : s.stats.constraintHits = 0 := by
  rw [h.constraintHits]
  refine List.countP_eq_zero.mpr fun k _ => ?_
  have hany := (any_depthBound start k.target).mpr (.inl hlimit)
  unfold hits
  rw [hany]
  simp

/-- The choice points in front of the bound are gone through: these were gathered, and some of their
choices were tried, the others are left. -/
structure Surveys (config : SearchConfig) (m : Machine) (points : List Point)
    (tried left : List Pick) : Prop where
  root : ∀ g, m.pending = some g → ⟨m, g⟩ ∈ points
  reached : ∀ x ∈ points, m.Reaches x.state ∧ x.state.pending = some x.generator
  short : ∀ x ∈ points, config.depthLimit = 0 ∨ x.state.depth < cutLength config m
  picks : (tried ++ left).Perm (points.flatMap Point.picks)
  /-- Choices are left only if the search was stopped. -/
  finished : left = [] ∨ ∃ k ∈ tried.getLast?, config.stopsAt k.target = true
  /-- Where paths go on, the choice point was gathered, or it was recognized. -/
  handedOn : ∀ k ∈ tried, ∀ g, GoesOn config m k.target g →
    ⟨k.target, g⟩ ∈ points ∨ config.stateMatching = true ∧ k.target.key g ∈ points.map Point.key

theorem Surveyed.surveys {points : List Point} {left : List Pick}
    (hlength : start.machine.depth < maxLength) (h : Surveyed start points tried left s) :
    Surveys start.config start.machine points tried left where
  root := h.root
  reached := h.reached
  short x hx := (h.below x hx).short hlength
  picks := h.picks
  finished := h.finished
  handedOn k hk g hg := h.handedOn k hk g (fate_eq_handedOn_iff.mpr hg)

namespace Sampling

variable {path before after : List Pick} {paths : List (List Pick)} {x : Point}

theorem LeadsTo.exists_first (h : LeadsTo start root path x) (hx : k.point = x) :
    ∃ j rest, path ++ [k] = j :: rest ∧ j.point = ⟨start.machine, root⟩ := by
  induction h generalizing k with
  | start => exact ⟨k, [], rfl, hx⟩
  | concat hleads handedOn ih =>
    obtain ⟨j, rest, hpath, hj⟩ := ih rfl
    exact ⟨j, rest ++ [k], by rw [hpath, List.cons_append], hj⟩

theorem IsSample.exists_first (h : IsSample start root path) :
    ∃ j rest, path = j :: rest ∧ j.point = ⟨start.machine, root⟩ := by
  obtain ⟨before, last, rfl, hleads, -⟩ := h.exists_last
  exact hleads.exists_first rfl

/-- On a path, the next choice is one of the choice point that is handed on. -/
theorem LeadsTo.next (h : LeadsTo start root path x) (hpath : path = before ++ k :: after) :
    ∃ g, fate start.config start.depthBound k.target = .handedOn g ∧
      (after = [] ∧ x = ⟨k.target, g⟩ ∨ ∃ k' rest, after = k' :: rest ∧ k'.point = ⟨k.target, g⟩) := by
  induction h generalizing after with
  | start => simp at hpath
  | @concat path j g hleads handedOn ih =>
    rcases List.eq_nil_or_concat' after with rfl | ⟨after', last, rfl⟩
    · obtain ⟨-, hlast⟩ := List.append_inj' hpath rfl
      cases hlast
      exact ⟨g, handedOn, .inl ⟨rfl, rfl⟩⟩
    · rw [← List.cons_append, ← List.append_assoc] at hpath
      obtain ⟨hinit, hlast⟩ := List.append_inj' hpath rfl
      cases hlast
      obtain ⟨g', hg', hnext⟩ := ih hinit
      refine ⟨g', hg', .inr ?_⟩
      rcases hnext with ⟨rfl, hx⟩ | ⟨k', rest, rfl, hk'⟩
      · exact ⟨j, [], rfl, hx⟩
      · exact ⟨k', rest ++ [j], rfl, hk'⟩

theorem IsSample.next (h : IsSample start root path) (hpath : path = before ++ k :: after)
    (hg : fate start.config start.depthBound k.target = .handedOn g) :
    ∃ k' rest, after = k' :: rest ∧ k'.point = ⟨k.target, g⟩ := by
  obtain ⟨init, last, rfl, hleads, hends⟩ := h.exists_last
  rcases List.eq_nil_or_concat' after with rfl | ⟨after', last', rfl⟩
  · obtain ⟨-, hlast⟩ := List.append_inj' hpath rfl
    cases hlast
    exact absurd hg (hends g)
  · rw [← List.cons_append, ← List.append_assoc] at hpath
    obtain ⟨hinit, hlast⟩ := List.append_inj' hpath rfl
    cases hlast
    obtain ⟨g', hg', hnext⟩ := hleads.next hinit
    rw [hg] at hg'
    cases hg'
    rcases hnext with ⟨rfl, hx⟩ | ⟨k', rest, rfl, hk'⟩
    · exact ⟨last, [], rfl, hx⟩
    · exact ⟨k', rest ++ [last], rfl, hk'⟩

theorem next_of_samples (h : ∀ p ∈ paths, IsSample start root p)
    (hpaths : paths.flatten = before ++ k :: after)
    (hg : fate start.config start.depthBound k.target = .handedOn g) :
    ∃ k' rest, after = k' :: rest ∧ k'.point = ⟨k.target, g⟩ := by
  induction paths generalizing before with
  | nil => simp at hpaths
  | cons p ps ih =>
    have hps : ∀ p ∈ ps, IsSample start root p := fun p hp => h p (List.mem_cons_of_mem _ hp)
    rw [List.flatten_cons] at hpaths
    -- the choice is one of a later path, or one of the first path
    rcases List.append_eq_append_iff.mp hpaths with ⟨before', -, hrest⟩ | ⟨suffix', hp, hrest⟩
    · exact ih hps hrest
    · cases suffix' with
      | nil => exact ih hps (show ps.flatten = [] ++ k :: after from hrest.symm)
      | cons k' post =>
        injection hrest with hk hafter
        subst hk hafter
        obtain ⟨k', rest, rfl, hk'⟩ := (h p List.mem_cons_self).next hp hg
        exact ⟨k', rest ++ ps.flatten, rfl, hk'⟩

/-- The choice points in front of the bound are gone on with: a choice is drawn at the first one, and
after each choice, at the one that it leads to. -/
structure GoesAlong (config : SearchConfig) (m : Machine) (root : Generator) (tried : List Pick) :
    Prop where
  first : ∃ k rest, tried = k :: rest ∧ k.point = ⟨m, root⟩
  next : ∀ before k after g, tried = before ++ k :: after → GoesOn config m k.target g →
    ∃ k' rest, after = k' :: rest ∧ k'.point = ⟨k.target, g⟩

theorem Sampled.goesAlong (h : Sampled start root paths s) :
    GoesAlong start.config start.machine root paths.flatten where
  first := by
    cases paths with
    | nil => exact absurd h.restores (Nat.succ_ne_zero _)
    | cons path paths =>
      obtain ⟨k, rest, rfl, hk⟩ := (h.samples path List.mem_cons_self).exists_first
      exact ⟨k, rest ++ paths.flatten, rfl, hk⟩
  next before k after g htried hg := next_of_samples h.samples htried (fate_eq_handedOn_iff.mpr hg)

end Sampling

theorem Strategy.IsKnown.exists_tried {strategy : Strategy} (hstrategy : strategy.IsKnown)
    (rounds : Nat) (hstart : start.Begins root) (hs : Told start s)
    (hlength : start.machine.depth < maxLength) :
    Ends (fun _ t => ∃ tried, Ledger start tried t ∧
        ((strategy.Expands ∧ ∃ points left, t.stats.newStates = points.length ∧
            Surveys start.config start.machine points tried left) ∨
          (strategy = Search.sampling ∧ Sampling.GoesAlong start.config start.machine root tried)))
      (fun _ => True) (strategy.run rounds s) := by
  cases hstrategy with
  | depthFirst =>
    refine (DepthFirst.search_surveys rounds hstart hs).mono ?_ fun _ _ => trivial
    rintro _ t ⟨points, tried, left, h⟩
    exact ⟨tried, h.toLedger, .inl ⟨.depthFirst, points, left, h.newStates, h.surveys hlength⟩⟩
  | bestFirst h =>
    refine (BestFirst.search_surveys h rounds hstart hs).mono ?_ fun _ _ => trivial
    rintro _ t ⟨points, tried, left, h'⟩
    exact ⟨tried, h'.toLedger, .inl ⟨.bestFirst h, points, left, h'.newStates, h'.surveys hlength⟩⟩
  | sampling =>
    refine (Sampling.search_samples rounds hstart hs).mono ?_ fun _ _ => trivial
    rintro _ t ⟨paths, h⟩
    exact ⟨paths.flatten, h.toLedger, .inr ⟨rfl, h.goesAlong⟩⟩

/-- **The depth limit is exact.** Of a search that succeeds: the choices that it has tried start in
front of the bound, and none leads beyond it. The paths that come to the bound and could go on are
counted, up to a violation that ends the search. And no choice point in front of the bound is left
out: it is gone through or recognized, or on a sampled path it is where the next choice is drawn.
Lengths of paths are machine words. -/
theorem depthLimit_exact {strategy : Strategy} (hstrategy : strategy.IsKnown) {m : Machine}
    (hm : m.IsReady) (hroot : m.pending = some root) (hlength : m.depth < maxLength)
    (config : SearchConfig) (listening : Bool) (rounds : Nat) {report : SearchReport} {s' : Search}
    (hrun : run strategy rounds { machine := m, config, listening } = .ok report s') :
    ∃ tried : List Pick,
      (∀ k ∈ tried, k.IsTaken m) ∧
      report.stats.transitions = tried.length ∧
      (listening = true →
        List.Forall₂ (Machine.Alike True) s'.advanced (tried.map Pick.target)) ∧
      (∀ k ∈ tried.dropLast, config.stopsAt k.target = false) ∧
      (config.depthLimit = 0 → report.stats.constraintHits = 0) ∧
      (config.depthLimit ≠ 0 →
        (∀ k ∈ tried, k.point.state.depth < cutLength config m ∧
          k.target.depth ≤ cutLength config m) ∧
        report.stats.constraintHits = tried.countP fun k => !config.stopsAt k.target &&
          decide (k.target.depth = cutLength config m) && k.target.pending.isSome) ∧
      ((strategy.Expands ∧ ∃ points left, report.stats.newStates = points.length ∧
          Surveys config m points tried left) ∨
        (strategy = sampling ∧ Sampling.GoesAlong config m root tried)) := by
  obtain ⟨t, hsearch, rfl, rfl⟩ := exists_of_run hrun
  change strategy.run rounds (tell { machine := m, config, listening } (.started m.depth)) = _
    at hsearch
  have hstart := Begins.of_pending hm hroot config listening
  have htold := Told.tell { machine := m, config, listening } (n := .started m.depth)
    fun _ => by exact nofun
  have hfinished := Told.tell t (n := .finished t.stats.transitions) fun _ => by exact nofun
  have hends := hstrategy.exists_tried rounds hstart htold hlength
  rw [hsearch] at hends
  obtain ⟨tried, hledger, hhanded⟩ := hends
  refine ⟨tried, hledger.taken, hledger.transitions, fun hl => ?_, hledger.stops,
    hledger.constraintHits_eq_zero, fun hlimit => ⟨fun k hk => ?_, ?_⟩, hhanded⟩
  · rw [hfinished.advanced]
    exact hledger.advanced (hledger.listening.trans hl)
  · exact hledger.depth_le hm hlength hlimit hk
  · exact hledger.constraintHits_eq hm hlength hlimit

/-- Depth first, the program that picks three values is searched up to the second choice. The paths
that go on are cut off there. -/
theorem depthLimit_exact_nondet : ∃ p m root report s', ∃ tried : List Pick,
    Demo.nondet.run (Program.base .plain) = .ok ((), p) ∧ m.Driven p {} ∧ m.IsReady ∧
      m.pending = some root ∧ m.depth < maxLength ∧ depthFirst.IsKnown ∧
      run depthFirst 50 { machine := m, config := { exhaustive with depthLimit := 2 } } =
        .ok report s' ∧
      report.stats.transitions = tried.length ∧ 0 < report.stats.constraintHits ∧
      (∀ k ∈ tried, k.target.depth ≤ m.depth + 2) ∧
      report.stats.constraintHits =
        tried.countP fun k => decide (k.target.depth = m.depth + 2) && k.target.pending.isSome := by
  let config : SearchConfig := { exhaustive with depthLimit := 2 }
  obtain ⟨p, m, hbuild, hdriven, htest⟩ := Machine.Driven.exists_of_demo Demo.nondet []
    (fun _ m => m.pending.isSome && decide (m.depth + 2 < maxLength) &&
      gives (run depthFirst 50) { machine := m, config } fun report _ =>
        decide (0 < report.stats.constraintHits)) (by decide +kernel)
  simp only [Bool.and_eq_true, decide_eq_true_eq] at htest
  obtain ⟨⟨hpending, hlength⟩, hgives⟩ := htest
  obtain ⟨root, hroot⟩ := Option.isSome_iff_exists.mp hpending
  obtain ⟨report, s', hrun, hhits⟩ := gives_iff.mp hgives
  have hshort : m.depth < maxLength := by omega
  obtain ⟨tried, -, htransitions, -, -, -, hlimit, -⟩ :=
    depthLimit_exact .depthFirst hdriven.isReady hroot hshort config false 50 hrun
  obtain ⟨hle, hcount⟩ := hlimit (by decide)
  have hcut : cutLength config m = m.depth + 2 := by
    show min (2 + m.depth) maxLength = m.depth + 2
    omega
  rw [hcut] at hle hcount
  exact ⟨p, m, root, report, s', tried, hbuild, hdriven, hdriven.isReady, hroot, hshort, .depthFirst,
    hrun, htransitions, of_decide_eq_true hhits, fun k hk => (hle k hk).2, hcount⟩

end Search

end Interleave

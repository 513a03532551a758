import Interleave.Proofs.Search.Draws
import Interleave.Proofs.Search.Ledger

/-!
# The paths of a sampling search

A sampling search goes along one path after another, and each of them is a branch of the choice tree:
it begins in the state in which the search begins, goes on from where each choice has led to, and ends
where it is not handed on. Which choices these are is told from the seed alone. If all transitions
give results, and paths are finite or cut off, the search comes to an end.
-/

namespace Interleave

open Effect

/-- The paths of a finite choice tree have a greatest length. -/
theorem Machine.HasFiniteTree.exists_height {m : Machine} (hm : m.IsReady) (h : m.HasFiniteTree) :
    ∃ height, ∀ n, m.Reaches n → n.depth ≤ m.depth + height := by
  induction h with
  | @intro m nonempty runs below ih =>
    -- the greatest one behind the choices before a position
    have hheight : ∀ j, ∃ height, ∀ g, m.pending = some g → ∀ i < j, i < g.total →
        ∀ e m', m.transition (g.select i).2 = .ok e m' →
          ∀ n, m'.Reaches n → n.depth ≤ m'.depth + height := by
      intro j
      induction j with
      | zero => exact ⟨0, fun _ _ i hi => absurd hi (Nat.not_lt_zero i)⟩
      | succ j ihj =>
        obtain ⟨height, hbefore⟩ := ihj
        by_cases hj : ∃ g e m', m.pending = some g ∧ j < g.total ∧
            m.transition (g.select j).2 = .ok e m'
        · obtain ⟨g, e, m', hg, hlt, hm'⟩ := hj
          have hready : m'.IsReady := (hm.reaches (.tail .refl ⟨hg, hlt, hm'⟩))
          obtain ⟨height', hbehind⟩ := ih g j e m' hg hlt hm' hready
          refine ⟨max height height', fun g' hg' i hi hit e' n' hn' n hn => ?_⟩
          rcases Nat.lt_succ_iff_lt_or_eq.mp hi with hi | rfl
          · have hle := hbefore g' hg' i hi hit e' n' hn' n hn
            omega
          · rw [hg] at hg'
            cases hg'
            rw [hm'] at hn'
            cases hn'
            have hle := hbehind n hn
            omega
        · refine ⟨height, fun g' hg' i hi hit e' n' hn' n hn => ?_⟩
          rcases Nat.lt_succ_iff_lt_or_eq.mp hi with hi | rfl
          · exact hbefore g' hg' i hi hit e' n' hn' n hn
          · exact absurd ⟨g', e', n', hg', hit, hn'⟩ hj
    cases hp : m.pending with
    | none =>
      refine ⟨0, fun n hn => ?_⟩
      rcases Relation.ReflTransGen.cases_head hn with rfl | ⟨m', hfollows, -⟩
      · exact Nat.le_refl _
      · obtain ⟨hg, -, -⟩ := hfollows
        rw [hp] at hg
        cases hg
    | some g =>
      obtain ⟨height, hall⟩ := hheight g.total
      refine ⟨height + 1, fun n hn => ?_⟩
      rcases Relation.ReflTransGen.cases_head hn with rfl | ⟨m', hfollows, hrest⟩
      · omega
      · obtain ⟨hg, hi, htransition⟩ := hfollows
        rw [hp] at hg
        cases hg
        have hdepth := Search.DepthFirst.depth_of_transition hm htransition
        have hle := hall g hp _ hi hi _ _ htransition n hrest
        omega

namespace Search

variable {start s s₁ s' : Search} {tried : List Pick} {k : Pick} {e : TransitionEnd}

/-! ## Looking at a state -/

theorem Pending.pathFinished (h : Pending start tried s) : Pending start tried s.pathFinished :=
  { h with
    run := h.run
    watchful := ⟨h.watchful.properties, h.watchful.done, h.watchful.checked⟩
    transitions := h.transitions
    constraintHits := h.constraintHits
    advanced := h.advanced }

/-- A sampling search looks at a state where it is not to stop. The choice point there is handed on,
or the path has ended. -/
theorem Pending.proceed (h : Pending start tried s) (hwithin : start.GoesOnAt k.point.state)
    (htried : Tried start tried k s₁) (hgoes : start.config.stopsAt k.target = false) :
    ∃ next t, Sampling.proceed s₁.checkProperties.2 start.depthBound = (next, t) ∧
      (∀ g, next = some g ↔ fate start.config start.depthBound k.target = .handedOn g) ∧
      Pending start (tried ++ [k]) t ∧ t.stats.paths = s₁.stats.paths ∧
      t.stats.restores = s₁.stats.restores ∧
      (next ≠ none → t.machine.Alike True { k.target with pending := none }) := by
  have hchecked := checkProperties_eq (htried.goes hgoes) htried.new
  have hdone : s₁.checkProperties.2.done = false := hchecked.task.done.trans htried.task.2.2.2
  have hfate : ∀ g, fate start.config start.depthBound k.target = .handedOn g ↔
      start.depthBound.any (· ≤ s₁.machine.depth) = false ∧ s₁.machine.pending = some g := by
    intro g
    rw [fate_eq_handedOn, htried.alike.depth, htried.alike.pending]
    exact and_iff_right hgoes
  have hits_eq : hits start.config start.depthBound k.target =
      (start.depthBound.any (· ≤ s₁.machine.depth) && s₁.machine.pending.isSome) := by
    unfold hits
    rw [hgoes, htried.alike.depth, htried.alike.pending]
    rfl
  have hmachine := hchecked.machine
  unfold Sampling.proceed hasReached Search.depth
  rw [hdone, if_neg Bool.false_ne_true, hmachine]
  by_cases hreached : start.depthBound.any (· ≤ s₁.machine.depth) = true
  · rw [if_pos hreached]
    obtain ⟨htold, hstats⟩ := cutOff_eq s₁.checkProperties.2
    rw [hmachine, hchecked.stats] at hstats
    refine ⟨none, _, rfl, fun g => ?_, ?_, ?_, ?_, fun hne => absurd rfl hne⟩
    · rw [hfate, hreached]
      simp
    · refine h.concat hwithin htried hgoes
        (IsTrans.trans _ _ _ hchecked.task ⟨htold.task.config, htold.task.properties,
          htold.task.listening, htold.task.done⟩) ?_ (htold.checkedAt.trans hchecked.checkedAt) ?_ ?_
        (htold.advanced.trans hchecked.advanced)
      · rw [htold.machine]
        dsimp only
        rw [hmachine]
        exact refl _
      · rw [hstats]
      · rw [hstats, hits_eq, hreached]
        rfl
    · rw [hstats]
    · rw [hstats]
  · rw [if_neg hreached]
    rw [Bool.not_eq_true] at hreached
    have hnohit : hits start.config start.depthBound k.target = false := by
      rw [hits_eq, hreached]
      rfl
    cases hp : s₁.machine.pending with
    | none =>
      rw [takeChoicePoint_of_none (hmachine ▸ hp)]
      refine ⟨none, _, rfl, fun g => ?_, ?_, ?_, ?_, fun hne => absurd rfl hne⟩
      · rw [hfate, hp]
        simp
      · refine h.concat hwithin htried hgoes hchecked.task ?_ hchecked.checkedAt ?_ ?_
          hchecked.advanced
        · rw [hmachine]
          exact refl _
        · rw [hchecked.stats]
        · rw [hchecked.stats, hnohit]
          rfl
      · rw [hchecked.stats]
      · rw [hchecked.stats]
    | some g =>
      rw [takeChoicePoint_of_some (hmachine ▸ hp)]
      refine ⟨some g, _, rfl, fun g' => ?_, ?_, ?_, ?_, fun _ => ?_⟩
      · rw [hfate, hp, hreached]
        simp
      · refine h.concat hwithin htried hgoes ⟨hchecked.task.config, hchecked.task.properties,
          hchecked.task.listening, hchecked.task.done⟩ ?_ hchecked.checkedAt ?_ ?_ hchecked.advanced
        · dsimp only
          rw [hmachine]
          exact ⟨rfl, rfl, rfl⟩
        · dsimp only
          rw [hchecked.stats]
        · dsimp only
          rw [hchecked.stats, hnohit]
          rfl
      · dsimp only
        rw [hchecked.stats]
      · dsimp only
        rw [hchecked.stats]
      · dsimp only
        rw [hmachine]
        exact htried.alike.withoutPending

namespace Sampling

/-! ## Paths -/

/-- Choices lead from the state in which the search begins to a choice point, one after another. -/
inductive LeadsTo (start : Search) (root : Generator) : List Pick → Point → Prop where
  | start : LeadsTo start root [] ⟨start.machine, root⟩
  | concat {path : List Pick} {k : Pick} {g : Generator} (path_leads : LeadsTo start root path k.point)
    (handedOn : fate start.config start.depthBound k.target = .handedOn g) :
    LeadsTo start root (path ++ [k]) ⟨k.target, g⟩

/-- A path ends behind its last choice. -/
structure IsSample (start : Search) (root : Generator) (path : List Pick) : Prop where
  exists_last : ∃ before k, path = before ++ [k] ∧ LeadsTo start root before k.point ∧
    ∀ g, fate start.config start.depthBound k.target ≠ .handedOn g

def totals (tried : List Pick) : List Nat := tried.map (·.point.generator.total)

variable {root : Generator} {paths : List (List Pick)} {path : List Pick} {x : Point} {rng : Rng}

theorem LeadsTo.depth (hm : start.machine.IsReady) (h : LeadsTo start root path x)
    (htaken : ∀ k ∈ path, k.IsTaken start.machine) :
    x.state.depth = start.machine.depth + path.length := by
  induction h with
  | start => rfl
  | @concat path k g _ _ ih =>
    have hk := htaken k (by simp)
    rw [List.length_append, List.length_singleton, ← Nat.add_assoc,
      ← ih fun j hj => htaken j (List.mem_append_left _ hj)]
    exact hk.depth hm

/-- Some paths have come to their end, and another one has come to a choice point. -/
structure Walks (start : Search) (root : Generator) (paths : List (List Pick)) (path : List Pick)
    (x : Point) (rng : Rng) (s : Search) : Prop extends Pending start (paths.flatten ++ path) s where
  samples : ∀ p ∈ paths, IsSample start root p
  leads : LeadsTo start root path x
  reached : start.machine.Reaches x.state
  pending : x.state.pending = some x.generator
  below : start.GoesOnAt x.state
  alike : s.machine.Alike True { x.state with pending := none }
  drawn : (paths.flatten ++ path).map Pick.index =
    Rng.draws (totals (paths.flatten ++ path)) ⟨start.config.seed⟩
  rng : rng = Rng.after (totals (paths.flatten ++ path)) ⟨start.config.seed⟩
  counted : s.stats.paths = paths.length
  restores : s.stats.restores = paths.length
  limit : paths.length ≤ start.config.pathLimit

/-- These paths have been sampled, and no other one has begun. -/
structure Complete (start : Search) (root : Generator) (paths : List (List Pick)) (s : Search) :
    Prop where
  samples : ∀ p ∈ paths, IsSample start root p
  drawn : paths.flatten.map Pick.index =
    Rng.draws (totals paths.flatten) ⟨start.config.seed⟩
  counted : s.stats.paths = paths.length
  restores : s.stats.restores + 1 = paths.length
  limit : paths.length ≤ start.config.pathLimit + 1

/-- The search is over: it has sampled as many paths as it was to, or a violation has stopped it. -/
structure Sampled (start : Search) (root : Generator) (paths : List (List Pick)) (s : Search) : Prop
    extends Ledger start paths.flatten s, Complete start root paths s where
  finished : paths.length = start.config.pathLimit + 1 ∨
    ∃ k ∈ paths.flatten.getLast?, start.config.stopsAt k.target = true

theorem Walks.init (hstart : start.Begins root) (hs : Told start s) :
    Walks start root [] [] ⟨start.machine, root⟩ ⟨start.config.seed⟩
      { s with machine := { s.machine with pending := none } } :=
  { Pending.init hstart hs with
    run := by
      rw [hs.machine]
      exact ⟨rfl, rfl, rfl⟩
    watchful := ⟨(Pending.init hstart hs).watchful.properties,
      (Pending.init hstart hs).watchful.done, (Pending.init hstart hs).watchful.checked⟩
    samples := fun p hp => absurd hp List.not_mem_nil
    leads := .start
    reached := .refl
    pending := hstart.pending
    below := .inl rfl
    alike := by
      rw [hs.machine]
      exact .refl _
    drawn := rfl
    rng := rfl
    counted := by
      show s.stats.paths = 0
      rw [hs.stats, hstart.stats]
    restores := by
      show s.stats.restores = 0
      rw [hs.stats, hstart.stats]
    limit := Nat.zero_le _ }

section Drawn

variable {t : Search} (hk : k = ⟨x, (rng.index x.generator.total).1⟩)
include hk

theorem Walks.draws_concat (h : Walks start root paths path x rng s) :
    (paths.flatten ++ (path ++ [k])).map Pick.index =
        Rng.draws (totals (paths.flatten ++ (path ++ [k]))) ⟨start.config.seed⟩ ∧
      (rng.index x.generator.total).2 =
        Rng.after (totals (paths.flatten ++ (path ++ [k]))) ⟨start.config.seed⟩ := by
  have htotals : totals (paths.flatten ++ (path ++ [k])) =
      totals (paths.flatten ++ path) ++ [x.generator.total] := by
    rw [hk, ← List.append_assoc]
    exact List.map_append
  rw [htotals, Rng.draws_concat, Rng.after_concat, ← h.drawn, ← h.rng, hk, ← List.append_assoc,
    List.map_append]
  exact ⟨rfl, rfl⟩

/-- The choice that was drawn leads on. -/
theorem Walks.concat (h : Walks start root paths path x rng s)
    (hpending : Pending start (paths.flatten ++ path ++ [k]) t)
    (hreached : start.machine.Reaches k.target)
    (hhanded : fate start.config start.depthBound k.target = .handedOn g)
    (halike : t.machine.Alike True { k.target with pending := none })
    (hpaths : t.stats.paths = s.stats.paths) (hrestores : t.stats.restores = s.stats.restores) :
    Walks start root paths (path ++ [k]) ⟨k.target, g⟩ (rng.index x.generator.total).2 t := by
  obtain ⟨hdrawn, hafter⟩ := h.draws_concat hk
  rw [List.append_assoc] at hpending
  exact { hpending with
    samples := h.samples
    leads := .concat (hk ▸ h.leads) hhanded
    reached := hreached
    pending := (fate_eq_handedOn.mp hhanded).2.2
    below := .inr (fate_eq_handedOn.mp hhanded).2.1
    alike := halike
    drawn := hdrawn
    rng := hafter
    counted := hpaths.trans h.counted
    restores := hrestores.trans h.restores
    limit := h.limit }

/-- The path ends behind the choice that was drawn. -/
theorem Walks.complete (h : Walks start root paths path x rng s)
    (hends : ∀ g, fate start.config start.depthBound k.target ≠ .handedOn g)
    (hpaths : t.stats.paths = s.stats.paths + 1) (hrestores : t.stats.restores = s.stats.restores) :
    Complete start root (paths ++ [path ++ [k]]) t where
  samples := by
    have hleads : LeadsTo start root path k.point := hk ▸ h.leads
    exact List.forall_mem_append.mpr
      ⟨h.samples, List.forall_mem_singleton.mpr ⟨path, k, rfl, hleads, hends⟩⟩
  drawn := by
    rw [List.flatten_concat]
    exact (h.draws_concat hk).1
  counted := by
    rw [hpaths, h.counted, List.length_append]
    rfl
  restores := by
    rw [hrestores, h.restores, List.length_append]
    rfl
  limit := by
    rw [List.length_append]
    exact Nat.succ_le_succ h.limit

/-- A violation behind the choice that was drawn stops the search. -/
theorem Walks.stopped (h : Walks start root paths path x rng s)
    (hmoved : Moved s e s₁.machine s₁) (htried : Tried start (paths.flatten ++ path) k s₁)
    (hstops : start.config.stopsAt k.target = true) :
    Sampled start root (paths ++ [path ++ [k]]) s₁.checkProperties.2.pathFinished := by
  have hwithin : start.GoesOnAt k.point.state := hk ▸ h.below
  have hledger := h.toPending.stopped hwithin htried hstops
  have hstats := (checkProperties_counts s₁).1
  rw [List.append_assoc, ← List.flatten_concat] at hledger
  refine { hledger with
    toComplete := h.complete hk (fun g hg => ?_) ?_ ?_
    finished := .inr ⟨k, ?_, hstops⟩ }
  · rw [(fate_eq_handedOn.mp hg).1] at hstops
    cases hstops
  · show s₁.checkProperties.2.stats.paths + 1 = _
    rw [hstats, hmoved.stats]
  · show s₁.checkProperties.2.stats.restores = _
    rw [hstats, hmoved.stats]
  · rw [List.flatten_concat, ← List.append_assoc]
    simp

end Drawn

/-- If paths are missing, another one begins. -/
theorem Complete.restart (hstart : start.Begins root) (h : Complete start root paths s)
    (hpending : Pending start paths.flatten s) (hmissing : s.stats.paths ≤ start.config.pathLimit)
    (hrng : rng = Rng.after (totals paths.flatten) ⟨start.config.seed⟩) :
    Walks start root paths [] ⟨start.machine, root⟩ rng (s.restore start.machine.snapshot) := by
  have hreturned := Returned.restore s start.machine.snapshot
  have hback := hpending.returned hreturned
  have hdrawn := h.drawn
  have hstats := stats_restore s start.machine.snapshot
  rw [← List.append_nil paths.flatten] at hback hdrawn hrng
  exact { hback with
    samples := h.samples
    leads := .start
    reached := .refl
    pending := hstart.pending
    below := .inl rfl
    alike := by
      rw [hreturned.machine]
      exact hpending.run.restore
    drawn := hdrawn
    rng := hrng
    counted := by
      rw [hstats]
      exact h.counted
    restores := by
      rw [hstats]
      exact h.restores
    limit := h.counted ▸ hmissing }

/-- What a round makes of a walk: the path goes on or another one begins, or the search is over. -/
def Continues (start : Search) (root : Generator) (paths : List (List Pick)) (path : List Pick) :
    (Generator × Rng) ⊕ Unit → Search → Prop
  | .inl next, t => ∃ paths' path' x, next.1 = x.generator ∧
      Walks start root paths' path' x next.2 t ∧
      (paths' = paths ∧ path'.length = path.length + 1 ∨
        paths'.length = paths.length + 1 ∧ path' = [])
  | .inr _, t => ∃ paths', Sampled start root paths' t

theorem Walks.look (hstart : start.Begins root) (h : Walks start root paths path x rng s)
    (hk : k = ⟨x, (rng.index x.generator.total).1⟩) (hmoved : Moved s e s₁.machine s₁)
    (htried : Tried start (paths.flatten ++ path) k s₁) {rng' : Rng}
    (hrng : rng' = (rng.index x.generator.total).2) :
    Ends (Continues start root paths path) (fun _ => True)
      (look start.depthBound start.machine.snapshot root rng' s₁) := by
  unfold Sampling.look
  -- `rng'` stays a variable: what a draw makes of the source of random numbers is never computed
  cases hstops : start.config.stopsAt k.target with
  | true =>
    obtain ⟨-, hdone, -⟩ := htried.stops hstops
    have hproceed : proceed s₁.checkProperties.2 start.depthBound = (none, s₁.checkProperties.2) := by
      unfold proceed
      rw [hdone, if_pos rfl]
    rw [hproceed]
    dsimp only
    rw [hdone, Bool.true_or, if_pos rfl]
    exact ⟨_, h.stopped hk hmoved htried hstops⟩
  | false =>
    have hwithin : start.GoesOnAt k.point.state := hk ▸ h.below
    obtain ⟨next, t, hproceed, hfate, hpending, hpaths, hrestores, halike⟩ :=
      h.toPending.proceed hwithin htried hstops
    replace hpaths : t.stats.paths = s.stats.paths := by rw [hpaths, hmoved.stats]
    replace hrestores : t.stats.restores = s.stats.restores := by rw [hrestores, hmoved.stats]
    rw [hproceed]
    cases next with
    | some g =>
      have hwalks := h.concat hk hpending htried.taken.reaches_target ((hfate g).mp rfl)
        (halike nofun) hpaths hrestores
      rw [← hrng] at hwalks
      exact ⟨paths, path ++ [k], ⟨k.target, g⟩, rfl, hwalks, .inl ⟨rfl, List.length_append⟩⟩
    | none =>
      have hcomplete : Complete start root (paths ++ [path ++ [k]]) t.pathFinished := by
        refine h.complete hk (fun g hg => ?_) (congrArg (· + 1) hpaths) hrestores
        cases (hfate g).mpr hg
      have hfinished := hpending.pathFinished
      rw [List.append_assoc, ← List.flatten_concat] at hfinished
      dsimp only
      rw [hpending.watchful.done, Bool.false_or, hpending.config]
      by_cases hover : start.config.pathLimit < t.pathFinished.stats.paths
      · rw [if_pos (decide_eq_true hover)]
        have hcounted := hcomplete.counted
        have hlimit := hcomplete.limit
        exact ⟨_, { hfinished.toLedger with
          toComplete := hcomplete
          finished := .inl (by omega) }⟩
      · have hafter : rng' =
            Rng.after (totals (paths ++ [path ++ [k]]).flatten) ⟨start.config.seed⟩ := by
          rw [hrng, List.flatten_concat]
          exact (h.draws_concat hk).2
        rw [if_neg (by simpa using hover)]
        exact ⟨_, [], ⟨start.machine, root⟩, rfl, hcomplete.restart hstart hfinished
          (Nat.le_of_not_lt hover) hafter, .inr ⟨List.length_append, rfl⟩⟩

theorem Walks.round (hstart : start.Begins root) (h : Walks start root paths path x rng s) :
    Ends (Continues start root paths path) (fun _ => True)
      (round start.depthBound start.machine.snapshot root (x.generator, rng) s) := by
  rcases Nat.eq_zero_or_pos x.generator.total with hempty | hpos
  · rw [round_of_empty _ _ _ _ hempty]
    trivial
  · rw [round_eq _ _ _ _ hpos]
    cases hforward : forward (x.generator.select (rng.index x.generator.total).1).2 s with
    | error e t =>
      rw [bind_of_error hforward]
      trivial
    | ok e t =>
      obtain ⟨hmoved, htried⟩ := h.toPending.forward
        (k := ⟨x, (rng.index x.generator.total).1⟩) hstart.ready h.reached h.pending
        (Rng.index_lt rng hpos) h.alike hforward
      rw [bind_of_ok hforward]
      exact h.look hstart rfl hmoved htried rfl

/-- The search samples paths from the choice point at which it begins. -/
theorem search_eq (rounds : Nat) (hstart : start.Begins root) (hs : Told start s) :
    search rounds s = Loop.run (round start.depthBound start.machine.snapshot root)
      .budgetExhausted rounds (root, ⟨start.config.seed⟩)
      { s with machine := { s.machine with pending := none } } := by
  have hbound := hs.depthBound
  have hsnapshot : s.machine.snapshot = start.machine.snapshot := by rw [hs.machine]
  have hseed : s.config.seed = start.config.seed := by rw [hs.task.config]
  unfold search
  rw [get_bind, takeChoicePoint_of_some (hs.machine ▸ hstart.pending), hbound, hsnapshot]
  dsimp only
  rw [set_bind, hseed]

theorem search_samples (rounds : Nat) (hstart : start.Begins root) (hs : Told start s) :
    Ends (fun _ t => ∃ paths, Sampled start root paths t) (fun _ => True) (search rounds s) := by
  rw [search_eq rounds hstart hs]
  refine Loop.run_ends _ (I := fun next t => ∃ paths path x, next.1 = x.generator ∧
    Walks start root paths path x next.2 t) ?_ (fun _ _ _ => trivial) rounds
    ⟨_, _, _, rfl, Walks.init hstart hs⟩
  rintro ⟨g, rng⟩ t ⟨paths, path, x, hg, ht⟩
  dsimp only at hg ht
  subst hg
  refine (ht.round hstart).mono (fun r u hu => ?_) fun _ _ => trivial
  cases r with
  | inl next =>
    obtain ⟨paths', path', x', hnext, hwalks', -⟩ := hu
    exact ⟨paths', path', x', hnext, hwalks'⟩
  | inr _ => exact hu

/-! ## Coming to an end -/

theorem Walks.round_eq_ok (hfails : start.machine.NeverFails)
    (h : Walks start root paths path x rng s) (bound : Option Nat) (init : Snapshot) :
    ∃ r t, Sampling.round bound init root (x.generator, rng) s = .ok r t := by
  have hpos := hfails.nonempty x.state x.generator h.reached h.pending
  obtain ⟨e, n', htransition⟩ := hfails.runs x.state x.generator _ h.reached h.pending
    (Rng.index_lt rng hpos)
  obtain ⟨n, hn, -⟩ := Machine.transition_agree h.alike.forgetful.symm htransition
  obtain ⟨t, hforward, -⟩ := forward_eq_ok hn
  rw [round_eq _ _ _ _ hpos, bind_of_ok hforward]
  unfold Sampling.look
  rcases proceed t.checkProperties.2 bound with ⟨_ | next, u⟩
  · dsimp only
    split
    · exact ⟨_, _, rfl⟩
    · exact ⟨_, _, rfl⟩
  · exact ⟨_, _, rfl⟩

/-- Where paths go on, they have made fewer choices than this. -/
def Bounds (start : Search) (height : Nat) : Prop :=
  0 < height ∧ ∀ n, start.machine.Reaches n → start.depthBound.any (· ≤ n.depth) = false →
    n.pending ≠ none → n.depth < start.machine.depth + height

theorem Walks.length_lt {height : Nat} (hready : start.machine.IsReady) (hheight : Bounds start height)
    (h : Walks start root paths path x rng s) : path.length < height := by
  have hdepth := h.leads.depth hready fun k hk => h.taken k (List.mem_append_right _ hk)
  rcases h.below with hroot | hbelow
  · rw [hroot] at hdepth
    have hpos := hheight.1
    omega
  · have hlt := hheight.2 x.state h.reached hbelow (by rw [h.pending]; exact nofun)
    omega

/-- A walk has been made to this generator, and `n` rounds may be missing: those of the paths that are
still to come, and those of this path. -/
def Missing (start : Search) (root : Generator) (height n : Nat) (next : Generator × Rng)
    (s : Search) : Prop :=
  ∃ paths path x, next.1 = x.generator ∧ Walks start root paths path x next.2 s ∧
    n = (start.config.pathLimit - paths.length) * height + (height - path.length)

/-- A round comes closer to the end, or is the last one. -/
theorem Missing.round {height n : Nat} {next : Generator × Rng} (hstart : start.Begins root)
    (hfails : start.machine.NeverFails) (hheight : Bounds start height)
    (h : Missing start root height n next s) :
    (∃ next' t n', Sampling.round start.depthBound start.machine.snapshot root next s =
        .ok (.inl next') t ∧ n' < n ∧ Missing start root height n' next' t) ∨
      ∃ r t, Sampling.round start.depthBound start.machine.snapshot root next s = .ok (.inr r) t ∧
        ∃ paths, Sampled start root paths t := by
  obtain ⟨g, rng⟩ := next
  obtain ⟨paths, path, x, hg, hwalks, hn⟩ := h
  dsimp only at hg hwalks
  subst hg
  have hlength := hwalks.length_lt hstart.ready hheight
  obtain ⟨r, t, hround⟩ := hwalks.round_eq_ok hfails start.depthBound start.machine.snapshot
  have hends := hwalks.round hstart
  rw [hround] at hends
  cases r with
  | inr u => exact .inr ⟨u, t, hround, hends⟩
  | inl next =>
    obtain ⟨paths', path', x', hnext, hwalks', hmore⟩ := hends
    refine .inl ⟨next, t, _, hround, ?_, paths', path', x', hnext, hwalks', rfl⟩
    rw [hn]
    -- the path is longer by one choice, or one path fewer is missing
    rcases hmore with ⟨rfl, hpath⟩ | ⟨hpaths, rfl⟩
    · omega
    · have hlimit := hwalks'.limit
      have hone : start.config.pathLimit - paths.length =
          start.config.pathLimit - paths'.length + 1 := by omega
      rw [hone, Nat.succ_mul, List.length_nil]
      omega

theorem exists_sampled {height : Nat} (hstart : start.Begins root) (hs : Told start s)
    (hfails : start.machine.NeverFails) (hheight : Bounds start height) :
    ∃ t paths, (∀ rounds, (start.config.pathLimit + 1) * height < rounds →
      search rounds s = .ok () t) ∧ Sampled start root paths t := by
  have hmissing : Missing start root height ((start.config.pathLimit + 1) * height)
      (root, ⟨start.config.seed⟩) { s with machine := { s.machine with pending := none } } := by
    refine ⟨_, _, _, rfl, Walks.init hstart hs, ?_⟩
    rw [Nat.succ_mul]
    rfl
  obtain ⟨_, t, hrun, paths, hsampled⟩ := Loop.run_of_decreasing SearchFault.budgetExhausted
    (fun _ _ _ h => h.round hstart hfails hheight) hmissing
  refine ⟨t, paths, fun rounds hrounds => ?_, hsampled⟩
  rw [search_eq rounds hstart hs]
  exact hrun rounds hrounds

/-- Paths are bounded by the limit, or by the choice tree. -/
theorem exists_bounds (hready : start.machine.IsReady)
    (h : start.config.depthLimit ≠ 0 ∨ start.machine.HasFiniteTree) :
    ∃ height, Bounds start height := by
  rcases h with hlimit | hfinite
  · refine ⟨start.config.depthLimit, Nat.pos_of_ne_zero hlimit, fun n _ hbelow _ => ?_⟩
    unfold depthBound Search.depth at hbelow
    rw [if_neg hlimit, Option.any_some, decide_eq_false_iff_not] at hbelow
    omega
  · obtain ⟨height, hheight⟩ := hfinite.exists_height hready
    refine ⟨height + 1, Nat.succ_pos _, fun n hn _ _ => ?_⟩
    have hle := hheight n hn
    omega

end Sampling

theorem Begins.of_pending {m : Machine} {root : Generator} (hm : m.IsReady)
    (hroot : m.pending = some root) (config : SearchConfig) (listening : Bool) :
    Begins { machine := m, config, listening } root :=
  ⟨hm, hroot, ⟨rfl, rfl, nofun⟩, rfl, rfl, rfl⟩

/-- **Sampling runs so many paths.** Where transitions give results and paths are finite or cut off,
a sampling search comes to an end. It has gone along one path after another, each of them a branch of
the choice tree, from the first state to where the path ends; and the positions of the choices are
those that are drawn from the seed. There is one path more than the limit says, unless a violation
has stopped the search: then the choice that led there was the last one. -/
theorem sampling_paths {m : Machine} {root : Generator} (hm : m.IsReady)
    (hroot : m.pending = some root) (hfails : m.NeverFails) (config : SearchConfig)
    (hfinite : config.depthLimit ≠ 0 ∨ m.HasFiniteTree) (listening : Bool) :
    ∃ bound report s' paths,
      (∀ rounds, bound < rounds →
        run sampling rounds { machine := m, config, listening } = .ok report s') ∧
      (∀ p ∈ paths, Sampling.IsSample { machine := m, config, listening } root p) ∧
      (∀ k ∈ paths.flatten, k.IsTaken m) ∧
      paths.flatten.map Pick.index =
        Rng.draws (Sampling.totals paths.flatten) ⟨config.seed⟩ ∧
      (listening = true →
        List.Forall₂ (Machine.Alike True) s'.advanced (paths.flatten.map Pick.target)) ∧
      report.stats.paths = paths.length ∧
      report.stats.restores + 1 = report.stats.paths ∧
      report.stats.transitions = sumOf (paths.map List.length) ∧
      (paths.length = config.pathLimit + 1 ∧
          (∀ k ∈ paths.flatten, config.stopsAt k.target = false) ∨
        paths.length ≤ config.pathLimit + 1 ∧
          ∃ earlier before last, paths = earlier ++ [before ++ [last]] ∧
            config.stopsAt last.target = true ∧
            ∀ k ∈ earlier.flatten ++ before, config.stopsAt k.target = false) := by
  have hbegins := Begins.of_pending hm hroot config listening
  have htold := Told.tell { machine := m, config, listening } (n := .started m.depth)
    fun _ => by exact nofun
  obtain ⟨height, hheight⟩ := Sampling.exists_bounds hbegins.ready hfinite
  obtain ⟨t, paths, hsearch, hsampled⟩ := Sampling.exists_sampled hbegins htold hfails hheight
  have hfinished := Told.tell t (n := .finished t.stats.transitions) fun _ => by exact nofun
  refine ⟨_, _, _, paths, fun rounds hrounds => run_eq_ok sampling rounds hm.started
    (hsearch rounds hrounds), hsampled.samples, hsampled.taken, hsampled.drawn, fun hl => ?_,
    hsampled.counted, hsampled.restores.trans hsampled.counted.symm, ?_, ?_⟩
  · rw [hfinished.advanced]
    exact hsampled.advanced (hsampled.listening.trans hl)
  · rw [sumOf_length]
    exact hsampled.transitions
  · have hpaths : paths ≠ [] := by
      rintro rfl
      have hrestores := hsampled.restores
      cases hrestores
    obtain ⟨earlier, path, rfl⟩ := List.eq_nil_or_concat' paths |>.resolve_left hpaths
    obtain ⟨before, last, rfl, -⟩ := (hsampled.samples path (by simp)).exists_last
    have hflatten : (earlier ++ [before ++ [last]]).flatten = earlier.flatten ++ before ++ [last] := by
      simp
    have hstops := hsampled.stops
    have hover := hsampled.finished
    rw [hflatten, List.dropLast_concat] at hstops
    rw [hflatten, List.getLast?_concat] at hover
    rw [hflatten]
    by_cases hlast : config.stopsAt last.target = true
    · exact .inr ⟨hsampled.limit, earlier, before, last, rfl, hlast, hstops⟩
    · refine .inl ⟨hover.resolve_right ?_, List.forall_mem_append.mpr
        ⟨hstops, List.forall_mem_singleton.mpr (Bool.not_eq_true _ ▸ hlast)⟩⟩
      rintro ⟨k, ⟨⟩, hk⟩
      exact hlast hk

/-- In the program that picks three values, up to four paths are sampled. -/
theorem sampling_paths_nondet : ∃ p m root bound report s', ∃ paths : List (List Pick),
    Demo.nondet.run (Program.base .plain) = .ok ((), p) ∧ m.Driven p {} ∧ m.IsReady ∧
      m.pending = some root ∧ m.NeverFails ∧ m.HasFiniteTree ∧
      run sampling (bound + 1)
        { machine := m, config := { exhaustive with seed := 24, pathLimit := 3 } } = .ok report s' ∧
      report.stats.paths = paths.length ∧ report.stats.restores + 1 = report.stats.paths ∧
      report.stats.transitions = sumOf (paths.map List.length) ∧
      paths.flatten.map Pick.index = Rng.draws (Sampling.totals paths.flatten) ⟨24⟩ ∧
      paths.length = 4 := by
  obtain ⟨p, m, hbuild, hdriven, htest⟩ := Machine.Driven.exists_of_demo Demo.nondet []
    (fun _ m => m.pending.isSome && m.endsWithin 5) (by decide +kernel)
  rw [Bool.and_eq_true] at htest
  obtain ⟨hpending, hends⟩ := htest
  obtain ⟨root, hroot⟩ := Option.isSome_iff_exists.mp hpending
  have hfinite := Machine.HasFiniteTree.of_endsWithin hends
  obtain ⟨bound, report, s', paths, hrun, -, -, hdrawn, -, hpaths, hrestores, htransitions, hover⟩ :=
    sampling_paths hdriven.isReady hroot hfinite.neverFails
      { exhaustive with seed := 24, pathLimit := 3 } (.inr hfinite) false
  refine ⟨p, m, root, bound, report, s', paths, hbuild, hdriven, hdriven.isReady, hroot,
    hfinite.neverFails, hfinite, hrun _ (Nat.lt_succ_self _), hpaths, hrestores, htransitions, hdrawn,
    ?_⟩
  rcases hover with ⟨hlength, -⟩ | ⟨-, _, _, last, -, hstops, -⟩
  · exact hlength
  · -- this search goes on after violations
    cases hstops

end Search

end Interleave

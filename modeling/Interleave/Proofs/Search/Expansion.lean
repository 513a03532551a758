import Interleave.Proofs.Search.Exhaustion
import Interleave.Proofs.Search.Ledger

/-!
# What a search has expanded

Depth-first search and best-first search gather choice points and go through all of their choices,
whatever the depth limit is, whether or not states are matched, and until a violation ends the
search. Each choice point at which a path is handed on is gathered, or it is recognized.
-/

namespace Interleave

open Effect

namespace Search

variable {start s s₁ s' : Search} {points : List Point} {tried left : List Pick} {k : Pick} {x : Point}
  {root g : Generator} {e : TransitionEnd}

/-- These choice points were gathered; some of their choices have been tried, and the others are
left. -/
structure Expansion (start : Search) (points : List Point) (tried left : List Pick) (s : Search) :
    Prop where
  root : ∀ g, start.machine.pending = some g → ⟨start.machine, g⟩ ∈ points
  reached : ∀ x ∈ points, start.machine.Reaches x.state ∧ x.state.pending = some x.generator
  /-- No path is cut off there. -/
  below : ∀ x ∈ points, start.GoesOnAt x.state
  /-- Each of their choices has been tried, once, or is left. -/
  picks : (tried ++ left).Perm (points.flatMap Point.picks)
  newStates : s.stats.newStates = points.length
  /-- Where a path is handed on, the choice point is one of them, or has the key of one. -/
  handedOn : ∀ k ∈ tried, ∀ g, fate start.config start.depthBound k.target = .handedOn g →
    ⟨k.target, g⟩ ∈ points ∨
      start.config.stateMatching = true ∧ k.target.key g ∈ points.map Point.key

theorem Expansion.perm {left' : List Pick} (h : Expansion start points tried left s)
    (hleft : left'.Perm left) : Expansion start points tried left' s :=
  { h with picks := (hleft.append_left tried).trans h.picks }

theorem Expansion.point_of_left (h : Expansion start points tried left s) (hk : k ∈ left) :
    k.point ∈ points ∧ k.index < k.point.generator.total := by
  have hmem : k ∈ points.flatMap Point.picks :=
    h.picks.mem_iff.mp (List.mem_append_right tried hk)
  obtain ⟨x, hx, hkx⟩ := List.mem_flatMap.mp hmem
  obtain ⟨rfl, hi⟩ := Point.mem_picks.mp hkx
  exact ⟨hx, hi⟩

/-- A choice has been tried, and the choice points that were found by that are gathered. -/
theorem Expansion.concat {t : Search} (h : Expansion start points tried (k :: left) s)
    (found : List Point)
    (hfound : ∀ x ∈ found, k.target = x.state ∧
      fate start.config start.depthBound k.target = .handedOn x.generator)
    (htarget : start.machine.Reaches k.target)
    (hhanded : ∀ g, fate start.config start.depthBound k.target = .handedOn g →
      ⟨k.target, g⟩ ∈ found ∨
        start.config.stateMatching = true ∧ k.target.key g ∈ points.map Point.key)
    (hnew : t.stats.newStates = s.stats.newStates + found.length) :
    Expansion start (points ++ found) (tried ++ [k]) (found.flatMap Point.picks ++ left) t where
  root g hg := List.mem_append_left _ (h.root g hg)
  reached := by
    refine List.forall_mem_append.mpr ⟨h.reached, fun x hx => ?_⟩
    obtain ⟨hstate, hfate⟩ := hfound x hx
    rw [← hstate]
    exact ⟨htarget, (fate_eq_handedOn.mp hfate).2.2⟩
  below := by
    refine List.forall_mem_append.mpr ⟨h.below, fun x hx => ?_⟩
    obtain ⟨hstate, hfate⟩ := hfound x hx
    rw [← hstate]
    exact .inr (fate_eq_handedOn.mp hfate).2.1
  picks := by
    rw [List.flatMap_append, List.append_assoc, List.singleton_append]
    refine List.Perm.trans ?_ (h.picks.append_right _)
    rw [List.append_assoc, List.cons_append]
    exact (List.perm_append_comm.cons k).append_left tried
  newStates := by rw [hnew, h.newStates, List.length_append]
  handedOn := by
    refine List.forall_mem_append.mpr ⟨fun j hj g hg => ?_, List.forall_mem_singleton.mpr ?_⟩
    · rcases h.handedOn j hj g hg with hmem | ⟨hmatching, hkey⟩
      · exact .inl (List.mem_append_left _ hmem)
      · exact .inr ⟨hmatching, List.map_append ▸ List.mem_append_left _ hkey⟩
    · intro g hg
      rcases hhanded g hg with hmem | ⟨hmatching, hkey⟩
      · exact .inl (List.mem_append_right _ hmem)
      · exact .inr ⟨hmatching, List.map_append ▸ List.mem_append_left _ hkey⟩

/-- A search that expands choice points is not over. -/
structure Exploring (start : Search) (points : List Point) (tried left : List Pick) (s : Search) :
    Prop extends Pending start tried s, Expansion start points tried left s where
  /-- The keys of the choice points are remembered. -/
  visited : start.config.stateMatching = true → ∀ y, y ∈ s.visited ↔ y ∈ points.map Point.key

/-- A search that expands choice points is over, since no choice is left or since it was stopped. -/
structure Surveyed (start : Search) (points : List Point) (tried left : List Pick) (s : Search) :
    Prop extends Ledger start tried s, Expansion start points tried left s where
  finished : left = [] ∨ ∃ k ∈ tried.getLast?, start.config.stopsAt k.target = true

namespace Exploring

theorem perm {left' : List Pick} (h : Exploring start points tried left s) (hleft : left'.Perm left) :
    Exploring start points tried left' s :=
  { h with toExpansion := h.toExpansion.perm hleft }

theorem returned {snapshot : Snapshot} (h : Exploring start points tried left s)
    (hback : Returned s snapshot s') : Exploring start points tried left s' :=
  { h.toPending.returned hback, h with
    newStates := hback.newStates.trans h.newStates
    visited := by
      rw [hback.visited]
      exact h.visited }

theorem sameRun (hready : start.machine.IsReady) (h : Exploring start points tried left s)
    (hx : x ∈ points) : Machine.SameRun x.state s.machine :=
  IsTrans.trans _ _ _ (Machine.SameRun.of_reaches hready (h.reached x hx).1).symm h.run

/-- **One more choice.** From the state in front of a choice that is left, the choice is tried. The
search is stopped, or the path is closed, or another choice point is gathered. -/
theorem step (hready : start.machine.IsReady) (h : Exploring start points tried (k :: left) s)
    (halike : s.machine.Alike True { k.point.state with pending := none })
    (hforward : forward (k.point.generator.select k.index).2 s = .ok e s₁) :
    ((s₁.arrive start.depthBound).1 = .stopped ∧
        Surveyed start points (tried ++ [k]) left (s₁.arrive start.depthBound).2) ∨
      ((s₁.arrive start.depthBound).1 = .closed ∧
        Exploring start points (tried ++ [k]) left (s₁.arrive start.depthBound).2) ∨
      ∃ x : Point, (s₁.arrive start.depthBound).1 = .opened x.generator ∧
        (s₁.arrive start.depthBound).2.machine.Alike True { x.state with pending := none } ∧
        Exploring start (points ++ [x]) (tried ++ [k]) (x.picks ++ left)
          (s₁.arrive start.depthBound).2 := by
  obtain ⟨hpoint, hindex⟩ := h.point_of_left List.mem_cons_self
  obtain ⟨hreached, hpending⟩ := h.reached _ hpoint
  have hwithin := h.below _ hpoint
  obtain ⟨hmoved, htried⟩ := h.toPending.forward hready hreached hpending hindex halike hforward
  have htarget := htried.taken.reaches_target
  have hnewStates : s₁.stats.newStates = s.stats.newStates := by rw [hmoved.stats]
  cases hstops : start.config.stopsAt k.target with
  | true =>
    obtain ⟨hfailed, hdone, -⟩ := htried.stops hstops
    rw [arrive_of_stop start.depthBound hfailed hdone]
    refine .inl ⟨rfl, h.toPending.stopped hwithin htried hstops, ?_, .inr ⟨k, by simp, hstops⟩⟩
    have hexpansion := h.toExpansion.concat (t := s₁.checkProperties.2.pathFinished) [] (by simp)
      htarget (fun g hg => ?_) ?_
    · simpa using hexpansion
    · rw [(fate_eq_handedOn.mp hg).1] at hstops
      cases hstops
    · show s₁.checkProperties.2.stats.newStates = _
      rw [(checkProperties_counts s₁).1, hnewStates]
      rfl
  | false =>
    -- the keys that the search remembers are those of the points that were gathered up to here
    obtain ⟨hentered, hclosed | hopened⟩ := h.toPending.arrive hwithin htried hstops
    · obtain ⟨ha, hnew, hvisited, hknown⟩ := hclosed
      refine .inr (.inl ⟨ha, hentered, ?_, ?_⟩)
      · have hexpansion := h.toExpansion.concat (t := (s₁.arrive start.depthBound).2) [] (by simp)
          htarget (fun g hg => ?_) (hnew.trans hnewStates)
        · simpa using hexpansion
        · obtain ⟨hmatching, hkey⟩ := hknown g hg
          refine .inr ⟨hmatching, ?_⟩
          rwa [← h.visited hmatching, ← hmoved.visited]
      · intro hmatching y
        rw [hvisited, hmoved.visited]
        exact h.visited hmatching y
    · obtain ⟨g, ha, hfate, hnew, hvisited, hmachine⟩ := hopened
      refine .inr (.inr ⟨⟨k.target, g⟩, ha, hmachine, hentered, ?_, ?_⟩)
      · have hexpansion := h.toExpansion.concat (t := (s₁.arrive start.depthBound).2)
          [⟨k.target, g⟩] (by simpa using hfate) htarget (fun g' hg' => .inl ?_) ?_
        · simpa using hexpansion
        · rw [hfate] at hg'
          cases hg'
          exact List.mem_singleton_self _
        · rw [hnew, hnewStates]
          rfl
      · intro hmatching y
        rw [hvisited hmatching, Std.HashSet.mem_insert, List.map_append, List.mem_append,
          hmoved.visited, h.visited hmatching y, or_comm, beq_iff_eq, List.map_singleton,
          List.mem_singleton]
        exact or_congr_right eq_comm

end Exploring

theorem Exploring.init {t : Search} (hstart : start.Begins root) (hs : Told start s)
    (ht : t = (({ s with machine := { s.machine with pending := none } } : Search).visit root).2) :
    t.machine.Alike True { start.machine with pending := none } ∧
      Exploring start [⟨start.machine, root⟩] [] (Point.picks ⟨start.machine, root⟩) t := by
  have hpending := Pending.init hstart hs
  rcases visit_eq ({ s with machine := { s.machine with pending := none } } : Search) root with
    ⟨-, hseen, -⟩ | ⟨-, hvisit⟩
  · rw [show ({ s with machine := { s.machine with pending := none } } : Search).visited = {} from
      hs.visited.trans hstart.visited] at hseen
    simp at hseen
  · rw [hvisit] at ht
    subst ht
    refine ⟨?_, ?_⟩
    · dsimp only
      rw [hs.machine]
      exact .refl _
    · exact { hpending with
        run := ⟨hpending.run.program, hpending.run.config, hpending.run.hostCall⟩
        watchful := ⟨hpending.watchful.properties, hpending.watchful.done, hpending.watchful.checked⟩
        root := fun g hg => by
          rw [hstart.pending] at hg
          cases hg
          exact List.mem_singleton_self _
        reached := List.forall_mem_singleton.mpr ⟨.refl, hstart.pending⟩
        below := List.forall_mem_singleton.mpr (.inl rfl)
        picks := by
          rw [List.flatMap_singleton]
          exact .refl _
        newStates := by
          show s.stats.newStates + 1 = 1
          rw [hs.stats, hstart.stats]
        handedOn := fun k hk => absurd hk List.not_mem_nil
        visited := by
          intro hmatching y
          show y ∈ (if s.config.stateMatching = true then s.visited.insert (s.machine.key root)
            else s.visited) ↔ _
          rw [hs.task.config, if_pos hmatching, hs.visited, hstart.visited, hs.machine,
            Std.HashSet.mem_insert, beq_iff_eq, List.map_singleton, List.mem_singleton]
          simp only [Std.HashSet.not_mem_empty, or_false]
          exact eq_comm }

/-! ## Depth-first search -/

namespace DepthFirst

variable {levels rest : List Level} {l : Level} {stack : List Branch}

/-- The stack holds the choices that are left. -/
structure Explores (start : Search) (levels : List Level) (points : List Point) (tried : List Pick)
    (stack : List Branch) (s : Search) : Prop where
  stack : stack = levels.map Level.branch
  exploring : Exploring start points tried (levels.flatMap Level.left) s
  /-- The choice points on the stack have been gathered. -/
  gathered : ∀ l ∈ levels, l.point ∈ points
  /-- The search has left those below the top. -/
  stale : ∀ l ∈ levels.tail, l.fresh = false
  /-- It may still be at the one on top. -/
  fresh : ∀ l ∈ levels.head?, l.fresh = true →
    s.machine.Alike True { l.point.state with pending := none }

/-- The choice point on top has no choices left, and is taken off. -/
theorem Explores.pop (h : Explores start (l :: rest) points tried stack s)
    (hl : l.point.generator.total ≤ l.index) :
    Explores start rest points tried (rest.map Level.branch) s where
  stack := rfl
  exploring := by
    have hexploring := h.exploring
    rw [List.flatMap_cons, Level.left_of_le hl] at hexploring
    exact hexploring
  gathered l' hl' := h.gathered l' (List.mem_cons_of_mem _ hl')
  stale l' hl' := h.stale l' (List.mem_of_mem_tail hl')
  fresh l' hl' hfresh := by
    rw [h.stale l' (List.mem_of_mem_head? hl')] at hfresh
    cases hfresh

theorem Explores.round (hready : start.machine.IsReady)
    (h : Explores start levels points tried stack s) :
    Ends (fun r t => Sum.elim
        (fun stack' => ∃ levels points tried, Explores start levels points tried stack' t)
        (fun _ => ∃ points tried left, Surveyed start points tried left t) r) (fun _ => True)
      (round start.depthBound stack s) := by
  have hdone : s.done = false := h.exploring.watchful.done
  rw [h.stack]
  cases levels with
  | nil => exact ⟨points, tried, [], h.exploring.toLedger, h.exploring.toExpansion, .inl rfl⟩
  | cons l rest =>
    rw [List.map_cons]
    by_cases hl : l.index < l.point.generator.total
    · have hleft := h.exploring
      rw [List.flatMap_cons, Level.left_of_lt hl, List.cons_append] at hleft
      have hpoint := h.gathered l List.mem_cons_self
      -- the search goes to the choice point on top, if it is not there
      obtain ⟨hback, halike⟩ := backTo_branchAt (g := l.point.generator) (i := l.index)
        (h.exploring.sameRun hready hpoint) (h.fresh l rfl)
      have hthere : Exploring start points tried
          (⟨l.point, l.index⟩ :: (l.next.left ++ rest.flatMap Level.left)) (backTo s l.branch) := by
        rcases hback with hsame | hreturned
        · rw [show backTo s l.branch = s from hsame]
          exact hleft
        · exact hleft.returned hreturned
      have hstale : ∀ l' ∈ (l.next :: rest), l'.fresh = false :=
        List.forall_mem_cons.mpr ⟨rfl, h.stale⟩
      unfold Level.branch
      rw [round_eq _ _ hdone hl]
      cases hforward : forward (l.point.generator.select l.index).2
          (backTo s (branchAt l.point.state l.point.generator l.index l.fresh)) with
      | error e t =>
        rw [bind_of_error hforward]
        trivial
      | ok e s₁ =>
        rw [bind_of_ok hforward]
        unfold look
        rcases hthere.step hready halike hforward with
          ⟨ha, hsurveyed⟩ | ⟨ha, hexploring⟩ | ⟨x, ha, hmachine, hexploring⟩
        · rw [ha]
          exact ⟨_, _, _, hsurveyed⟩
        · rw [ha]
          refine ⟨l.next :: rest, points, tried ++ [⟨l.point, l.index⟩], rfl, hexploring,
            List.forall_mem_cons.mpr ⟨hpoint, fun l' hl' => h.gathered l' (List.mem_cons_of_mem _ hl')⟩,
            h.stale, fun l' hl' hfresh => ?_⟩
          cases hl'
          cases hfresh
        · obtain ⟨hreached, hpending⟩ := hexploring.reached x (by simp)
          rw [ha, stackAfter,
            branch_eq hmachine ((hready.reaches hreached).untried _ hpending)]
          refine ⟨⟨x, 0, true⟩ :: l.next :: rest, points ++ [x], tried ++ [⟨l.point, l.index⟩], rfl,
            ?_, ?_, hstale, ?_⟩
          · rw [List.flatMap_cons, List.flatMap_cons]
            exact hexploring
          · refine List.forall_mem_cons.mpr ⟨by simp, List.forall_mem_cons.mpr ⟨?_, fun l' hl' => ?_⟩⟩
            · exact List.mem_append_left _ hpoint
            · exact List.mem_append_left _ (h.gathered l' (List.mem_cons_of_mem _ hl'))
          · intro l' hl' _
            cases hl'
            exact hmachine
    · have htotal := Nat.le_of_not_lt hl
      unfold Level.branch
      rcases Nat.eq_zero_or_pos l.point.generator.total with hempty | hpos
      · rw [round_of_empty _ _ hdone hempty]
        trivial
      · rw [round_of_exhausted _ _ hdone htotal hpos]
        exact ⟨rest, points, tried, h.pop htotal⟩

theorem search_surveys (rounds : Nat) (hstart : start.Begins root) (hs : Told start s) :
    Ends (fun _ t => ∃ points tried left, Surveyed start points tried left t) (fun _ => True)
      (search rounds s) := by
  obtain ⟨t, ht⟩ : ∃ t, t =
      (({ s with machine := { s.machine with pending := none } } : Search).visit root).2 := ⟨_, rfl⟩
  obtain ⟨hmachine, hexploring⟩ := Exploring.init hstart hs ht
  unfold search
  rw [get_bind, get_bind, takeChoicePoint_of_some (hs.machine ▸ hstart.pending), hs.depthBound]
  dsimp only
  rw [set_bind, ← ht, branch_eq hmachine (hstart.ready.untried root hstart.pending)]
  have hexplores : Explores start [⟨⟨start.machine, root⟩, 0, true⟩] [⟨start.machine, root⟩] []
      [branchAt start.machine root 0 true] t := {
    stack := rfl
    exploring := by
      rw [List.flatMap_singleton]
      exact hexploring
    gathered := List.forall_mem_singleton.mpr (List.mem_singleton_self _)
    stale := fun l hl => absurd hl List.not_mem_nil
    fresh := fun l hl _ => by
      cases hl
      exact hmachine }
  exact Loop.run_ends _ (I := fun stack t => ∃ levels points tried,
    Explores start levels points tried stack t) (fun _ _ ⟨_, _, _, h⟩ => h.round hstart.ready)
    (fun _ _ _ => trivial) rounds ⟨_, _, _, hexplores⟩

end DepthFirst

/-! ## Best-first search -/

namespace BestFirst

variable {α : Type} {h : Heuristic α} {q : Queue α}

/-- The queue holds the choices that are left. -/
structure Explores (start : Search) (points : List Point) (tried left : List Pick) (q : Queue α)
    (s : Search) : Prop where
  exploring : Exploring start points tried left s
  entries : q.list.Perm (left.map pickEntry)
  numbered : q.Numbered
  /-- Before the first round the search is in front of all these choices. -/
  atRoot : q.atRoot = true → ∀ k ∈ left, s.machine.Alike True { k.point.state with pending := none }

theorem Explores.exists_next {rank : Rank} {entry : Entry} (hq : Explores start points tried left q s)
    (hmin : q.entries.minEntry? = some (rank, entry)) :
    ∃ k left', left.Perm (k :: left') ∧ pickEntry k = entry ∧
      (Queue.list { q with entries := q.entries.erase rank, atRoot := false }).Perm
        (left'.map pickEntry) := by
  have hqueue := Queue.list_perm_of_minEntry? hmin false
  have hmem : entry ∈ left.map pickEntry :=
    (hqueue.symm.trans hq.entries).mem_iff.mp List.mem_cons_self
  obtain ⟨k, hk, rfl⟩ := List.mem_map.mp hmem
  obtain ⟨before, after, rfl⟩ := List.append_of_mem hk
  have hall := (hqueue.symm.trans hq.entries).trans (List.perm_middle.map pickEntry)
  exact ⟨k, before ++ after, List.perm_middle, rfl, hall.cons_inv⟩

theorem Explores.round (h : Heuristic α) (hready : start.machine.IsReady)
    (hq : Explores start points tried left q s) :
    Ends (fun r t => Sum.elim
        (fun q' => ∃ points tried left, Explores start points tried left q' t)
        (fun _ => ∃ points tried left, Surveyed start points tried left t) r) (fun _ => True)
      (round h start.depthBound q s) := by
  have hdone : s.done = false := hq.exploring.watchful.done
  cases hmin : q.entries.minEntry? with
  | none =>
    have hleft : left = [] := by
      have hperm := hq.entries
      rw [Queue.list_eq_nil hmin] at hperm
      exact List.map_eq_nil_iff.mp hperm.symm.eq_nil
    rw [round_of_none hmin]
    exact ⟨points, tried, left, hq.exploring.toLedger, hq.exploring.toExpansion, .inl hleft⟩
  | some r =>
    obtain ⟨rank, entry⟩ := r
    obtain ⟨k, left', hperm, rfl, hentries⟩ := hq.exists_next hmin
    have hleft := hq.exploring.perm hperm.symm
    have hthere : Exploring start points tried (k :: left') (jumpTo s q.atRoot (pickEntry k)) ∧
        (jumpTo s q.atRoot (pickEntry k)).machine.Alike True
          { k.point.state with pending := none } := by
      cases hroot : q.atRoot with
      | true => exact ⟨hleft, hq.atRoot hroot k (hperm.mem_iff.mpr List.mem_cons_self)⟩
      | false =>
        have hreturned := Returned.restore s (pickEntry k).snapshot
        refine ⟨hleft.returned hreturned, ?_⟩
        rw [show jumpTo s false (pickEntry k) = s.restore (pickEntry k).snapshot from rfl,
          hreturned.machine]
        exact (hleft.sameRun hready (hleft.point_of_left List.mem_cons_self).1).restore
    obtain ⟨hexploring, halike⟩ := hthere
    rw [round_eq h start.depthBound hdone hmin]
    cases hforward : forward (pickEntry k).generator (jumpTo s q.atRoot (pickEntry k)) with
    | error e t =>
      rw [bind_of_error hforward]
      trivial
    | ok e s₁ =>
      rw [bind_of_ok hforward]
      unfold look
      rcases hexploring.step hready halike hforward with
        ⟨ha, hsurveyed⟩ | ⟨ha, hexploring'⟩ | ⟨x, ha, hmachine, hexploring'⟩
      · rw [ha]
        exact ⟨_, _, _, hsurveyed⟩
      · rw [ha]
        exact ⟨_, _, _, hexploring', hentries, hq.numbered.erase rank false, nofun⟩
      · rw [ha]
        rcases Nat.eq_zero_or_pos x.generator.total with hempty | hpos
        · unfold queueAfter
          dsimp only
          rw [bind_of_error (Queue.expand_of_empty _ _ hempty)]
          trivial
        · obtain ⟨q', hexpand, hlist, hnumbered, hroot⟩ := Queue.expand_eq (h := h)
            (s := (s₁.arrive start.depthBound).2) (hq.numbered.erase rank false) hpos
          rw [queueAfter_opened hexpand]
          refine ⟨_, _, _, hexploring', ?_, hnumbered, fun hat => ?_⟩
          · rw [List.map_append, ← map_entry_eq hmachine]
            exact hlist.trans (hentries.append_left _)
          · rw [hroot] at hat
            cases hat

theorem search_surveys (h : Heuristic α) (rounds : Nat) (hstart : start.Begins root)
    (hs : Told start s) :
    Ends (fun _ t => ∃ points tried left, Surveyed start points tried left t) (fun _ => True)
      (search h rounds s) := by
  obtain ⟨t, ht⟩ : ∃ t, t =
      (({ s with machine := { s.machine with pending := none } } : Search).visit root).2 := ⟨_, rfl⟩
  obtain ⟨hmachine, hexploring⟩ := Exploring.init hstart hs ht
  unfold search
  rw [get_bind, get_bind, takeChoicePoint_of_some (hs.machine ▸ hstart.pending), hs.depthBound]
  dsimp only
  rw [set_bind, ← ht]
  rcases Nat.eq_zero_or_pos root.total with hempty | hpos
  · rw [bind_of_error (Queue.expand_of_empty _ t hempty)]
    trivial
  · obtain ⟨q, hexpand, hlist, hnumbered, -⟩ := Queue.expand_eq (h := h) (s := t)
      (Queue.numbered_start h.start) hpos
    rw [bind_of_ok hexpand]
    refine Loop.run_ends _ (I := fun q t => ∃ points tried left, Explores start points tried left q t)
      (fun _ _ ⟨_, _, _, hq⟩ => hq.round h hstart.ready) (fun _ _ _ => trivial) rounds
      ⟨_, _, _, hexploring, ?_, hnumbered, fun _ k hk => ?_⟩
    · rw [← map_entry_eq (x := ⟨start.machine, root⟩) hmachine]
      refine hlist.trans ?_
      rw [Queue.list_start, List.append_nil]
    · obtain ⟨hpoint, -⟩ := Point.mem_picks.mp hk
      rw [hpoint]
      exact hmachine

end BestFirst

end Search

end Interleave

import Interleave.Proofs.Search.Queue
import Interleave.Proofs.Search.Stack
import Interleave.Proofs.Search.Worklist

/-!
# Strategies that leave nothing out

Depth-first search keeps the choices that are left on its stack, as the choices from a position on
of each choice point there; best-first search keeps them in its queue, one entry for each. A round
of either tries one of them, or takes a choice point without further choices off the stack. If there
are only finitely many keys, this comes to an end, and then no choice is left.
-/

namespace Interleave

open Effect

namespace Search

variable {start s : Search} {ks : Finset StateKey} {points : List Point} {tried : List Pick}

/-- A search begins at a choice point of a machine that choices lead on without faults, and there
are only so many keys. -/
structure Bounded (start : Search) (ks : Finset StateKey) : Prop extends start.Matching where
  ready : start.machine.IsReady
  fails : start.machine.NeverFails
  /-- There are no other keys. -/
  keys : ∀ k ∈ start.machine.keys, k ∈ ks

namespace DepthFirst

/-- A choice point on the stack, of which the choices before a position have been tried. -/
structure Level where
  point : Point
  /-- The position. -/
  index : Nat
  /-- Is the search still there? -/
  fresh : Bool

/-- How it stands on the stack. -/
def Level.branch (l : Level) : Branch := branchAt l.point.state l.point.generator l.index l.fresh

/-- The choices that are left. -/
def Level.left (l : Level) : List Pick := l.point.picks.drop l.index

/-- The level when one more choice has been tried. -/
def Level.next (l : Level) : Level := { l with index := l.index + 1, fresh := false }

theorem Level.left_of_lt {l : Level} (h : l.index < l.point.generator.total) :
    l.left = ⟨l.point, l.index⟩ :: l.next.left := by
  unfold left next
  exact Point.drop_picks h

theorem Level.left_of_le {l : Level} (h : l.point.generator.total ≤ l.index) : l.left = [] :=
  List.drop_eq_nil_of_le (by simpa using h)

/-- The stack holds the choices that are left, and no more than `n` rounds are missing. -/
structure Stands (start : Search) (ks : Finset StateKey) (levels : List Level)
    (points : List Point) (tried : List Pick) (n : Nat) (stack : List Branch) (s : Search) :
    Prop where
  stack : stack = levels.map Level.branch
  progress : Progress start s points tried (levels.flatMap Level.left)
  /-- The choice points on the stack have been expanded. -/
  expanded : ∀ l ∈ levels, l.point ∈ points
  /-- The search has left those below the top. -/
  stale : ∀ l ∈ levels.tail, l.fresh = false
  /-- It may still be at the one on top. -/
  fresh : ∀ l ∈ levels.head?, l.fresh = true →
    s.machine.Alike True { l.point.state with pending := none }
  /-- A round for each choice that is left, one for each level, and those of keys to be found. -/
  rounds : (levels.flatMap Level.left).length + levels.length + debt ks points ≤ n

namespace Stands

variable {l : Level} {rest : List Level} {n : Nat} {stack : List Branch} {x : Point}

/-- The choice point on top has no choices left, and is taken off. -/
theorem pop (h : Stands start ks (l :: rest) points tried n stack s)
    (hl : l.point.generator.total ≤ l.index) :
    Stands start ks rest points tried (n - 1) (rest.map Level.branch) s where
  stack := rfl
  progress := by
    have hprogress := h.progress
    rw [List.flatMap_cons, Level.left_of_le hl] at hprogress
    exact hprogress
  expanded l' hl' := h.expanded l' (List.mem_cons_of_mem _ hl')
  stale l' hl' := h.stale l' (List.mem_of_mem_tail hl')
  fresh l' hl' hfresh := by
    rw [h.stale l' (List.mem_of_mem_head? hl')] at hfresh
    cases hfresh
  rounds := by
    have hrounds := h.rounds
    simp only [List.flatMap_cons, List.length_append, List.length_cons] at hrounds
    omega

/-- A choice of the choice point on top has been tried, and no key was found. -/
theorem advance (h : Stands start ks (l :: rest) points tried n stack s)
    (hl : l.index < l.point.generator.total)
    (hprogress : Progress start s' points (tried ++ [⟨l.point, l.index⟩])
      (l.next.left ++ rest.flatMap Level.left)) :
    Stands start ks (l.next :: rest) points (tried ++ [⟨l.point, l.index⟩]) (n - 1)
      ((l.next :: rest).map Level.branch) s' where
  stack := rfl
  progress := hprogress
  expanded := List.forall_mem_cons.mpr
    ⟨h.expanded l List.mem_cons_self, fun l' hl' => h.expanded l' (List.mem_cons_of_mem _ hl')⟩
  stale := h.stale
  fresh l' hl' hfresh := by
    cases hl'
    cases hfresh
  rounds := by
    have hrounds := h.rounds
    simp only [List.flatMap_cons, Level.left_of_lt hl, List.length_append, List.length_cons]
      at hrounds ⊢
    omega

/-- A choice of the choice point on top has been tried, and the choice point that was found by that
comes to stand on top. -/
theorem push (hstart : start.Bounded ks) (h : Stands start ks (l :: rest) points tried n stack s)
    (hl : l.index < l.point.generator.total) (hnew : x.key ∉ points.map Point.key)
    (hmachine : s'.machine.Alike True { x.state with pending := none })
    (hprogress : Progress start s' (points ++ [x]) (tried ++ [⟨l.point, l.index⟩])
      (x.picks ++ (l.next.left ++ rest.flatMap Level.left))) :
    Stands start ks (⟨x, 0, true⟩ :: l.next :: rest) (points ++ [x])
      (tried ++ [⟨l.point, l.index⟩]) (n - 1)
      ((⟨x, 0, true⟩ :: l.next :: rest).map Level.branch) s' where
  stack := rfl
  progress := hprogress
  expanded := by
    refine List.forall_mem_cons.mpr ⟨by simp, List.forall_mem_cons.mpr ⟨?_, fun l' hl' => ?_⟩⟩
    · exact List.mem_append_left _ (h.expanded l List.mem_cons_self)
    · exact List.mem_append_left _ (h.expanded l' (List.mem_cons_of_mem _ hl'))
  stale := List.forall_mem_cons.mpr ⟨rfl, h.stale⟩
  fresh l' hl' _ := by
    cases hl'
    exact hmachine
  rounds := by
    obtain ⟨hreached, hpending⟩ := hprogress.reached x (by simp)
    have hdebt := debt_append (hstart.keys x.key ⟨_, _, hreached, hpending, rfl⟩) hnew
    have hrounds := h.rounds
    simp only [List.flatMap_cons, Level.left_of_lt hl, List.length_append, List.length_cons]
      at hrounds
    simp only [List.flatMap_cons, List.length_append, List.length_cons, Level.left, List.drop_zero,
      Point.length_picks] at hrounds ⊢
    omega

/-- A round comes closer to the end, or is the last one. -/
theorem round {levels : List Level} (hstart : start.Bounded ks)
    (h : Stands start ks levels points tried n stack s) :
    (∃ stack' s' n', round none stack s = .ok (.inl stack') s' ∧ n' < n ∧
        ∃ levels points tried, Stands start ks levels points tried n' stack' s') ∨
      ∃ r s', round none stack s = .ok (.inr r) s' ∧
        ∃ points tried, Progress start s' points tried [] := by
  have hdone : s.done = false := (h.progress.matching hstart.toMatching).done
  rw [h.stack]
  cases levels with
  | nil => exact .inr ⟨(), s, rfl, points, tried, h.progress⟩
  | cons l rest =>
    have hx := h.expanded l List.mem_cons_self
    have hn : n - 1 < n := by
      have hrounds := h.rounds
      rw [List.length_cons] at hrounds
      omega
    by_cases hl : l.index < l.point.generator.total
    · have hleft := h.progress
      rw [List.flatMap_cons, Level.left_of_lt hl, List.cons_append] at hleft
      -- the search goes to the choice point on top, if it is not there
      obtain ⟨hback, halike⟩ := backTo_branchAt (g := l.point.generator) (i := l.index)
        (h.progress.sameRun hstart.ready hx) (h.fresh l rfl)
      have hthere : Progress start (backTo s l.branch) points tried
          (⟨l.point, l.index⟩ :: (l.next.left ++ rest.flatMap Level.left)) := by
        rcases hback with hsame | hreturned
        · rw [show backTo s l.branch = s from hsame]
          exact hleft
        · exact hleft.returned hreturned
      obtain ⟨e, s₁, hforward, hstep⟩ :=
        hthere.step hstart.toMatching hstart.ready hstart.fails halike
      have hround := round_of_choice none (rest.map Level.branch) hdone hl hforward
      rcases hstep with ⟨ha, hprogress⟩ | ⟨x, ha, hmachine, hnew, hprogress⟩
      · rw [ha] at hround
        exact .inl ⟨_, _, n - 1, hround, hn, l.next :: rest, _, _, h.advance hl hprogress⟩
      · obtain ⟨hreached, hpending⟩ := hprogress.reached x (by simp)
        have hbranch : branch (s₁.arrive none).2 x.generator = (⟨x, 0, true⟩ : Level).branch :=
          branch_eq hmachine ((hstart.ready.reaches hreached).untried _ hpending)
        rw [ha, stackAfter, hbranch] at hround
        exact .inl ⟨_, _, n - 1, hround, hn, ⟨x, 0, true⟩ :: l.next :: rest, _, _,
          h.push hstart hl hnew hmachine hprogress⟩
    · obtain ⟨hreached, hpending⟩ := h.progress.reached _ hx
      have htotal := Nat.le_of_not_lt hl
      exact .inl ⟨_, s, n - 1, round_of_exhausted _ _ hdone htotal
        (hstart.fails.nonempty _ _ hreached hpending), hn, rest, points, tried, h.pop htotal⟩

end Stands

/-- **Depth-first search leaves nothing out.** -/
theorem exhausts {m : Machine} {config : SearchConfig} {listening : Bool} {g : Generator}
    (hstart : Bounded { machine := m, config, listening } ks) (hp : m.pending = some g)
    (hs : Told { machine := m, config, listening } s) :
    ∃ bound s', (∀ rounds, bound < rounds → search rounds s = .ok () s') ∧
      ∃ points tried, Progress { machine := m, config, listening } s' points tried [] := by
  obtain ⟨t, hbound, htaken, hmachine, hprogress⟩ := Progress.init hstart.toMatching hp hs
  have hstands : Stands { machine := m, config, listening } ks [⟨⟨m, g⟩, 0, true⟩] [⟨m, g⟩] []
      (g.total + 1 + debt ks [⟨m, g⟩]) [branch (t.visit g).2 g] (t.visit g).2 := {
    stack := by
      rw [branch_eq hmachine (hstart.ready.untried g hp)]
      rfl
    progress := by
      rw [List.flatMap_singleton]
      exact hprogress
    expanded := fun l hl => by
      rw [List.mem_singleton] at hl
      rw [hl]
      exact List.mem_singleton_self _
    stale := fun l hl => absurd hl List.not_mem_nil
    fresh := fun l hl _ => by
      cases hl
      exact hmachine
    rounds := by
      rw [List.flatMap_singleton]
      exact Nat.le_of_eq (by rw [Level.left, List.drop_zero, Point.length_picks]; rfl) }
  obtain ⟨_, s', hrun, hdone⟩ := Loop.run_of_decreasing SearchFault.budgetExhausted
    (I := fun n stack s => ∃ levels points tried,
      Stands { machine := m, config, listening } ks levels points tried n stack s)
    (Q := fun _ s' => ∃ points tried, Progress { machine := m, config, listening } s' points tried [])
    (fun n stack s ⟨levels, points, tried, h⟩ => h.round hstart) ⟨_, _, _, hstands⟩
  refine ⟨g.total + 1 + debt ks [⟨m, g⟩], s', fun rounds hrounds => ?_, hdone⟩
  unfold search
  rw [get_bind, get_bind, htaken, hbound]
  dsimp only
  rw [set_bind]
  exact hrun rounds hrounds

end DepthFirst

namespace BestFirst

variable {α : Type} {h : Heuristic α} {left : List Pick}

/-- A choice as an entry of the queue. -/
def pickEntry (k : Pick) : Entry := Queue.entry k.point.state k.point.generator k.index

/-- The entries that are made where the search is are those of the choice point there. -/
theorem map_entry_eq {x : Point} (hs : s.machine.Alike True { x.state with pending := none }) :
    (List.range x.generator.total).map (Queue.entry s.machine x.generator) =
      x.picks.map pickEntry := by
  simp only [Point.picks, List.map_map]
  refine List.map_congr_left fun i _ => ?_
  unfold Function.comp pickEntry Queue.entry
  rw [hs.snapshot]
  rfl

/-- The queue holds the choices that are left, and no more than `n` rounds are missing. -/
structure Holds (start : Search) (ks : Finset StateKey) (points : List Point)
    (tried left : List Pick) (n : Nat) (q : Queue α) (s : Search) : Prop where
  progress : Progress start s points tried left
  /-- There is an entry for each choice that is left. -/
  entries : q.list.Perm (left.map pickEntry)
  /-- The entries have been numbered. -/
  numbered : q.Numbered
  /-- Before the first round the search is in front of all these choices. -/
  atRoot : q.atRoot = true →
    ∀ k ∈ left, s.machine.Alike True { k.point.state with pending := none }
  /-- A round for each choice that is left, and those of keys to be found. -/
  rounds : left.length + debt ks points ≤ n

/-- A round comes closer to the end, or is the last one. -/
theorem Holds.round {n : Nat} {q : Queue α} (hstart : start.Bounded ks)
    (hq : Holds start ks points tried left n q s) :
    (∃ q' s' n', round h none q s = .ok (.inl q') s' ∧ n' < n ∧
        ∃ points tried left, Holds start ks points tried left n' q' s') ∨
      ∃ r s', round h none q s = .ok (.inr r) s' ∧
        ∃ points tried, Progress start s' points tried [] := by
  have hdone : s.done = false := (hq.progress.matching hstart.toMatching).done
  have hrounds := hq.rounds
  cases hmin : q.entries.minEntry? with
  | none =>
    have hleft : left = [] := by
      have hperm := hq.entries
      rw [Queue.list_eq_nil hmin] at hperm
      exact List.map_eq_nil_iff.mp hperm.symm.eq_nil
    exact .inr ⟨(), s, round_of_none hmin, points, tried, hleft ▸ hq.progress⟩
  | some r =>
    obtain ⟨rank, e⟩ := r
    have hqueue := Queue.list_perm_of_minEntry? hmin false
    -- the entry is one of the choices that are left
    obtain ⟨k, left', hperm, rfl, hentries⟩ : ∃ k left', left.Perm (k :: left') ∧
        pickEntry k = e ∧
        (Queue.list { q with entries := q.entries.erase rank, atRoot := false }).Perm
          (left'.map pickEntry) := by
      have hmem : e ∈ left.map pickEntry :=
        (hqueue.symm.trans hq.entries).mem_iff.mp List.mem_cons_self
      obtain ⟨k, hk, rfl⟩ := List.mem_map.mp hmem
      obtain ⟨before, after, rfl⟩ := List.append_of_mem hk
      refine ⟨k, before ++ after, List.perm_middle, rfl, ?_⟩
      have hall := (hqueue.symm.trans hq.entries).trans (List.perm_middle.map pickEntry)
      exact hall.cons_inv
    have hk : k ∈ left := hperm.mem_iff.mpr List.mem_cons_self
    have hprogress := hq.progress.perm hperm.symm
    have hlength := hperm.length_eq
    rw [List.length_cons] at hlength
    have hthere : Progress start (jumpTo s q.atRoot (pickEntry k)) points tried (k :: left') ∧
        (jumpTo s q.atRoot (pickEntry k)).machine.Alike True
          { k.point.state with pending := none } := by
      cases hroot : q.atRoot with
      | true => exact ⟨hprogress, hq.atRoot hroot k hk⟩
      | false =>
        have hreturned := Returned.restore s (pickEntry k).snapshot
        refine ⟨hprogress.returned hreturned, ?_⟩
        rw [show jumpTo s false (pickEntry k) = s.restore (pickEntry k).snapshot from rfl,
          hreturned.machine]
        exact (hprogress.sameRun hstart.ready
          (hprogress.point_of_left List.mem_cons_self).1).restore
    obtain ⟨e, s₁, hforward, hstep⟩ :=
      hthere.1.step hstart.toMatching hstart.ready hstart.fails hthere.2
    have hround := round_of_some h none hdone hmin hforward
    rcases hstep with ⟨ha, hprogress'⟩ | ⟨x, ha, hmachine, hnew, hprogress'⟩
    · rw [ha] at hround
      exact .inl ⟨_, _, n - 1, hround, by omega, points, tried ++ [k], left', hprogress', hentries,
        hq.numbered.erase rank false, fun hroot => (by cases hroot), by omega⟩
    · have hx := hprogress'.reached x (by simp)
      have hdebt := debt_append (hstart.keys x.key ⟨_, _, hx.1, hx.2, rfl⟩) hnew
      obtain ⟨q', hexpand, hlist, hnumbered, hroot⟩ := Queue.expand_eq (h := h)
        (s := (s₁.arrive none).2) (hq.numbered.erase rank false)
        (hstart.fails.nonempty _ _ hx.1 hx.2)
      rw [ha, queueAfter_opened hexpand] at hround
      refine .inl ⟨q', _, n - 1, hround, by omega, points ++ [x], tried ++ [k],
        x.picks ++ left', hprogress', ?_, hnumbered, fun h => ?_, ?_⟩
      · rw [List.map_append, ← map_entry_eq hmachine]
        exact hlist.trans (hentries.append_left _)
      · rw [hroot] at h
        cases h
      · rw [List.length_append, Point.length_picks]
        omega

/-- **Best-first search leaves nothing out**, whatever its heuristic. -/
theorem exhausts {m : Machine} {config : SearchConfig} {listening : Bool} {g : Generator}
    (h : Heuristic α) (hstart : Bounded { machine := m, config, listening } ks)
    (hp : m.pending = some g) (hs : Told { machine := m, config, listening } s) :
    ∃ bound s', (∀ rounds, bound < rounds → search h rounds s = .ok () s') ∧
      ∃ points tried, Progress { machine := m, config, listening } s' points tried [] := by
  obtain ⟨t, hbound, htaken, hmachine, hprogress⟩ := Progress.init hstart.toMatching hp hs
  obtain ⟨q, hexpand, hlist, hnumbered, -⟩ := Queue.expand_eq (h := h) (s := (t.visit g).2) (g := g)
    (Queue.numbered_start h.start) (hstart.fails.nonempty m g .refl hp)
  have hholds : Holds { machine := m, config, listening } ks [⟨m, g⟩] [] (Point.picks ⟨m, g⟩)
      (g.total + debt ks [⟨m, g⟩]) q (t.visit g).2 := {
    progress := hprogress
    entries := by
      rw [← map_entry_eq (x := ⟨m, g⟩) hmachine]
      refine hlist.trans ?_
      rw [Queue.list_start, List.append_nil]
    numbered := hnumbered
    atRoot := fun _ k hk => by
      obtain ⟨hpoint, -⟩ := Point.mem_picks.mp hk
      rw [hpoint]
      exact hmachine
    rounds := Nat.le_of_eq (by rw [Point.length_picks]) }
  obtain ⟨_, s', hrun, hdone⟩ := Loop.run_of_decreasing SearchFault.budgetExhausted
    (I := fun n q s => ∃ points tried left,
      Holds { machine := m, config, listening } ks points tried left n q s)
    (Q := fun _ s' => ∃ points tried, Progress { machine := m, config, listening } s' points tried [])
    (fun n q s ⟨points, tried, left, hq⟩ => hq.round hstart) ⟨_, _, _, hholds⟩
  refine ⟨g.total + debt ks [⟨m, g⟩], s', fun rounds hrounds => ?_, hdone⟩
  unfold search
  rw [get_bind, get_bind, htaken, hbound]
  dsimp only
  rw [set_bind, bind_of_ok hexpand]
  exact hrun rounds hrounds

end BestFirst

end Search

end Interleave

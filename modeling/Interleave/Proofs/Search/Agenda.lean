import Interleave.Proofs.Search.Exhaustion
import Interleave.Proofs.Search.Preorder

/-!
# The agenda of a best-first search

What a best-first search does without state matching can be told without its queue and without the
states that it stores. An agenda lists the choices that are open, each at its rank. The one with the
lowest rank is tried; unless the path ends behind it, the choices there join the agenda, at the
priorities that the heuristic gives them and numbered in the order in which they join.

`Front.goes_on` says that a round of the search is such a step, and `Front.stops` what a round does
that finds something wrong and ends the search.
-/

namespace Interleave.Search.BestFirst

open Effect Std

/-- One entry comes before another: its priority is lower, or it is the same and was queued first. -/
def Rank.Before (r r' : Rank) : Prop := r.1 < r'.1 ∨ r.1 = r'.1 ∧ r.2 < r'.2

theorem Rank.before_of_order {r r' : Rank} (h : Rank.order r r' = .lt) : r.Before r' := by
  simp only [Rank.order, compareLex, compareOn, Ordering.then_eq_lt] at h
  rcases h with hpriority | ⟨hpriority, hnumber⟩
  · exact .inl (Int.compare_eq_lt.mp hpriority)
  · exact .inr ⟨LawfulEqOrd.eq_of_compare hpriority, Nat.compare_eq_lt.mp hnumber⟩

/-- A choice that is yet to be tried, and its place. -/
structure Open where
  rank : Rank
  pick : Pick

/-- What is yet to be done. -/
structure Agenda (α : Type) where
  /-- What the heuristic remembers. -/
  memory : α
  /-- How many choices have joined so far. -/
  count : Nat
  entries : List Open

/-- A choice that has been tried, and the state that it led to. -/
structure Trial where
  entry : Open
  vertex : Vertex

/-- The choices of a choice point from a position on are given their ranks, and the heuristic
remembers something. It sees a machine in the state of the choice point. -/
inductive Queues {α : Type} (h : Heuristic α) (seen : Machine) (x : Point) :
    Nat → Nat → α → List Open → α → Prop where
  | done {i n : Nat} {a : α} (last : x.generator.total ≤ i) : Queues h seen x i n a [] a
  | next {i n : Nat} {a b : α} {c : Choice} {g : Generator} {os : List Open}
    (more : i < x.generator.total) (choice : x.generator.select i = (some c, g))
    (rest : Queues h seen x (i + 1) (n + 1) (h.priority a seen g c).2 os b) :
    Queues h seen x i n a (⟨((h.priority a seen g c).1, n), ⟨x, i⟩⟩ :: os) b

/-- The choice point of a choice is reached from a machine, and the choice is one of those there. -/
structure Reached (m : Machine) (k : Pick) : Prop where
  state : m.Reaches k.point.state
  pending : k.point.state.pending = some k.point.generator
  index : k.index < k.point.generator.total

namespace Agenda

variable {α : Type}

/-- An entry comes before all others. -/
structure First (A : Agenda α) (o : Open) (left : List Open) : Prop where
  entries : A.entries.Perm (o :: left)
  least : ∀ o' ∈ left, o.rank.Before o'.rank

/-- The first entry is tried. -/
inductive Step (h : Heuristic α) (bound : Option Nat) (A : Agenda α) : Trial → Agenda α → Prop where
  /-- The path ends: nothing is pending, or the path is as long as it may be. -/
  | closed {o : Open} {left : List Open} {e : TransitionEnd} {n : Machine} (first : A.First o left)
    (transition : o.pick.point.state.transition
      (o.pick.point.generator.select o.pick.index).2 = .ok e n)
    (ends : bound.any (· ≤ n.depth) = true ∨ n.pending = none) :
    Step h bound A ⟨o, ⟨e, n, false⟩⟩ { A with entries := left }
  /-- The choices there join the agenda. -/
  | opened {o : Open} {left os : List Open} {e : TransitionEnd} {n seen : Machine} {g : Generator}
    {b : α} (first : A.First o left)
    (transition : o.pick.point.state.transition
      (o.pick.point.generator.select o.pick.index).2 = .ok e n)
    (within : bound.any (· ≤ n.depth) = false) (pending : n.pending = some g)
    (seen_alike : seen.Alike True { n with pending := none })
    (queues : Queues h seen ⟨n, g⟩ 0 A.count A.memory os b) :
    Step h bound A ⟨o, ⟨e, n, true⟩⟩ ⟨b, A.count + os.length, os ++ left⟩

/-- One entry after the other is tried. -/
inductive Runs (h : Heuristic α) (bound : Option Nat) (A : Agenda α) :
    List Trial → Agenda α → Prop where
  | refl : Runs h bound A [] A
  | tail {ts : List Trial} {t : Trial} {B C : Agenda α} (run : Runs h bound A ts B)
    (step : B.Step h bound t C) : Runs h bound A (ts ++ [t]) C

/-- The agenda of a search that begins in the state of a machine. -/
inductive Begins (h : Heuristic α) (m : Machine) : Agenda α → Prop where
  /-- There is nothing to choose. -/
  | idle (pending : m.pending = none) : Begins h m ⟨h.start, 0, []⟩
  | root {seen : Machine} {g : Generator} {os : List Open} {b : α} (pending : m.pending = some g)
    (seen_alike : seen.Alike True { m with pending := none })
    (queues : Queues h seen ⟨m, g⟩ 0 0 h.start os b) : Begins h m ⟨b, os.length, os⟩

/-- Beginning with the choices in the state of a machine, these are tried, and then none is left. -/
def Exhausts (h : Heuristic α) (bound : Option Nat) (m : Machine) (ts : List Trial) : Prop :=
  ∃ A B : Agenda α, A.Begins h m ∧ A.Runs h bound ts B ∧ B.entries = []

end Agenda

variable {α : Type} {h : Heuristic α} {bound : Option Nat} {m n seen : Machine} {x : Point}
  {A A' : Agenda α} {q : Queue α} {s : Search} {o : Open} {left : List Open} {e : TransitionEnd}

/-! ## What is on an agenda -/

/-- Each choice joins once. -/
theorem Queues.map_pick {i k : Nat} {a b : α} {os : List Open} (hq : Queues h seen x i k a os b) :
    os.map Open.pick = x.picks.drop i := by
  induction hq with
  | done last => exact (List.drop_eq_nil_of_le (by simpa using last)).symm
  | @next i n a b c g os more choice rest ih =>
    rw [Point.drop_picks more, List.map_cons, ih]

theorem Queues.map_pick_all {k : Nat} {a b : α} {os : List Open}
    (hq : Queues h seen x 0 k a os b) : os.map Open.pick = x.picks := by
  rw [hq.map_pick, List.drop_zero]

/-- The choices of a choice point that is reached are reached. -/
theorem Queues.reached {k : Nat} {a b : α} {os : List Open} (hq : Queues h seen x 0 k a os b)
    (hstate : m.Reaches x.state) (hpending : x.state.pending = some x.generator) :
    ∀ o ∈ os, Reached m o.pick := by
  intro o ho
  have hmem : o.pick ∈ x.picks := hq.map_pick_all ▸ List.mem_map_of_mem ho
  obtain ⟨rfl, hi⟩ := Point.mem_picks.mp hmem
  exact ⟨hstate, hpending, hi⟩

namespace Agenda

theorem First.mem (hfirst : A.First o left) : o ∈ A.entries :=
  hfirst.entries.mem_iff.mpr List.mem_cons_self

theorem First.mem_of_left (hfirst : A.First o left) {o' : Open} (ho : o' ∈ left) :
    o' ∈ A.entries :=
  hfirst.entries.mem_iff.mpr (List.mem_cons_of_mem _ ho)

/-- A step leads on from a choice of the agenda. -/
theorem Step.reaches {t : Trial} (hstep : A.Step h bound t A')
    (hA : ∀ o ∈ A.entries, Reached m o.pick) : m.Reaches t.vertex.state := by
  cases hstep with
  | closed first transition ends =>
    have ho := hA _ first.mem
    exact ho.state.tail ⟨ho.pending, ho.index, transition⟩
  | opened first transition within pending seen_alike queues =>
    have ho := hA _ first.mem
    exact ho.state.tail ⟨ho.pending, ho.index, transition⟩

theorem Step.reached {t : Trial} (hstep : A.Step h bound t A')
    (hA : ∀ o ∈ A.entries, Reached m o.pick) : ∀ o ∈ A'.entries, Reached m o.pick := by
  have hstate := hstep.reaches hA
  cases hstep with
  | closed first => exact fun o ho => hA o (first.mem_of_left ho)
  | opened first transition within pending seen_alike queues =>
    intro o ho
    rcases List.mem_append.mp ho with ho | ho
    · exact queues.reached hstate pending o ho
    · exact hA o (first.mem_of_left ho)

theorem Begins.reached (hbegins : Begins h m A) : ∀ o ∈ A.entries, Reached m o.pick := by
  cases hbegins with
  | idle pending => exact fun o ho => absurd ho List.not_mem_nil
  | root pending seen_alike queues => exact queues.reached .refl pending

theorem Runs.reached {ts : List Trial} (hruns : A.Runs h bound ts A')
    (hA : ∀ o ∈ A.entries, Reached m o.pick) : ∀ o ∈ A'.entries, Reached m o.pick := by
  induction hruns with
  | refl => exact hA
  | tail run step ih => exact step.reached ih

end Agenda

/-! ## The queue holds what is on the agenda -/

/-- An entry of the agenda as one of the queue. -/
def Open.queued (o : Open) : Rank × Entry := (o.rank, pickEntry o.pick)

/-- A queue holds what is on an agenda. -/
structure Lists (A : Agenda α) (q : Queue α) : Prop where
  entries : q.entries.toList.Perm (A.entries.map Open.queued)
  count : q.count = A.count
  memory : q.memory = A.memory
  numbered : q.Numbered

/-- A choice joins the agenda. -/
theorem Lists.add {i : Nat} (hq : Lists A q) (hs : s.machine.Alike True { x.state with pending := none })
    (hi : i < x.generator.total) : ∃ c g, x.generator.select i = (some c, g) ∧
      Lists ⟨(h.priority A.memory s.machine g c).2, A.count + 1,
        ⟨((h.priority A.memory s.machine g c).1, A.count), ⟨x, i⟩⟩ :: A.entries⟩
        (q.add h s x.generator i) := by
  obtain ⟨c, hc⟩ := Queue.exists_select hi
  have hadd := Queue.toList_add (h := h) (s := s) hq.numbered hc
  have hentry : Queue.entry s.machine x.generator i = pickEntry ⟨x, i⟩ := by
    unfold pickEntry Queue.entry
    rw [hs.snapshot]
    rfl
  rw [hentry, hq.memory, hq.count] at hadd
  refine ⟨c, _, hc, hadd.trans (hq.entries.cons _), ?_, ?_, hq.numbered.add hi⟩
  · unfold Queue.add
    rw [hc]
    exact congrArg (· + 1) hq.count
  · unfold Queue.add
    rw [hc]
    exact congrArg (fun a => (h.priority a s.machine _ c).2) hq.memory

/-- The choices of a choice point join the agenda when the search has come there. -/
theorem Lists.expand (hq : Lists A q) (hs : s.machine.Alike True { x.state with pending := none })
    (hpos : 0 < x.generator.total) : ∃ q' os b, q.expand h x.generator s = .ok q' s ∧
      Queues h s.machine x 0 A.count A.memory os b ∧
      Lists ⟨b, A.count + os.length, os ++ A.entries⟩ q' ∧ q'.atRoot = q.atRoot := by
  -- from a position on, by induction on how many choices are left
  have hfrom : ∀ k i (A : Agenda α) (q : Queue α), i + k = x.generator.total → Lists A q →
      ∃ os b, Queues h s.machine x i A.count A.memory os b ∧
        Lists ⟨b, A.count + os.length, os ++ A.entries⟩
          ((List.range' i k).foldl (Queue.add h s x.generator) q) ∧
        ((List.range' i k).foldl (Queue.add h s x.generator) q).atRoot = q.atRoot := by
    intro k
    induction k with
    | zero =>
      intro i A q hi hq
      exact ⟨[], A.memory, .done (by omega), hq, rfl⟩
    | succ k ih =>
      intro i A q hi hq
      have hmore : i < x.generator.total := by omega
      obtain ⟨c, g, hc, hadd⟩ := hq.add (h := h) hs hmore
      obtain ⟨os, b, hqueues, hlists, hroot⟩ := ih (i + 1) _ _ (by omega) hadd
      refine ⟨_ :: os, b, .next hmore hc hqueues, ?_, hroot.trans Queue.atRoot_add⟩
      refine ⟨hlists.entries.trans ?_, ?_, hlists.memory, hlists.numbered⟩
      · exact (List.perm_middle).map Open.queued
      · rw [List.range'_succ, List.foldl_cons, hlists.count, List.length_cons]
        exact Nat.add_right_comm _ _ _
  obtain ⟨os, b, hqueues, hlists, hroot⟩ := hfrom x.generator.total 0 A q (Nat.zero_add _) hq
  rw [← List.range_eq_range'] at hlists hroot
  refine ⟨_, os, b, ?_, hqueues, hlists, hroot⟩
  unfold Queue.expand
  rw [if_neg (Nat.ne_of_gt hpos)]
  rfl

/-- The entry that the queue hands out is the first one on the agenda. -/
theorem Lists.exists_first (hq : Lists A q) (hA : A.entries ≠ []) : ∃ o left, A.First o left ∧
    q.entries.minEntry? = some (o.rank, pickEntry o.pick) ∧
    Lists { A with entries := left }
      { q with entries := q.entries.erase o.rank, atRoot := false } := by
  cases hlist : q.entries.toList with
  | nil =>
    have hentries := hq.entries
    rw [hlist] at hentries
    exact absurd (List.map_eq_nil_iff.mp hentries.symm.eq_nil) hA
  | cons r rest =>
    have hentries := hq.entries
    rw [hlist] at hentries
    obtain ⟨o, ho, rfl⟩ := List.mem_map.mp (hentries.mem_iff.mp List.mem_cons_self)
    obtain ⟨before, after, hsplit⟩ := List.append_of_mem ho
    have hperm : A.entries.Perm (o :: (before ++ after)) := hsplit ▸ List.perm_middle
    have hrest : rest.Perm ((before ++ after).map Open.queued) :=
      (hentries.trans (hperm.map Open.queued)).cons_inv
    refine ⟨o, before ++ after, ⟨hperm, fun o' ho' => ?_⟩, ?_, ?_, hq.count, hq.memory,
      hq.numbered.erase o.rank false⟩
    · have hmem : o'.queued ∈ rest := hrest.mem_iff.mpr (List.mem_map_of_mem ho')
      have hordered := TreeMap.ordered_keys_toList (t := q.entries)
      rw [hlist, List.pairwise_cons] at hordered
      exact Rank.before_of_order (hordered.1 _ hmem)
    · rw [minEntry?_eq_head?, hlist]
      rfl
    · exact (toList_erase_perm hlist).trans hrest

/-! ## Rounds -/

/-- The loop of a search that began in the state of the machine `m` carries an agenda. -/
structure Carries (m : Machine) (A : Agenda α) (q : Queue α) (s : Search) : Prop where
  lists : Lists A q
  reached : ∀ o ∈ A.entries, Reached m o.pick
  run : Machine.SameRun m s.machine
  /-- Before the first round the search is in front of all these choices. -/
  atRoot : q.atRoot = true →
    ∀ o ∈ A.entries, s.machine.Alike True { o.pick.point.state with pending := none }

/-- An entry is the first one on the agenda, and the search goes to the state in front of it. -/
structure Front (A : Agenda α) (q : Queue α) (s : Search) (o : Open) (left : List Open) : Prop where
  first : A.First o left
  min : q.entries.minEntry? = some (o.rank, pickEntry o.pick)
  rest : Lists { A with entries := left }
    { q with entries := q.entries.erase o.rank, atRoot := false }
  back : Explored s (jumpTo s q.atRoot (pickEntry o.pick)) []
  advanced : (jumpTo s q.atRoot (pickEntry o.pick)).advanced = s.advanced
  there : (jumpTo s q.atRoot (pickEntry o.pick)).machine.Alike True
    { o.pick.point.state with pending := none }

theorem Carries.exists_front (hm : m.IsReady) (hA : Carries m A q s) (hne : A.entries ≠ []) :
    ∃ o left, Front A q s o left := by
  obtain ⟨o, left, hfirst, hmin, hrest⟩ := hA.lists.exists_first hne
  cases hroot : q.atRoot with
  | true =>
    have hjump : jumpTo s q.atRoot (pickEntry o.pick) = s := by rw [hroot]; rfl
    refine ⟨o, left, hfirst, hmin, hrest, ?_, by rw [hjump], ?_⟩
    · rw [hjump]
      exact .refl s
    · rw [hjump]
      exact hA.atRoot hroot o hfirst.mem
  | false =>
    have hjump : jumpTo s q.atRoot (pickEntry o.pick) = s.restore (pickEntry o.pick).snapshot := by
      rw [hroot]
      rfl
    have hreturned := Returned.restore s (pickEntry o.pick).snapshot
    refine ⟨o, left, hfirst, hmin, hrest, ?_, by rw [hjump, hreturned.advanced], ?_⟩
    · rw [hjump]
      exact .of_returned hreturned
    · have hsame : Machine.SameRun o.pick.point.state s.machine :=
        IsTrans.trans _ _ _
          (Machine.SameRun.of_reaches hm (hA.reached o hfirst.mem).state).symm hA.run
      rw [hjump, hreturned.machine]
      exact hsame.restore

theorem round_of_nil (hA : Carries m A q s) (hnil : A.entries = []) :
    round h bound q s = .ok (.inr ()) s := by
  refine round_of_none ?_
  have hentries := hA.lists.entries
  rw [hnil] at hentries
  rw [minEntry?_eq_head?, hentries.eq_nil]
  rfl

namespace Front

/-- **A round is a step.** The search goes on unless something is wrong and it stops at that. -/
theorem goes_on (hm : m.IsReady) (hA : Carries m A q s) (hs : s.Watchful)
    (hmatching : s.config.stateMatching = false) (hfront : Front A q s o left)
    (htransition : o.pick.point.state.transition
      (o.pick.point.generator.select o.pick.index).2 = .ok e n)
    (hpos : bound.any (· ≤ n.depth) = false → ∀ g, n.pending = some g → 0 < g.total)
    (hgo : s.config.stopOnFirstError = true → n.failures = []) :
    ∃ expanded A' q' s', round h bound q s = .ok (.inl q') s' ∧
      A.Step h bound ⟨o, ⟨e, n, expanded⟩⟩ A' ∧ Carries m A' q' s' ∧
      Explored s s' [⟨e, n, expanded⟩] := by
  have hthere := hs.of_sameTask hfront.back.task (hfront.back.checked hs.checked)
  obtain ⟨k, s₁, hforward, hk, hmoved, hfailures, hnew⟩ :=
    forward_agree hthere hfront.there htransition
  have htask : SameTask s s₁ := IsTrans.trans _ _ _ hfront.back.task hmoved.task
  have harrived := arrive_eq bound (htask.done.trans hs.done)
    (fun hstop => by rw [hfailures, hgo (htask.config ▸ hstop)]) hnew
  have hround := round_of_some h bound hs.done hfront.min hforward
  have ho := hA.reached o hfront.first.mem
  have hn : m.Reaches n := ho.state.tail ⟨ho.pending, ho.index, htransition⟩
  have hrun : Machine.SameRun (jumpTo s q.atRoot (pickEntry o.pick)).machine k :=
    IsTrans.trans _ _ _ (IsTrans.trans _ _ _ hA.run hfront.back.run).symm
      (IsTrans.trans _ _ _ (Machine.SameRun.of_reaches hm hn) hk.sameRun)
  rcases Explored.of_step (hfront.back.task.config ▸ hmatching) hrun hk hmoved hfailures harrived with
    ⟨ha, hends, hvertex⟩ | ⟨g, ha, hwithin, hp, halike, hvertex⟩
  · rw [ha] at hround
    have hexplored := hfront.back.trans hvertex
    have hstep : A.Step h bound ⟨o, ⟨e, n, false⟩⟩ { A with entries := left } :=
      .closed hfront.first htransition hends
    refine ⟨false, _, _, _, hround, hstep, ⟨hfront.rest, hstep.reached hA.reached, ?_, nofun⟩,
      hexplored⟩
    exact IsTrans.trans _ _ _ hA.run hexplored.run
  · have hexplored := hfront.back.trans hvertex
    obtain ⟨q', os, b, hexpand, hqueues, hlists, hroot⟩ :=
      hfront.rest.expand (h := h) (x := ⟨n, g⟩) halike (hpos hwithin g hp)
    rw [ha, queueAfter_opened hexpand] at hround
    have hstep : A.Step h bound ⟨o, ⟨e, n, true⟩⟩ ⟨b, A.count + os.length, os ++ left⟩ :=
      .opened hfront.first htransition hwithin hp halike hqueues
    refine ⟨true, _, q', _, hround, hstep, ⟨hlists, hstep.reached hA.reached, ?_, fun hq' => ?_⟩,
      hexplored⟩
    · exact IsTrans.trans _ _ _ hA.run hexplored.run
    · rw [hroot] at hq'
      cases hq'

/-- A round that ends the search because something is wrong in the state `n`. -/
structure Ended (s : Search) (n : Machine) (s' : Search) : Prop where
  violations : s'.violations.toList = s.violations.toList ++ n.failures
  transitions : s'.stats.transitions = s.stats.transitions + 1
  listening : s'.listening = s.listening
  advanced : ∃ k, k.Alike True n ∧
    s'.advanced = s.advanced ++ if s.listening = true then [k] else []

theorem stops (bound : Option Nat) (hs : s.Watchful) (hfront : Front A q s o left)
    (htransition : o.pick.point.state.transition
      (o.pick.point.generator.select o.pick.index).2 = .ok e n)
    (hstop : s.config.stopOnFirstError = true) (hfails : n.failures ≠ []) :
    ∃ s', round h bound q s = .ok (.inr ()) s' ∧ Ended s n s' := by
  have hthere := hs.of_sameTask hfront.back.task (hfront.back.checked hs.checked)
  obtain ⟨k, s₁, hforward, hk, hmoved, hfailures, hnew⟩ :=
    forward_agree hthere hfront.there htransition
  have htask : SameTask s s₁ := IsTrans.trans _ _ _ hfront.back.task hmoved.task
  have hround := round_of_some h bound hs.done hfront.min hforward
  obtain ⟨ha, hhalted⟩ := arrive_stops bound (by rw [htask.config, hstop]) (hfailures ▸ hfails) hnew
  rw [ha] at hround
  refine ⟨_, hround, ?_, ?_, hhalted.listening.trans htask.listening, k, hk, ?_⟩
  · rw [hhalted.violations, hmoved.violations, hfront.back.violations, hfailures]
    simp
  · rw [hhalted.transitions, hmoved.stats, hfront.back.transitions]
    rfl
  · rw [hhalted.advanced, hmoved.advanced, hfront.advanced, hfront.back.task.listening]

end Front

/-! ## The beginning -/

variable {config : SearchConfig} {listening : Bool}

theorem search_of_none (h : Heuristic α) (rounds : Nat) (hp : m.pending = none)
    (hs : Told { machine := m, config, listening } s) :
    search h rounds s = .ok () s.finishWithoutChoice := by
  unfold search
  rw [get_bind, get_bind, takeChoicePoint_of_none (hs.machine ▸ hp)]
  rfl

/-- A search that begins at a choice point carries the agenda that lists its choices. -/
theorem search_of_some {g : Generator} (h : Heuristic α) (hmatching : config.stateMatching = false)
    (hp : m.pending = some g) (hpos : 0 < g.total)
    (hs : Told { machine := m, config, listening } s) :
    ∃ A q s₀, A.Begins h m ∧ Rooted m config listening s₀ ∧ Carries m A q s₀ ∧ ∀ rounds,
      search h rounds s = Loop.run (round h (depthBound { machine := m, config }))
        .budgetExhausted rounds q s₀ := by
  obtain ⟨t, htaken, hrooted⟩ := exists_rooted hmatching hp hs
  have halike : (t.visit g).2.machine.Alike True { m with pending := none } := by
    rw [hrooted.machine]
    exact .refl _
  have hempty : Lists ⟨h.start, 0, []⟩ ({ memory := h.start } : Queue α) :=
    ⟨.refl _, rfl, rfl, Queue.numbered_start _⟩
  obtain ⟨q, os, b, hexpand, hqueues, hlists, -⟩ :=
    hempty.expand (h := h) (x := ⟨m, g⟩) halike hpos
  have hbegins : Agenda.Begins h m ⟨b, os.length, os⟩ := .root hp halike hqueues
  refine ⟨⟨b, os.length, os⟩, q, _, hbegins, hrooted, ⟨?_, hbegins.reached, ?_, fun _ o ho => ?_⟩,
    fun rounds => ?_⟩
  · simpa using hlists
  · rw [hrooted.machine]
    exact ⟨rfl, rfl, rfl⟩
  · have hmem : o.pick ∈ Point.picks ⟨m, g⟩ := hqueues.map_pick_all ▸ List.mem_map_of_mem ho
    rw [(Point.mem_picks.mp hmem).1]
    exact halike
  · have hbound : s.depthBound = depthBound { machine := m, config } := by
      unfold depthBound Search.depth
      rw [hs.machine, hs.task.config]
    unfold search
    rw [get_bind, get_bind, htaken, hbound]
    dsimp only
    rw [set_bind, bind_of_ok hexpand]

end Interleave.Search.BestFirst

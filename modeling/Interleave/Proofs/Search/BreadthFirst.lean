import Interleave.Proofs.Search.AnyOrder

/-!
# Breadth-first search finds a shortest path to a violation

If shorter paths come first, the paths of a search never get shorter: an entry that is tried is as
short as all others on the agenda, and the choices behind it are longer by one. So when something is
wrong behind a choice, there is nothing wrong on any shorter path that the search may take.

Where paths are endless, the search still comes to the first violation: up to its length there are
only finitely many choices, and `Pick.weight` counts them.
-/

namespace Interleave

open Effect

namespace Machine

variable {m n : Machine}

/-- Where choices lead, paths are longer. -/
theorem depth_of_reaches (hm : m.IsReady) (h : m.Reaches n) : n = m ∨ m.depth < n.depth := by
  induction h with
  | refl => exact .inl rfl
  | tail hreached hlast ih =>
    obtain ⟨-, -, htransition⟩ := hlast
    have hdepth := Search.DepthFirst.depth_of_transition (hm.reaches hreached) htransition
    rcases ih with rfl | hlt
    · exact .inr (by omega)
    · exact .inr (by omega)

/-- A violation has the path of the state in which it was found. -/
theorem depth_of_mem_failures {n : Machine} {v : Violation} (hv : v ∈ n.failures) :
    v.depth = n.depth := by
  unfold failures at hv
  obtain ⟨p, -, hp⟩ := List.mem_filterMap.mp hv
  obtain ⟨message, -, rfl⟩ := Option.map_eq_some_iff.mp hp
  rfl

end Machine

namespace Search

/-- Something is wrong in a state that a search looks at: one that choices lead to, on a path that is
not too long, or the state that it begins in if there is nothing to choose. -/
structure Failing (m : Machine) (config : SearchConfig) (n : Machine) : Prop where
  reached : m.Reaches n
  within : limitFrom config m = 0 ∨ n.depth ≤ m.depth + limitFrom config m
  chosen : m.pending.isSome = true → m.depth < n.depth
  wrong : n.failures ≠ []

/-- How many choices there are on paths that begin with a choice and are no longer than so many
choices. -/
def Pick.weight : Nat → Pick → Nat
  | 0, _ => 0
  | d + 1, k => 1 + match k.target.pending with
    | none => 0
    | some g => sumOf ((Point.picks ⟨k.target, g⟩).map (Pick.weight d))

theorem Pick.weight_pos (d : Nat) (k : Pick) : 0 < k.weight (d + 1) :=
  Nat.lt_of_lt_of_le Nat.zero_lt_one (Nat.le_add_right _ _)

theorem Pick.weight_succ {k : Pick} {g : Generator} (d : Nat) (h : k.target.pending = some g) :
    k.weight (d + 1) = 1 + sumOf ((Point.picks ⟨k.target, g⟩).map (Pick.weight d)) := by
  show 1 + _ = _
  rw [h]

namespace BestFirst

variable {m n : Machine} {k : Pick} {e : TransitionEnd}

/-- Every choice that is reached leads somewhere. -/
theorem Reached.exists_transition (hfails : m.NeverFails) (hk : Reached m k) :
    ∃ e, k.point.state.transition (k.point.generator.select k.index).2 = .ok e k.target := by
  obtain ⟨e, n, hn⟩ := hfails.runs _ _ _ hk.state hk.pending hk.index
  exact ⟨e, by rw [Pick.target_eq hn, hn]⟩

theorem Reached.depth (hm : m.IsReady) (hk : Reached m k)
    (htransition : k.point.state.transition (k.point.generator.select k.index).2 = .ok e n) :
    n.depth = k.point.state.depth + 1 :=
  DepthFirst.depth_of_transition (hm.reaches hk.state) htransition

theorem Reached.depth_le (hm : m.IsReady) (hk : Reached m k) :
    m.depth ≤ k.point.state.depth := by
  rcases Machine.depth_of_reaches hm hk.state with he | hlt
  · rw [he]
  · exact Nat.le_of_lt hlt

/-! ## Levels -/

/-- The length of the path in front of an entry. -/
def Open.depth (o : Open) : Nat := o.pick.point.state.depth

variable {bound : Option Nat} {limit : Nat} {A A' : Agenda Unit} {t : Trial} {ts : List Trial}

theorem Queues.rank {seen : Machine} {x : Point} {i k : Nat} {os : List Open} {a b : Unit}
    (hq : Queues .breadthFirst seen x i k a os b) : ∀ o ∈ os, o.rank.1 = (seen.depth : Int) := by
  induction hq with
  | done last => exact fun o ho => absurd ho List.not_mem_nil
  | next more choice rest ih => exact List.forall_mem_cons.mpr ⟨rfl, ih⟩

theorem Queues.depth {h : Heuristic Unit} {seen : Machine} {x : Point} {k : Nat} {os : List Open}
    {a b : Unit} (hq : Queues h seen x 0 k a os b) : ∀ o ∈ os, o.depth = x.state.depth := by
  intro o ho
  have hmem : o.pick ∈ x.picks := hq.map_pick_all ▸ List.mem_map_of_mem ho
  unfold Open.depth
  rw [(Point.mem_picks.mp hmem).1]

/-- An agenda of a breadth-first search: the priority of an entry is the length of the path in front
of it, which may be continued. -/
structure Leveled (m : Machine) (limit : Nat) (A : Agenda Unit) : Prop where
  reached : ∀ o ∈ A.entries, Reached m o.pick
  rank : ∀ o ∈ A.entries, o.rank.1 = (o.depth : Int)
  within : ∀ o ∈ A.entries, limit = 0 ∨ o.depth < m.depth + limit

/-- The first entry is as short as any. -/
theorem Leveled.depth_le {o : Open} {left : List Open} (hA : Leveled m limit A)
    (hfirst : A.First o left) : ∀ o' ∈ A.entries, o.depth ≤ o'.depth := by
  intro o' ho'
  rcases List.mem_cons.mp (hfirst.entries.mem_iff.mp ho') with rfl | hleft
  · exact Nat.le_refl _
  · have hrank := hA.rank o hfirst.mem
    have hrank' := hA.rank o' ho'
    rcases hfirst.least o' hleft with hlt | ⟨heq, -⟩
    · omega
    · omega

/-- The states behind choices are deeper by one, and the agenda has no entry that is less deep than
the one that was tried. -/
theorem Leveled.step (hm : m.IsReady) (hcuts : DepthFirst.CutsAfter bound m.depth limit)
    (hA : Leveled m limit A) (hstep : A.Step .breadthFirst bound t A') :
    t.vertex.state.depth = t.entry.depth + 1 ∧ Leveled m limit A' ∧
      (∀ o ∈ A.entries, t.entry.depth ≤ o.depth) ∧ ∀ o ∈ A'.entries, t.entry.depth ≤ o.depth := by
  have hreached := hstep.reached hA.reached
  cases hstep with
  | @closed o left e n first transition ends =>
    have hdepth := (hA.reached o first.mem).depth hm transition
    refine ⟨hdepth, ⟨hreached, fun o' ho' => ?_, fun o' ho' => ?_⟩, hA.depth_le first,
      fun o' ho' => ?_⟩
    · exact hA.rank o' (first.mem_of_left ho')
    · exact hA.within o' (first.mem_of_left ho')
    · exact hA.depth_le first o' (first.mem_of_left ho')
  | @opened o left os e n seen g b first transition within pending seen_alike queues =>
    have ho := hA.reached o first.mem
    have hdepth : n.depth = o.depth + 1 := ho.depth hm transition
    have hseen : seen.depth = n.depth := seen_alike.depth
    have hmdepth : m.depth ≤ o.depth := ho.depth_le hm
    have hlimit : limit = 0 ∨ n.depth < m.depth + limit := by
      have hcut := hcuts (o.depth - m.depth)
      rw [show m.depth + (o.depth - m.depth) + 1 = n.depth by omega, within] at hcut
      have hnot := of_decide_eq_false hcut.symm
      omega
    have hnew := queues.depth
    refine ⟨hdepth, ⟨hreached, fun o' ho' => ?_, fun o' ho' => ?_⟩, hA.depth_le first,
      fun o' ho' => ?_⟩
    · rcases List.mem_append.mp ho' with hos | hleft
      · rw [queues.rank o' hos, hnew o' hos, hseen]
      · exact hA.rank o' (first.mem_of_left hleft)
    · rcases List.mem_append.mp ho' with hos | hleft
      · rw [hnew o' hos]
        exact hlimit
      · exact hA.within o' (first.mem_of_left hleft)
    · rcases List.mem_append.mp ho' with hos | hleft
      · have hdeep : o'.depth = n.depth := hnew o' hos
        show o.depth ≤ o'.depth
        omega
      · exact hA.depth_le first o' (first.mem_of_left hleft)

theorem Leveled.begins (config : SearchConfig) (hbegins : A.Begins .breadthFirst m) :
    Leveled m (limitFrom config m) A := by
  have hreached := hbegins.reached
  cases hbegins with
  | idle pending => exact ⟨hreached, fun o ho => absurd ho List.not_mem_nil, fun o ho =>
      absurd ho List.not_mem_nil⟩
  | @root seen g os b pending seen_alike queues =>
    have hdepth : ∀ o ∈ os, o.depth = m.depth := queues.depth
    have hseen : seen.depth = m.depth := seen_alike.depth
    refine ⟨hreached, fun o ho => ?_, fun o ho => ?_⟩
    · rw [queues.rank o ho, hdepth o ho, hseen]
    · rw [hdepth o ho]
      unfold limitFrom
      split <;> omega

/-- **Paths never get shorter.** The states that are reached are deeper and deeper, and none of them
is deeper than the states that are reached next. -/
theorem Leveled.runs (hm : m.IsReady) (hcuts : DepthFirst.CutsAfter bound m.depth limit)
    (hA : Leveled m limit A) (hruns : A.Runs .breadthFirst bound ts A') :
    Leveled m limit A' ∧ (ts.map (·.vertex.state.depth)).Pairwise (· ≤ ·) ∧
      ∀ t ∈ ts, ∀ o ∈ A'.entries, t.vertex.state.depth ≤ o.depth + 1 := by
  induction hruns with
  | refl => exact ⟨hA, .nil, fun t ht => absurd ht List.not_mem_nil⟩
  | @tail ts t B C run step ih =>
    obtain ⟨hB, hsorted, hnext⟩ := ih
    obtain ⟨hdepth, hC, hfirst, hleft⟩ := hB.step hm hcuts step
    have hentry : t.entry ∈ B.entries := by
      cases step with
      | closed first => exact first.mem
      | opened first => exact first.mem
    refine ⟨hC, ?_, fun t' ht' o ho => ?_⟩
    · rw [List.map_append, List.pairwise_append]
      refine ⟨hsorted, List.pairwise_singleton _ _, ?_⟩
      intro d hd d' hd'
      obtain ⟨t', ht', rfl⟩ := List.mem_map.mp hd
      rw [List.map_singleton, List.mem_singleton] at hd'
      have hle := hnext t' ht' t.entry hentry
      omega
    · have hle := hleft o ho
      rcases List.mem_append.mp ht' with hts | ht
      · have hle' := hnext t' hts t.entry hentry
        omega
      · rw [List.mem_singleton] at ht
        rw [ht, hdepth]
        omega

/-! ## The choices up to a length -/

/-- The number of choices on paths that are no longer than `d`, counted from what is yet to be
done. -/
def Agenda.weight (d : Nat) (A : Agenda Unit) : Nat :=
  sumOf (A.entries.map fun o => o.pick.weight (d - o.depth))

theorem Agenda.First.weight_eq {o : Open} {left : List Open} (hfirst : A.First o left) (d : Nat) :
    A.weight d = o.pick.weight (d - o.depth) + Agenda.weight d { A with entries := left } := by
  unfold Agenda.weight
  rw [sumOf_perm (hfirst.entries.map _), List.map_cons, sumOf_cons]

/-- As long as short paths are continued, less and less is left to be done. -/
theorem Agenda.Step.weight_lt {d : Nat} (hm : m.IsReady) (hA : Leveled m limit A)
    (hstep : A.Step .breadthFirst bound t A') (hd : t.entry.depth < d) :
    A'.weight d < A.weight d := by
  cases hstep with
  | @closed o left e n first transition ends =>
    have hd' : o.depth < d := hd
    have hpos : 0 < o.pick.weight (d - o.depth) := by
      obtain ⟨j, hj⟩ : ∃ j, d - o.depth = j + 1 := ⟨d - o.depth - 1, by omega⟩
      rw [hj]
      exact Pick.weight_pos j _
    rw [first.weight_eq]
    exact Nat.lt_add_of_pos_left hpos
  | @opened o left os e n seen g b first transition within pending seen_alike queues =>
    have hd' : o.depth < d := hd
    have hdepth : n.depth = o.depth + 1 := (hA.reached o first.mem).depth hm transition
    -- the choices behind the entry are those that join
    have hown : o.pick.weight (d - o.depth) =
        1 + sumOf (os.map fun o => o.pick.weight (d - o.depth)) := by
      have hnew : (os.map fun o => o.pick.weight (d - o.depth)) =
          (Point.picks ⟨n, g⟩).map (Pick.weight (d - n.depth)) := by
        rw [← queues.map_pick_all, List.map_map]
        refine List.map_congr_left fun o' ho' => ?_
        have hdeep : o'.depth = n.depth := queues.depth o' ho'
        rw [hdeep]
        rfl
      have htarget := Pick.target_eq transition
      rw [hnew, show d - o.depth = d - n.depth + 1 by omega,
        Pick.weight_succ _ (htarget ▸ pending), htarget]
    rw [first.weight_eq, hown]
    simp only [Agenda.weight, List.map_append, sumOf_append]
    omega

/-! ## A state that is yet to be reached -/

/-- A state lies behind one of the entries. -/
def Agenda.Ahead (A : Agenda Unit) (n : Machine) : Prop :=
  ∃ o ∈ A.entries, o.pick.target.Reaches n

/-- What is reached from a choice point lies behind one of its choices. -/
theorem exists_pick {x : Point} (hpending : x.state.pending = some x.generator)
    (h : x.state.Reaches n) (hne : n ≠ x.state) : ∃ k ∈ x.picks, k.target.Reaches n := by
  rcases Relation.ReflTransGen.cases_head h with he | ⟨n', hfirst, hrest⟩
  · exact absurd he.symm hne
  · obtain ⟨hg, hi, htransition⟩ := hfirst
    rename_i g i e
    rw [hpending] at hg
    cases hg
    have htarget : (⟨x, i⟩ : Pick).target = n' := Pick.target_eq htransition
    exact ⟨⟨x, i⟩, Point.mem_picks.mpr ⟨rfl, hi⟩, htarget ▸ hrest⟩

theorem Queues.exists_ahead {h : Heuristic Unit} {seen : Machine} {x : Point} {i : Nat}
    {os : List Open} {a b : Unit} (hq : Queues h seen x 0 i a os b)
    (hpending : x.state.pending = some x.generator) (hx : x.state.Reaches n) (hne : n ≠ x.state) :
    ∃ o ∈ os, o.pick.target.Reaches n := by
  obtain ⟨k, hk, hn⟩ := exists_pick hpending hx hne
  rw [← hq.map_pick_all] at hk
  obtain ⟨o, ho, rfl⟩ := List.mem_map.mp hk
  exact ⟨o, ho, hn⟩

/-- Until a state is reached, it lies ahead. -/
theorem Agenda.Step.ahead {h : Heuristic Unit} (hm : m.IsReady)
    (hcuts : DepthFirst.CutsAfter bound m.depth limit) (hA : ∀ o ∈ A.entries, Reached m o.pick)
    (hstep : A.Step h bound t A') (hahead : A.Ahead n)
    (hwithin : limit = 0 ∨ n.depth ≤ m.depth + limit) (hne : n ≠ t.vertex.state) : A'.Ahead n := by
  obtain ⟨o', ho', hn⟩ := hahead
  cases hstep with
  | @closed o left e n' first transition ends =>
    rcases List.mem_cons.mp (first.entries.mem_iff.mp ho') with rfl | hleft
    · rw [Pick.target_eq transition] at hn
      -- the path would have to go on to reach the state
      exfalso
      have ho := hA _ first.mem
      have hn' : m.Reaches n' := ho.state.tail ⟨ho.pending, ho.index, transition⟩
      have hdepth := ho.depth hm transition
      have hmdepth := ho.depth_le hm
      have hlt : n'.depth < n.depth := by
        rcases Machine.depth_of_reaches (hm.reaches hn') hn with he | hlt
        · exact absurd he hne
        · exact hlt
      rcases ends with hreached | hnone
      · have hcut := hcuts (n'.depth - m.depth - 1)
        rw [show m.depth + (n'.depth - m.depth - 1) + 1 = n'.depth by omega, hreached] at hcut
        have hlimit := of_decide_eq_true hcut.symm
        omega
      · rcases Relation.ReflTransGen.cases_head hn with he | ⟨_, ⟨hg, -, -⟩, -⟩
        · exact hne he.symm
        · rw [hnone] at hg
          cases hg
    · exact ⟨o', hleft, hn⟩
  | opened first transition within pending _ queues =>
    rcases List.mem_cons.mp (first.entries.mem_iff.mp ho') with rfl | hleft
    · rw [Pick.target_eq transition] at hn
      obtain ⟨o, ho, hn⟩ := queues.exists_ahead pending hn hne
      exact ⟨o, List.mem_append_left _ ho, hn⟩
    · exact ⟨o', List.mem_append_right _ hleft, hn⟩

theorem Agenda.Begins.ahead {h : Heuristic Unit} (hbegins : A.Begins h m) (hn : m.Reaches n)
    (hne : n ≠ m) : A.Ahead n := by
  cases hbegins with
  | idle pending =>
    rcases Relation.ReflTransGen.cases_head hn with he | ⟨_, ⟨hg, -, -⟩, -⟩
    · exact absurd he.symm hne
    · rw [pending] at hg
      cases hg
  | root pending _ queues => exact queues.exists_ahead pending hn hne

/-! ## Rounds -/

variable {α : Type} {h : Heuristic α} {q : Queue α} {s : Search}

/-- The first entry is tried, and the search goes on or it stops at what is wrong. -/
theorem Carries.tries {A : Agenda α} (bound : Option Nat) (hm : m.IsReady) (hfails : m.NeverFails)
    (hA : Carries m A q s) (hs : s.Watchful) (hmatching : s.config.stateMatching = false)
    (hne : A.entries ≠ []) : ∃ o left, A.First o left ∧
      ((∃ e expanded A' q' s', round h bound q s = .ok (.inl q') s' ∧
          A.Step h bound ⟨o, ⟨e, o.pick.target, expanded⟩⟩ A' ∧ Carries m A' q' s' ∧
          Explored s s' [⟨e, o.pick.target, expanded⟩] ∧
          (s.config.stopOnFirstError = true → o.pick.target.failures = [])) ∨
        ∃ s', round h bound q s = .ok (.inr ()) s' ∧ Front.Ended s o.pick.target s' ∧
          s.config.stopOnFirstError = true ∧ o.pick.target.failures ≠ []) := by
  obtain ⟨o, left, hfront⟩ := hA.exists_front hm hne
  have ho := hA.reached o hfront.first.mem
  obtain ⟨e, htransition⟩ := ho.exists_transition hfails
  have hn : m.Reaches o.pick.target := ho.state.tail ⟨ho.pending, ho.index, htransition⟩
  refine ⟨o, left, hfront.first, ?_⟩
  by_cases hgo : s.config.stopOnFirstError = true → o.pick.target.failures = []
  · obtain ⟨expanded, A', q', s', hround, hstep, hA', hvertex⟩ :=
      hfront.goes_on hm hA hs hmatching htransition (fun _ g => hfails.nonempty _ g hn) hgo
    exact .inl ⟨e, expanded, A', q', s', hround, hstep, hA', hvertex, hgo⟩
  · have hstop : s.config.stopOnFirstError = true := by
      by_contra hnot
      exact hgo fun hstop => absurd hstop hnot
    have hwrong : o.pick.target.failures ≠ [] := fun hnil => hgo fun _ => hnil
    obtain ⟨s', hround, hended⟩ := hfront.stops bound hs htransition hstop hwrong
    exact .inr ⟨s', hround, hended, hstop, hwrong⟩

/-- Listeners have been told of every transition, and of no state after a deeper one. -/
structure Ascending (s : Search) : Prop where
  advanced : (s.advanced.map Machine.depth).Pairwise (· ≤ ·)
  transitions : s.advanced.length = s.stats.transitions

theorem Ascending.told {s' : Search} (hs : Ascending s) (htold : Told s s') : Ascending s' where
  advanced := by rw [htold.advanced]; exact hs.advanced
  transitions := by rw [htold.advanced, htold.stats]; exact hs.transitions

variable {config : SearchConfig}

/-- How far a breadth-first search with listeners has come. -/
structure Descends (m : Machine) (config : SearchConfig) (q : Queue Unit) (s : Search) : Prop where
  watchful : s.Watchful
  unchanged : s.config = config
  listening : s.listening = true
  transitions : s.advanced.length = s.stats.transitions
  run : ∃ (A A' : Agenda Unit) (ts : List Trial), A.Begins .breadthFirst m ∧
    A.Runs .breadthFirst (depthBound { machine := m, config }) ts A' ∧ Carries m A' q s ∧
    List.Forall₂ (Machine.Alike True) s.advanced (ts.map (·.vertex.state))

theorem map_depth_eq {ks ns : List Machine} (h : List.Forall₂ (Machine.Alike True) ks ns) :
    ks.map Machine.depth = ns.map Machine.depth := by
  induction h with
  | nil => rfl
  | cons halike _ ih => rw [List.map_cons, List.map_cons, ih, halike.depth]

namespace Descends

variable {q : Queue Unit}

theorem ascending (hm : m.IsReady) (hq : Descends m config q s) : Ascending s := by
  obtain ⟨A, A', ts, hbegins, hruns, -, halike⟩ := hq.run
  have hcuts := DepthFirst.cutsAfter_depthBound { machine := m, config }
  obtain ⟨-, hsorted, -⟩ := (Leveled.begins config hbegins).runs hm hcuts hruns
  refine ⟨?_, hq.transitions⟩
  rw [map_depth_eq halike, List.map_map]
  exact hsorted

theorem round (hm : m.IsReady) (hfails : m.NeverFails) (hmatching : config.stateMatching = false)
    (hq : Descends m config q s) :
    (∃ q' s', BestFirst.round .breadthFirst (depthBound { machine := m, config }) q s =
        .ok (.inl q') s' ∧ Descends m config q' s') ∨
      ∃ s', BestFirst.round .breadthFirst (depthBound { machine := m, config }) q s =
        .ok (.inr ()) s' ∧ Ascending s' := by
  have hascending := hq.ascending hm
  obtain ⟨A, A', ts, hbegins, hruns, hA', halike⟩ := hq.run
  by_cases hnil : A'.entries = []
  · exact .inr ⟨s, round_of_nil hA' hnil, hascending⟩
  · obtain ⟨o, left, hfirst, ⟨e, expanded, A'', q', s', hround, hstep, hA'', hvertex, -⟩ |
        ⟨s', hround, hended, -, -⟩⟩ :=
      hA'.tries (depthBound { machine := m, config }) hm hfails hq.watchful
        (hq.unchanged ▸ hmatching) hnil
    · obtain ⟨ms, hms, hmachines⟩ := hvertex.advanced
      have hnew := hmachines hq.listening
      refine .inl ⟨q', s', hround, ?_⟩
      exact {
        watchful := hq.watchful.of_sameTask hvertex.task (hvertex.checked hq.watchful.checked)
        unchanged := hvertex.task.config.trans hq.unchanged
        listening := hvertex.task.listening.trans hq.listening
        transitions := by
          rw [hms, List.length_append, hq.transitions, hvertex.transitions, hnew.length_eq]
          rfl
        run := by
          refine ⟨A, A'', _, hbegins, .tail hruns hstep, hA'', ?_⟩
          rw [hms, List.map_append]
          exact List.rel_append halike hnew }
    · -- the last state is as deep as those of the entries on the level of its choice
      obtain ⟨k, hk, hadvanced⟩ := hended.advanced
      rw [hq.listening, if_pos rfl] at hadvanced
      have hcuts := DepthFirst.cutsAfter_depthBound { machine := m, config }
      obtain ⟨hlevels, -, hnext⟩ := (Leveled.begins config hbegins).runs hm hcuts hruns
      have ho := hA'.reached o hfirst.mem
      obtain ⟨e, htransition⟩ := ho.exists_transition hfails
      have hdepth : k.depth = o.depth + 1 := hk.depth.trans (ho.depth hm htransition)
      refine .inr ⟨s', hround, ?_, ?_⟩
      · rw [hadvanced, List.map_append, List.pairwise_append]
        refine ⟨hascending.advanced, List.pairwise_singleton _ _, fun d hd d' hd' => ?_⟩
        rw [map_depth_eq halike, List.map_map] at hd
        obtain ⟨t, ht, rfl⟩ := List.mem_map.mp hd
        rw [List.map_singleton, List.mem_singleton] at hd'
        have hle := hnext t ht o hfirst.mem
        rw [Function.comp_apply, hd']
        omega
      · rw [hadvanced, hended.transitions, List.length_append, hq.transitions]
        rfl

end Descends

/-- How far a breadth-first search has come that stops at violations and has found none, where
something is wrong in the state `n`: it needs no more than `b` further rounds before the last one. -/
structure Hunts (m : Machine) (config : SearchConfig) (n : Machine) (b : Nat) (q : Queue Unit)
    (s : Search) : Prop where
  watchful : s.Watchful
  unchanged : s.config = config
  violations : s.violations.toList = []
  run : ∃ A : Agenda Unit, Carries m A q s ∧ Leveled m (limitFrom config m) A ∧ A.Ahead n ∧
    A.weight n.depth ≤ b

/-- The search comes closer to the state, or finds something wrong that is no deeper. -/
theorem Hunts.round {q : Queue Unit} {b : Nat} (hm : m.IsReady) (hfails : m.NeverFails)
    (hmatching : config.stateMatching = false) (hstop : config.stopOnFirstError = true)
    (hn : Failing m config n)
    (hleast : ∀ n', Failing m config n' → n.depth ≤ n'.depth) (hq : Hunts m config n b q s) :
    (∃ q' s' b', BestFirst.round .breadthFirst (depthBound { machine := m, config }) q s =
        .ok (.inl q') s' ∧ b' < b ∧ Hunts m config n b' q' s') ∨
      ∃ u s', BestFirst.round .breadthFirst (depthBound { machine := m, config }) q s =
        .ok (.inr u) s' ∧ ∃ n', Failing m config n' ∧ n'.depth = n.depth ∧
          s'.violations.toList = n'.failures := by
  obtain ⟨A, hA, hlevels, hahead, hweight⟩ := hq.run
  have hcuts := DepthFirst.cutsAfter_depthBound { machine := m, config }
  obtain ⟨o', ho', hbehind⟩ := hahead
  have hnil : A.entries ≠ [] := List.ne_nil_of_mem ho'
  obtain ⟨o, left, hfirst, htries⟩ := hA.tries (h := .breadthFirst)
    (depthBound { machine := m, config }) hm hfails hq.watchful
    (hq.unchanged ▸ hmatching) hnil
  -- the state behind the first entry is no deeper than the one that lies ahead
  have ho := hA.reached o hfirst.mem
  obtain ⟨e, htransition⟩ := ho.exists_transition hfails
  have htarget : m.Reaches o.pick.target := ho.state.tail ⟨ho.pending, ho.index, htransition⟩
  have hdepth : o.pick.target.depth = o.depth + 1 := ho.depth hm htransition
  have hmdepth : m.depth ≤ o.depth := ho.depth_le hm
  have hdeep : o.depth < n.depth := by
    have hle := hlevels.depth_le hfirst o' ho'
    have hreached' := hA.reached o' ho'
    obtain ⟨e', htransition'⟩ := hreached'.exists_transition hfails
    have hdepth' : o'.pick.target.depth = o'.depth + 1 := hreached'.depth hm htransition'
    have htarget' : m.Reaches o'.pick.target :=
      hreached'.state.tail ⟨hreached'.pending, hreached'.index, htransition'⟩
    rcases Machine.depth_of_reaches (hm.reaches htarget') hbehind with he | hlt
    · rw [he]
      omega
    · omega
  have hlooks : o.pick.target.failures ≠ [] → Failing m config o.pick.target := by
    intro hwrong
    refine ⟨htarget, ?_, fun _ => by omega, hwrong⟩
    have hwithin := hlevels.within o hfirst.mem
    omega
  rcases htries with ⟨e', expanded, A', q', s', hround, hstep, hA', hvertex, hgo⟩ |
    ⟨s', hround, hended, -, hwrong⟩
  · have hright : o.pick.target.failures = [] := hgo (by rw [hq.unchanged, hstop])
    have hne : n ≠ o.pick.target := fun he => hn.wrong (he ▸ hright)
    obtain ⟨-, hlevels', -⟩ := hlevels.step hm hcuts hstep
    have hahead := hstep.ahead hm hcuts hlevels.reached ⟨o', ho', hbehind⟩ hn.within hne
    have hlt := hstep.weight_lt hm hlevels hdeep
    refine .inl ⟨q', s', A'.weight n.depth, hround, by omega, ?_⟩
    exact {
      watchful := hq.watchful.of_sameTask hvertex.task (hvertex.checked hq.watchful.checked)
      unchanged := hvertex.task.config.trans hq.unchanged
      violations := by rw [hvertex.violations, hq.violations]; simp [hright]
      run := ⟨A', hA', hlevels', hahead, Nat.le_refl _⟩ }
  · have hfailing := hlooks hwrong
    have hle := hleast _ hfailing
    refine .inr ⟨(), s', hround, o.pick.target, hfailing, by omega, ?_⟩
    rw [hended.violations, hq.violations, List.nil_append]

/-! ## Whole searches -/

variable {listening : Bool}

theorem looked_finishWithoutChoice (hs : Told { machine := m, config, listening } s) :
    Looked s s.finishWithoutChoice := by
  have hlooked := looked_checkProperties (s := s) (by rw [hs.checkedAt]; exact nofun)
  exact ⟨hlooked.violations, hlooked.transitions, hlooked.listening, hlooked.advanced⟩

/-- Whether it succeeds or uses up its rounds, a search does not go back to shorter paths. -/
theorem search_ascending (hm : m.IsReady) (hfails : m.NeverFails)
    (hmatching : config.stateMatching = false) (rounds : Nat)
    (hs : Told { machine := m, config, listening := true } s) :
    ∃ s', (search .breadthFirst rounds s = .ok () s' ∨
      search .breadthFirst rounds s = .error .budgetExhausted s') ∧ Ascending s' := by
  cases hp : m.pending with
  | none =>
    have hlooked := looked_finishWithoutChoice hs
    refine ⟨_, .inl (search_of_none .breadthFirst rounds hp hs), ?_, ?_⟩
    · rw [hlooked.advanced, hs.advanced]
      exact .nil
    · rw [hlooked.advanced, hs.advanced, hlooked.transitions, hs.stats]
      rfl
  | some g =>
    have hpos := hfails.nonempty m g .refl hp
    obtain ⟨A, q, s₀, hbegins, hrooted, hA, hsearch⟩ :=
      search_of_some .breadthFirst hmatching hp hpos hs
    rw [hsearch]
    have hdescends : Descends m config q s₀ := {
      watchful := hrooted.toWatchful
      unchanged := hrooted.config
      listening := hrooted.listening
      transitions := by rw [hrooted.advanced, hrooted.stats]; rfl
      run := ⟨A, A, [], hbegins, .refl, hA, by rw [hrooted.advanced]; exact .nil⟩ }
    have hround : ∀ (q : Queue Unit) s, Descends m config q s →
        Ends (fun r t => Sum.elim (Descends m config · t) (fun _ => Ascending t) r) Ascending
          (round .breadthFirst (depthBound { machine := m, config }) q s) := by
      intro q s hq
      rcases hq.round hm hfails hmatching with ⟨q', s', hround, hq'⟩ | ⟨s', hround, hs'⟩
      · rw [hround]
        exact hq'
      · rw [hround]
        exact hs'
    have hends := Loop.run_ends SearchFault.budgetExhausted hround
      (fun q s hq => hq.ascending hm) rounds hdescends
    cases hrun : Loop.run (round .breadthFirst (depthBound { machine := m, config }))
        .budgetExhausted rounds q s₀ with
    | ok u s' =>
      rw [hrun] at hends
      exact ⟨s', .inl rfl, hends⟩
    | error e s' =>
      rw [hrun] at hends
      have he : e = .budgetExhausted := by
        refine Loop.run_faults (I := Descends m config) (Q := fun e _ => e = .budgetExhausted)
          (fun q s q' s' hq hok => ?_) (fun q s e s' hq herror => ?_) (fun _ _ _ => rfl) hdescends hrun
        · have hkept := hround q s hq
          rw [hok] at hkept
          exact hkept
        · rcases hq.round hm hfails hmatching with ⟨q', s'', hok, -⟩ | ⟨s'', hok, -⟩
          · rw [hok] at herror
            cases herror
          · rw [hok] at herror
            cases herror
      exact ⟨s', .inr (by rw [he]), hends⟩

/-- A search that stops at violations stops at one of those with the shortest paths. -/
theorem search_finds (hm : m.IsReady) (hfails : m.NeverFails)
    (hmatching : config.stateMatching = false) (hstop : config.stopOnFirstError = true)
    (hn : Failing m config n) (hleast : ∀ n', Failing m config n' → n.depth ≤ n'.depth)
    (hs : Told { machine := m, config, listening } s) :
    ∃ b s', (∀ rounds, b < rounds → search .breadthFirst rounds s = .ok () s') ∧
      ∃ n', Failing m config n' ∧ n'.depth = n.depth ∧ s'.violations.toList = n'.failures := by
  cases hp : m.pending with
  | none =>
    have hnm : n = m := by
      rcases Relation.ReflTransGen.cases_head hn.reached with he | ⟨_, ⟨hg, -, -⟩, -⟩
      · exact he.symm
      · rw [hp] at hg
        cases hg
    have hlooked := looked_finishWithoutChoice hs
    refine ⟨0, _, fun rounds _ => search_of_none .breadthFirst rounds hp hs, n, hn, rfl, ?_⟩
    rw [hlooked.violations, hs.violations, hnm]
    unfold Search.failures
    rw [hs.task.properties, hs.machine]
    rfl
  | some g =>
    have hpos := hfails.nonempty m g .refl hp
    obtain ⟨A, q, s₀, hbegins, hrooted, hA, hsearch⟩ :=
      search_of_some .breadthFirst hmatching hp hpos hs
    have hne : n ≠ m := by
      have hlt := hn.chosen (by rw [hp]; rfl)
      intro he
      rw [he] at hlt
      exact Nat.lt_irrefl _ hlt
    have hhunts : Hunts m config n (A.weight n.depth) q s₀ := {
      watchful := hrooted.toWatchful
      unchanged := hrooted.config
      violations := hrooted.violations
      run := ⟨A, hA, .begins config hbegins, hbegins.ahead hn.reached hne, Nat.le_refl _⟩ }
    obtain ⟨_, s', hrun, hfound⟩ := Loop.run_of_decreasing SearchFault.budgetExhausted
      (fun b q s hq => Hunts.round hm hfails hmatching hstop hn hleast hq) hhunts
    refine ⟨A.weight n.depth, s', fun rounds hrounds => ?_, hfound⟩
    rw [hsearch]
    exact hrun rounds hrounds

end BestFirst

variable {m : Machine}

/-- **Breadth-first search finds a shortest path to a violation.** Begun where choices lead on
without faults, and without state matching, it reaches states on longer and longer paths, however
many rounds it may take; it faults only when these are used up. If it stops at violations, and
something is wrong in a state that it may look at, then under every large enough bound on its rounds
it stops and reports violations, and these are as deep as the least deep of such states. -/
theorem breadthFirst_shortest (hm : m.IsReady) (hfails : m.NeverFails) (config : SearchConfig)
    (hmatching : config.stateMatching = false) :
    (∀ rounds, ∃ s',
      ((∃ report, run (bestFirst .breadthFirst) rounds
          { machine := m, config, listening := true } = .ok report s') ∨
        run (bestFirst .breadthFirst) rounds { machine := m, config, listening := true } =
          .error .budgetExhausted s') ∧
      (s'.advanced.map Machine.depth).Pairwise (· ≤ ·) ∧
      s'.advanced.length = s'.stats.transitions) ∧
    (config.stopOnFirstError = true → (∃ n, Failing m config n) → ∀ listening,
      ∃ (bound : Nat) (report : SearchReport) (s' : Search) (d : Nat),
        (∀ rounds, bound < rounds →
          run (bestFirst .breadthFirst) rounds { machine := m, config, listening } =
            .ok report s') ∧
        report.violations ≠ [] ∧ (∀ v ∈ report.violations, v.depth = d) ∧
        IsLeast {d | ∃ n, Failing m config n ∧ n.depth = d} d) := by
  have hstart := fun listening => Told.tell { machine := m, config, listening }
    (n := .started m.depth) fun _ => by exact nofun
  constructor
  · intro rounds
    obtain ⟨s', hsearch, hascending⟩ :=
      BestFirst.search_ascending hm hfails hmatching rounds (hstart true)
    have htold := Told.tell s' (n := .finished s'.stats.transitions) fun _ => by exact nofun
    have hends := hascending.told htold
    refine ⟨s'.tell (.finished s'.stats.transitions), ?_, hends.advanced, hends.transitions⟩
    rcases hsearch with hok | herror
    · exact .inl ⟨_, run_eq_ok (bestFirst .breadthFirst) rounds
        (s := { machine := m, config, listening := true }) hm.started hok⟩
    · exact .inr (run_eq_error (bestFirst .breadthFirst) rounds
        (s := { machine := m, config, listening := true }) hm.started herror)
  · intro hstop hexists listening
    classical
    have hdepths : ∃ d, ∃ n, Failing m config n ∧ n.depth = d := by
      obtain ⟨n, hn⟩ := hexists
      exact ⟨n.depth, n, hn, rfl⟩
    obtain ⟨n, hn, hdepth⟩ := Nat.find_spec hdepths
    have hleast : ∀ n', Failing m config n' → n.depth ≤ n'.depth := by
      intro n' hn'
      rw [hdepth]
      exact Nat.find_min' hdepths ⟨n', hn', rfl⟩
    obtain ⟨b, s', hsearch, n', hn', hdepth', hviolations⟩ :=
      BestFirst.search_finds hm hfails hmatching hstop hn hleast (hstart listening)
    have htold := Told.tell s' (n := .finished s'.stats.transitions) fun _ => by exact nofun
    refine ⟨b, { strategy := "bfs", stats := s'.stats, violations := s'.violations.toList },
      s'.tell (.finished s'.stats.transitions), n.depth, fun rounds hrounds => ?_, ?_, ?_,
      ⟨n, hn, rfl⟩, ?_⟩
    · exact run_eq_ok (bestFirst .breadthFirst) rounds
        (s := { machine := m, config, listening }) hm.started (hsearch rounds hrounds)
    · rw [hviolations]
      exact hn'.wrong
    · intro v hv
      rw [hviolations] at hv
      rw [← hdepth', Machine.depth_of_mem_failures hv]
    · rintro d ⟨n'', hn'', rfl⟩
      exact hleast n'' hn''

/-- Where the program picks three values, breadth-first search finds a shortest way to go wrong. -/
theorem breadthFirst_shortest_nondet : ∃ p m bound report s' d,
    Demo.nondet.run (Program.base .plain) = .ok ((), p) ∧ m.Driven p {} ∧ m.IsReady ∧
      m.NeverFails ∧ (∃ n, Failing m { stateMatching := false } n) ∧
      (∀ rounds, bound < rounds → run (bestFirst .breadthFirst) rounds
        { machine := m, config := { stateMatching := false }, listening := true } =
          .ok report s') ∧
      report.violations ≠ [] ∧ (∀ v ∈ report.violations, v.depth = d) ∧
      IsLeast {d | ∃ n, Failing m { stateMatching := false } n ∧ n.depth = d} d := by
  obtain ⟨p, m, n, hbuild, hdriven, hfinite, -, hreaches, hdepth, hwrong⟩ := exists_nondet
  have hfailing : Failing m { stateMatching := false } n :=
    ⟨hreaches, .inl rfl, fun _ => hdepth, hwrong⟩
  obtain ⟨-, hfinds⟩ := breadthFirst_shortest hdriven.isReady hfinite.neverFails
    { stateMatching := false } rfl
  obtain ⟨bound, report, s', d, hrun, hviolations, hdepths, hleast⟩ :=
    hfinds rfl ⟨n, hfailing⟩ true
  exact ⟨p, m, bound, report, s', d, hbuild, hdriven, hdriven.isReady, hfinite.neverFails,
    ⟨n, hfailing⟩, hrun, hviolations, hdepths, hleast⟩

end Search

end Interleave

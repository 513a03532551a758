import Interleave.Proofs.Search.AnyOrder
import Interleave.Proofs.Search.Replay

/-!
# The counters of a search balance

Every state that a transition leads to is accounted for once: it ends a path, or a choice point is
expanded there, or one is recognized that was expanded before. How often a search goes back follows
from how its choices are kept: depth-first search need not go back for the first choice of a choice
point, and best-first search need not for its very first choice.
-/

namespace Interleave

open Effect

def SearchStats.accounted (c : SearchStats) : Nat := c.paths + c.newStates + c.revisitedStates

namespace Search

variable {s s₁ s' : Search} {a : Arrival} {bound : Option Nat} {g : Generator} {m n : Machine}
  {e : TransitionEnd}

/-- How many choice points an arrival adds to those that are expanded. -/
def Arrival.gain : Arrival → Nat
  | opened _ => 1
  | _ => 0

/-- A search that has looked at a state has accounted for it. -/
structure Tallied (s : Search) (a : Arrival) (s' : Search) : Prop where
  stats : ∃ paths newStates revisitedStates constraintHits,
    s'.stats = { s.stats with paths, newStates, revisitedStates, constraintHits }
  accounted : s'.stats.accounted = s.stats.accounted + 1
  newStates : s'.stats.newStates = s.stats.newStates + a.gain
  hostCall : s'.machine.hostCall = s.machine.hostCall
  opened : ∀ g, a = .opened g → s.machine.pending = some g
  /-- The search is over only if it was stopped. -/
  done : s.done = false → a ≠ .stopped → s'.done = false

theorem arrive_tallied (s : Search) (bound : Option Nat) :
    Tallied s (s.arrive bound).1 (s.arrive bound).2 := by
  obtain ⟨hstats, hover⟩ := checkProperties_counts s
  have hmachine := (checkProperties_found s).1
  unfold arrive
  generalize s.checkProperties = c at hstats hover hmachine
  obtain ⟨failed, t⟩ := c
  dsimp only at hstats hover hmachine ⊢
  have hhost : t.machine.hostCall = s.machine.hostCall := by rw [hmachine]
  cases hstop : failed && t.done with
  | true =>
    rw [if_pos rfl]
    have hcounted : t.pathFinished.stats = { s.stats with paths := s.stats.paths + 1 } := by
      rw [← hstats]
      rfl
    refine ⟨⟨_, _, _, _, hcounted⟩, ?_, ?_, hhost, nofun, fun _ ha => absurd rfl ha⟩
    all_goals rw [hcounted]
    · simp only [SearchStats.accounted]
      omega
    · rfl
  | false =>
    have hdone : t.done = s.done := hover hstop
    rw [if_neg Bool.false_ne_true]
    by_cases hreached : t.hasReached bound = true
    · rw [if_pos hreached]
      obtain ⟨htold, hcut⟩ := cutOff_eq t
      have hcounted : t.cutOff.pathFinished.stats = { s.stats with
          paths := s.stats.paths + 1
          constraintHits := s.stats.constraintHits + if t.machine.pending.isSome then 1 else 0 } := by
        show { t.cutOff.stats with paths := t.cutOff.stats.paths + 1 } = _
        rw [hcut, hstats]
      refine ⟨⟨_, _, _, _, hcounted⟩, ?_, ?_, ?_, nofun,
        fun hs _ => htold.task.done.trans (hdone.trans hs)⟩
      · rw [hcounted]
        simp only [SearchStats.accounted]
        omega
      · rw [hcounted]
        rfl
      · rw [← hhost]
        exact congrArg Machine.hostCall htold.machine
    · rw [if_neg hreached]
      cases hp : t.machine.pending with
      | none =>
        rw [takeChoicePoint_of_none hp]
        have hcounted : t.pathFinished.stats = { s.stats with paths := s.stats.paths + 1 } := by
          rw [← hstats]
          rfl
        refine ⟨⟨_, _, _, _, hcounted⟩, ?_, ?_, hhost, nofun, fun hs _ => hdone.trans hs⟩
        all_goals rw [hcounted]
        · simp only [SearchStats.accounted]
          omega
        · rfl
      | some g =>
        rw [takeChoicePoint_of_some hp]
        dsimp only
        rcases visit_eq { t with machine := { t.machine with pending := none } } g with
          ⟨-, -, hvisit⟩ | ⟨-, hvisit⟩
        · rw [hvisit]
          refine ⟨⟨_, _, _, _, by rw [← hstats]⟩, ?_, ?_, hhost, nofun, fun hs _ => hdone.trans hs⟩
          all_goals dsimp only; rw [hstats]
          · simp only [SearchStats.accounted]
            omega
          · rfl
        · rw [hvisit]
          refine ⟨⟨_, _, _, _, by rw [← hstats]⟩, ?_, ?_, hhost, ?_, fun hs _ => hdone.trans hs⟩
          · dsimp only
            rw [hstats]
            simp only [SearchStats.accounted]
            omega
          · dsimp only
            rw [hstats]
            rfl
          · rintro _ ⟨⟩
            rw [← hmachine, hp]

/-- What a step of a search adds to its counters: it has gone back so often, and has run a transition
to the state that it looks at. -/
theorem Tallied.of_moved {t : Search} {backtracks restores : Nat}
    (hback : t.stats = { s.stats with backtracks, restores }) (hmoved : Moved t e n s₁)
    (h : Tallied s₁ a s') :
    s'.stats.transitions = s.stats.transitions + 1 ∧ s'.stats.backtracks = backtracks ∧
      s'.stats.restores = restores ∧ s'.stats.newStates = s.stats.newStates + a.gain ∧
      s'.stats.accounted = s.stats.accounted + 1 := by
  have haccounted := h.accounted
  have hnew := h.newStates
  have hstats := hmoved.stats
  rw [hback] at hstats
  obtain ⟨_, _, _, _, hcounted⟩ := h.stats
  rw [hstats] at haccounted hnew hcounted
  refine ⟨?_, ?_, ?_, hnew, haccounted⟩
  all_goals rw [hcounted]

/-- A generator that a transition leaves pending has not been used. -/
theorem untried_of_transition (hm : m.hostCall = none) (h : m.transition g = .ok e n) :
    n.hostCall = none ∧ ∀ g', n.pending = some g' → g'.cursor = none := by
  have hready : ({ m with pending := none } : Machine).IsReady :=
    ⟨(Machine.transition_eq_ok.mp h).1, hm, nofun⟩
  have hn := hready.transition (Machine.transition_withoutPending_eq_ok.mpr h)
  exact ⟨hn.hostCall, hn.untried⟩

/-- A search that has counted nothing, and has not expanded a choice point. -/
structure Unused (s : Search) : Prop where
  stats : s.stats = {}
  visited : s.visited = {}
  done : s.done = false

theorem Unused.visit (h : s.Unused) (g : Generator) : (s.visit g).2.stats = { newStates := 1 } ∧
    (s.visit g).2.machine = s.machine ∧ (s.visit g).2.done = false := by
  rcases visit_eq s g with ⟨-, hseen, -⟩ | ⟨-, hvisit⟩
  · rw [h.visited] at hseen
    simp at hseen
  · rw [hvisit]
    refine ⟨?_, rfl, h.done⟩
    dsimp only
    rw [h.stats]

/-! ## Depth-first search -/

namespace DepthFirst

variable {stack rest : List Branch} {top : Branch}

/-- The counters when depth-first search ends. -/
structure Balanced (s : Search) : Prop where
  accounted : s.stats.transitions + 1 = s.stats.accounted
  moves : s.stats.transitions = s.stats.backtracks + s.stats.newStates
  restores : s.stats.restores = 0

/-- How many transitions are still to come from choice points of which no choice has been tried. -/
def ahead : List Branch → Nat
  | [] => 0
  | top :: _ => if top.fresh then 1 else 0

/-- The counters in front of a round. -/
structure Balances (stack : List Branch) (s : Search) : Prop where
  accounted : s.stats.transitions + 1 = s.stats.accounted
  moves : s.stats.transitions + ahead stack = s.stats.backtracks + s.stats.newStates
  restores : s.stats.restores = 0
  untried : ∀ b ∈ stack, b.fresh = true → b.generator.cursor = none
  /-- Below the choice point on top, some choice has been tried. -/
  stale : ∀ b ∈ stack.tail, b.fresh = false
  hostCall : s.machine.hostCall = none
  done : s.done = false

/-- Going back to a choice point is counted, unless the search is still there. -/
theorem backTo_counts (s : Search) (top : Branch) : (backTo s top).stats = { s.stats with
      backtracks := s.stats.backtracks + if top.fresh then 0 else 1 } ∧
    (backTo s top).machine.hostCall = s.machine.hostCall ∧ (backTo s top).done = s.done := by
  unfold backTo
  cases top.fresh with
  | true => exact ⟨rfl, rfl, rfl⟩
  | false =>
    rw [if_neg Bool.false_ne_true]
    have hreturned := Returned.backtrack s top.snapshot
    exact ⟨stats_backtrack s top.snapshot, by rw [hreturned.machine]; rfl, hreturned.task.done⟩

theorem look_balances (g' : Generator) (h : Balances (top :: rest) s)
    (hmoved : Moved (backTo s top) e n s₁)
    (hn : n.hostCall = none ∧ ∀ g', n.pending = some g' → g'.cursor = none) :
    Ends (fun r t => Sum.elim (Balances · t) (fun _ => Balanced t) r) (fun _ => True)
      (look bound ({ top with generator := g', fresh := false } :: rest) s₁) := by
  obtain ⟨hback, hhost, hdone⟩ := backTo_counts s top
  have htallied := arrive_tallied s₁ bound
  unfold look
  generalize s₁.arrive bound = r at htallied
  obtain ⟨a, s₂⟩ := r
  dsimp only at htallied ⊢
  obtain ⟨htransitions, hbacktracks, hrestores, hnew, haccounted⟩ :=
    htallied.of_moved (s := s) hback hmoved
  have hmoves := h.moves
  have haccounted' := h.accounted
  -- either the search has gone back, or this was the first choice
  have hfirst : ahead (top :: rest) + (if top.fresh = true then 0 else 1) = 1 := by
    show (if top.fresh = true then 1 else 0) + (if top.fresh = true then 0 else 1) = 1
    split <;> rfl
  have hbalanced : s₂.stats.transitions + 1 = s₂.stats.accounted ∧
      s₂.stats.transitions + a.gain = s₂.stats.backtracks + s₂.stats.newStates ∧
      s₂.stats.restores = 0 := by
    refine ⟨by omega, by omega, hrestores.trans h.restores⟩
  obtain ⟨hall, hmoves₂, hnone⟩ := hbalanced
  have hgoes : a ≠ .stopped → s₂.machine.hostCall = none ∧ s₂.done = false := by
    intro ha
    have hdone₁ : s₁.done = false := hmoved.task.done.trans (hdone.trans h.done)
    exact ⟨by rw [htallied.hostCall, hmoved.machine]; exact hn.1, htallied.done hdone₁ ha⟩
  have huntried : ∀ b ∈ ({ top with generator := g', fresh := false } : Branch) :: rest,
      b.fresh = true → b.generator.cursor = none := by
    intro b hb hbfresh
    rcases List.mem_cons.mp hb with rfl | hb
    · cases hbfresh
    · exact h.untried b (List.mem_cons_of_mem _ hb) hbfresh
  have hstale : ∀ b ∈ ({ top with generator := g', fresh := false } : Branch) :: rest,
      b.fresh = false := List.forall_mem_cons.mpr ⟨rfl, h.stale⟩
  cases a with
  | stopped => exact ⟨hall, hmoves₂, hnone⟩
  | closed =>
    obtain ⟨hhost₂, hdone₂⟩ := hgoes nofun
    exact ⟨hall, hmoves₂, hnone, huntried, h.stale, hhost₂, hdone₂⟩
  | opened g =>
    obtain ⟨hhost₂, hdone₂⟩ := hgoes nofun
    refine ⟨hall, hmoves₂, hnone, ?_, hstale, hhost₂, hdone₂⟩
    intro b hb hbfresh
    rcases List.mem_cons.mp hb with rfl | hb
    · exact hn.2 g (by rw [← hmoved.machine]; exact htallied.opened g rfl)
    · exact huntried b hb hbfresh

theorem Balances.round (h : Balances stack s) :
    Ends (fun r t => Sum.elim (Balances · t) (fun _ => Balanced t) r) (fun _ => True)
      (round bound stack s) := by
  cases stack with
  | nil => exact ⟨h.accounted, h.moves, h.restores⟩
  | cons top rest =>
    rw [round_cons bound rest top h.done]
    rcases hadvance : top.generator.advance with ⟨_ | c, g'⟩
    · dsimp only
      split
      · trivial
      · rename_i hpos
        -- a choice point without a next choice has had a first one
        have htop : top.fresh = false := by
          by_contra hfresh
          have hcursor := h.untried top List.mem_cons_self (Bool.not_eq_false _ ▸ hfresh)
          exact hpos (Generator.total_eq_zero_of_advance hcursor hadvance)
        have hahead : ahead rest = 0 := by
          cases rest with
          | nil => rfl
          | cons b _ => simp [ahead, h.stale b List.mem_cons_self]
        have hmoves := h.moves
        simp only [ahead, htop] at hmoves
        exact ⟨h.accounted, by rw [hahead]; exact hmoves, h.restores,
          fun b hb => h.untried b (List.mem_cons_of_mem _ hb),
          fun b hb => h.stale b (List.mem_of_mem_tail hb), h.hostCall, h.done⟩
    · dsimp only
      have hhost := (backTo_counts s top).2.1.trans h.hostCall
      cases hforward : forward g' (backTo s top) with
      | error e t =>
        rw [bind_of_error hforward]
        trivial
      | ok e t =>
        obtain ⟨n, htransition, hmoved⟩ := exists_moved hforward
        rw [bind_of_ok hforward]
        exact look_balances g' h hmoved (untried_of_transition hhost htransition)

theorem search_balanced {root : Generator} (rounds : Nat) (hs : s.Unused)
    (hhost : s.machine.hostCall = none) (hp : s.machine.pending = some root)
    (hroot : root.cursor = none) :
    Ends (fun _ t => Balanced t) (fun _ => True) (DepthFirst.search rounds s) := by
  unfold search
  rw [get_bind, get_bind, takeChoicePoint_of_some hp]
  dsimp only
  rw [set_bind]
  have hunused : ({ s with machine := { s.machine with pending := none } } : Search).Unused :=
    ⟨hs.stats, hs.visited, hs.done⟩
  obtain ⟨hstats, hmachine, hdone⟩ := hunused.visit root
  generalize (({ s with machine := { s.machine with pending := none } } : Search).visit root).2 = t
    at hstats hmachine hdone
  have hbalances : Balances [branch t root] t := {
    accounted := by rw [hstats]; rfl
    moves := by rw [hstats]; rfl
    restores := by rw [hstats]
    untried := by
      intro b hb _
      rw [List.mem_singleton] at hb
      rw [hb]
      exact hroot
    stale := fun b hb => absurd hb List.not_mem_nil
    hostCall := by
      rw [hmachine]
      exact hhost
    done := hdone }
  exact Loop.run_ends _ (I := Balances) (fun _ _ h => h.round) (fun _ _ _ => trivial) rounds hbalances

end DepthFirst

/-! ## Best-first search -/

namespace BestFirst

variable {α : Type} {h : Heuristic α} {q : Queue α}

structure Balanced (s : Search) : Prop where
  accounted : s.stats.transitions + 1 = s.stats.accounted
  restores : s.stats.restores + 1 = s.stats.transitions
  backtracks : s.stats.backtracks = 0

structure Balances (q : Queue α) (s : Search) : Prop where
  accounted : s.stats.transitions + 1 = s.stats.accounted
  restores : s.stats.restores + (if q.atRoot then 0 else 1) = s.stats.transitions
  backtracks : s.stats.backtracks = 0
  /-- There is something to try in front of the first choice point. -/
  nonempty : q.atRoot = true → q.entries.minEntry? ≠ none
  done : s.done = false

theorem atRoot_expand {q' : Queue α} (h : Heuristic α) (hexpand : q.expand h g s = .ok q' s') :
    q'.atRoot = q.atRoot ∧ s' = s := by
  rw [Queue.expand_apply] at hexpand
  split at hexpand
  · cases hexpand
  · cases hexpand
    refine ⟨?_, rfl⟩
    generalize List.range g.total = is
    induction is generalizing q with
    | nil => rfl
    | cons i is ih => exact ih.trans Queue.atRoot_add

/-- Jumping to a stored state is counted, unless the search is in front of its first choice point. -/
theorem jumpTo_counts (s : Search) (atRoot : Bool) (entry : Entry) :
    (jumpTo s atRoot entry).stats = { s.stats with
      restores := s.stats.restores + if atRoot then 0 else 1 } ∧
    (jumpTo s atRoot entry).done = s.done := by
  unfold jumpTo
  cases atRoot with
  | true => exact ⟨rfl, rfl⟩
  | false =>
    rw [if_neg Bool.false_ne_true]
    exact ⟨stats_restore s entry.snapshot, (Returned.restore s entry.snapshot).task.done⟩

theorem Balances.round (hq : Balances q s) :
    Ends (fun r t => Sum.elim (Balances · t) (fun _ => Balanced t) r) (fun _ => True)
      (round h bound q s) := by
  cases hmin : q.entries.minEntry? with
  | none =>
    rw [round_of_none hmin]
    have hroot : q.atRoot = false := Bool.eq_false_iff.mpr fun hat => hq.nonempty hat hmin
    have hrestores := hq.restores
    rw [hroot] at hrestores
    exact ⟨hq.accounted, hrestores, hq.backtracks⟩
  | some r =>
    obtain ⟨rank, entry⟩ := r
    rw [round_eq h bound hq.done hmin]
    obtain ⟨hjump, hdone⟩ := jumpTo_counts s q.atRoot entry
    cases hforward : forward entry.generator (jumpTo s q.atRoot entry) with
    | error e t =>
      rw [bind_of_error hforward]
      trivial
    | ok e t =>
      obtain ⟨n, -, hmoved⟩ := exists_moved hforward
      rw [bind_of_ok hforward]
      have htallied := arrive_tallied t bound
      unfold look
      generalize t.arrive bound = r at htallied
      obtain ⟨a, s₂⟩ := r
      dsimp only at htallied ⊢
      obtain ⟨htransitions, hbacktracks, hrestores, -, haccounted⟩ :=
        htallied.of_moved (s := s) hjump hmoved
      have haccounted' := hq.accounted
      have hrestores' := hq.restores
      have hall : s₂.stats.transitions + 1 = s₂.stats.accounted := by omega
      have hback : s₂.stats.backtracks = 0 := hbacktracks.trans hq.backtracks
      have hjumps : s₂.stats.restores + 1 = s₂.stats.transitions := by omega
      have hover : a ≠ .stopped → s₂.done = false :=
        htallied.done (hmoved.task.done.trans (hdone.trans hq.done))
      cases a with
      | stopped => exact ⟨hall, hjumps, hback⟩
      | closed => exact ⟨hall, hjumps, hback, nofun, hover nofun⟩
      | opened g =>
        unfold queueAfter
        dsimp only
        cases hexpand : Queue.expand h g
            { q with entries := q.entries.erase rank, atRoot := false } s₂ with
        | error e t =>
          rw [bind_of_error hexpand]
          trivial
        | ok q' t =>
          obtain ⟨hroot, rfl⟩ := atRoot_expand h hexpand
          rw [bind_of_ok hexpand]
          refine ⟨hall, ?_, hback, fun hat => ?_, hover nofun⟩
          · rw [hroot]
            exact hjumps
          · rw [hroot] at hat
            cases hat

theorem search_balanced {root : Generator} (rounds : Nat) (hs : s.Unused)
    (hp : s.machine.pending = some root) :
    Ends (fun _ t => Balanced t) (fun _ => True) (BestFirst.search h rounds s) := by
  unfold search
  rw [get_bind, get_bind, takeChoicePoint_of_some hp]
  dsimp only
  rw [set_bind]
  have hunused : ({ s with machine := { s.machine with pending := none } } : Search).Unused :=
    ⟨hs.stats, hs.visited, hs.done⟩
  obtain ⟨hstats, -, hdone⟩ := hunused.visit root
  generalize (({ s with machine := { s.machine with pending := none } } : Search).visit root).2 = t
    at hstats hdone
  by_cases hempty : root.total = 0
  · rw [bind_of_error (Queue.expand_of_empty _ t hempty)]
    trivial
  · obtain ⟨q, hexpand, hperm, -, hroot⟩ := Queue.expand_eq (h := h) (s := t) (g := root)
      (Queue.numbered_start h.start) (Nat.pos_of_ne_zero hempty)
    rw [bind_of_ok hexpand]
    have hbalances : Balances q t := {
      accounted := by rw [hstats]; rfl
      restores := by rw [hstats, hroot]; rfl
      backtracks := by rw [hstats]
      nonempty := by
        intro _ hmin
        have hlength := hperm.length_eq
        rw [Queue.list_eq_nil hmin] at hlength
        simp only [List.length_nil, List.length_append, List.length_map, List.length_range] at hlength
        omega
      done := hdone }
    exact Loop.run_ends _ (I := Balances) (fun _ _ hq => hq.round) (fun _ _ _ => trivial) rounds
      hbalances

end BestFirst

/-- **The counters of a search balance.** When a search that began at a choice point succeeds, each
state that it has looked at, the first one included, is counted as the end of a path, as a choice
point that was expanded, or as one that was seen before. Depth-first search has gone back for each
choice but the first of each choice point; best-first search has jumped for each choice but its very
first. -/
theorem counters_balance (hm : m.IsReady) (hp : m.pending.isSome = true) (config : SearchConfig)
    (properties : List Property) (listening : Bool) (rounds : Nat) :
    (∀ report s',
      run depthFirst rounds { machine := m, config, properties, listening } = .ok report s' →
        report.stats.transitions + 1 =
          report.stats.paths + report.stats.newStates + report.stats.revisitedStates ∧
        report.stats.transitions = report.stats.backtracks + report.stats.newStates ∧
        report.stats.restores = 0) ∧
    ∀ {α : Type} (h : Heuristic α) report s',
      run (bestFirst h) rounds { machine := m, config, properties, listening } = .ok report s' →
        report.stats.transitions + 1 =
          report.stats.paths + report.stats.newStates + report.stats.revisitedStates ∧
        report.stats.restores + 1 = report.stats.transitions ∧
        report.stats.backtracks = 0 := by
  obtain ⟨root, hroot⟩ := Option.isSome_iff_exists.mp hp
  obtain ⟨s, hs⟩ : ∃ s : Search, s =
      ({ machine := m, config, properties, listening } : Search).tell (.started m.depth) := ⟨_, rfl⟩
  have hmachine : s.machine = m := by rw [hs, machine_tell]
  have hunused : s.Unused := by
    rw [hs]
    exact ⟨stats_tell _ _, visited_tell _ _, done_tell _ _⟩
  have hpending : s.machine.pending = some root := by rw [hmachine, hroot]
  constructor
  · intro report s' hrun
    obtain ⟨t, hsearch, rfl, -⟩ := exists_of_run hrun
    have hsearched : DepthFirst.search rounds s = .ok () t := by
      rw [hs]
      exact hsearch
    have hends := DepthFirst.search_balanced rounds hunused (by rw [hmachine]; exact hm.hostCall)
      hpending (hm.untried root hroot)
    rw [hsearched] at hends
    exact ⟨hends.accounted, hends.moves, hends.restores⟩
  · intro α h report s' hrun
    obtain ⟨t, hsearch, rfl, -⟩ := exists_of_run hrun
    have hsearched : BestFirst.search h rounds s = .ok () t := by
      rw [hs]
      exact hsearch
    have hends := BestFirst.search_balanced (h := h) rounds hunused hpending
    rw [hsearched] at hends
    exact ⟨hends.accounted, hends.restores, hends.backtracks⟩

/-- On paths of up to two choices of the program that picks three values, the counters balance. -/
theorem counters_balance_nondet : ∃ p m rounds report report' s' s'',
    Demo.nondet.run (Program.base .plain) = .ok ((), p) ∧ m.Driven p {} ∧ m.IsReady ∧
      m.pending.isSome = true ∧
      run depthFirst 50 { machine := m, config := { exhaustive with depthLimit := 2 } } =
        .ok report s' ∧
      0 < report.stats.constraintHits ∧
      report.stats.transitions + 1 =
        report.stats.paths + report.stats.newStates + report.stats.revisitedStates ∧
      report.stats.transitions = report.stats.backtracks + report.stats.newStates ∧
      run (bestFirst .breadthFirst) rounds
        { machine := m, config := { exhaustive with depthLimit := 2 } } = .ok report' s'' ∧
      report'.stats.restores + 1 = report'.stats.transitions := by
  obtain ⟨p, m, hbuild, hdriven, htest⟩ := Machine.Driven.exists_of_demo Demo.nondet []
    (fun _ m => m.pending.isSome && m.endsWithin 5 &&
      gives (run depthFirst 50) { machine := m, config := { exhaustive with depthLimit := 2 } }
        fun report _ => decide (0 < report.stats.constraintHits)) (by decide +kernel)
  simp only [Bool.and_eq_true, gives_iff, decide_eq_true_eq] at htest
  obtain ⟨⟨hpending, hends⟩, report, s', hrun, hhits⟩ := htest
  have hm := hdriven.isReady
  obtain ⟨tree, htree⟩ := (Machine.HasFiniteTree.of_endsWithin hends).exists_unfolds
  have htold := Told.tell { machine := m, config := { exhaustive with depthLimit := 2 } }
    (n := .started m.depth) fun _ => by exact nofun
  obtain ⟨t, -, hsearch, -⟩ := BestFirst.search_covers .breadthFirst hm (by rfl) (by rfl) htree
    (Nat.lt_succ_self _) htold
  have hrun' := run_eq_ok (bestFirst .breadthFirst) _
    (s := { machine := m, config := { exhaustive with depthLimit := 2 } }) hm.started hsearch
  obtain ⟨-, hrestores, -⟩ := (counters_balance hm hpending { exhaustive with depthLimit := 2 }
    Property.defaults false _).2 .breadthFirst _ _ hrun'
  obtain ⟨haccounted, hmoves, -⟩ := (counters_balance hm hpending { exhaustive with depthLimit := 2 }
    Property.defaults false 50).1 report s' hrun
  exact ⟨p, m, _, report, _, s', _, hbuild, hdriven, hm, hpending, hrun, hhits, haccounted, hmoves,
    hrun', hrestores⟩

end Search

end Interleave

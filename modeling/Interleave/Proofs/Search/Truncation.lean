import Interleave.Proofs.Search.Lockstep
import Interleave.Proofs.Search.Preorder
import Interleave.Proofs.Search.Violations

/-!
# Stopping early only truncates

A search that stops at the first violation and one that goes on are each compared with the search that
goes on while somebody listens. Whole searches are in step, as their rounds are, and so what the one
has executed is what the other one has executed up to the first violation.
-/

namespace Interleave

open Effect

namespace Search

variable {s s' t t' : Search} {m n : Machine} {listening parting : Bool}

/-! ## Whole searches -/

/-- Two searches that ended in the same way have found the same, and it was a violation only if both
were to go on after it, or to stop. -/
structure Matched (parting listening : Bool) (s t : Search) : Prop
    extends SameFindings listening s t where
  fine : parting = true → ∀ k ∈ t.advanced, k.failures = []

theorem Lockstep.matched (h : Lockstep parting listening s t) : Matched parting listening s t :=
  ⟨h.toSameFindings, fun hp => (h.calm hp).fine⟩

theorem InStep.matched {α : Type} {stop : α} {x y : EStateM.Result SearchFault Search α}
    (h : InStep parting listening (Lockstep parting listening) stop x y) :
    InStep parting listening (Matched parting listening) stop x y :=
  h.imp_left fun hagree => hagree.mono fun _ _ hst => hst.matched

theorem inStep_run {β : Type} {body : β → Action (β ⊕ Unit)} {exhausted : SearchFault}
    (hbody : ∀ b s t, Lockstep parting listening s t →
      RoundInStep parting listening (body b s) (body b t))
    (hongoing : ∀ b s, Ongoing s (body b s)) (rounds : Nat) (b : β)
    (h : Lockstep parting listening s t) :
    InStep parting listening (Lockstep parting listening) ()
      (Loop.run body exhausted rounds b s) (Loop.run body exhausted rounds b t) := by
  induction rounds generalizing b s t with
  | zero => exact .inl (.error h)
  | succ rounds ih =>
    rw [Loop.run_succ, Loop.run_succ]
    rcases hbody b s t h with hagree | ⟨hp, s', hs', hparted⟩
    · generalize body b s = x at hagree
      generalize body b t = y at hagree
      cases hagree with
      | error hst => exact .inl (.error hst)
      | @ok r _ _ hst =>
        cases r with
        | inl b' => exact ih b' hst
        | inr u => exact .inl (.ok hst)
    · rw [hs']
      refine .inr ⟨hp, s', rfl, ?_⟩
      cases hy : body b t with
      | error e t' =>
        rw [hy] at hparted
        exact hparted
      | ok r t' =>
        rw [hy] at hparted
        cases r with
        | inl b' =>
          exact (ongoing_run hongoing rounds b' t').mono (fun _ _ => hparted.grows)
            fun _ => hparted.grows
        | inr u => exact hparted

/-- Without a choice, the searches look at the first state alone. -/
theorem Lockstep.finishWithoutChoice (h : Lockstep parting listening s t) :
    Matched parting listening s.finishWithoutChoice t.finishWithoutChoice := by
  obtain ⟨-, hfindings, -⟩ := h.toAbreast.checkProperties
  have hstats : s.finishWithoutChoice.stats = t.finishWithoutChoice.stats :=
    congrArg (fun c : SearchStats => { c with paths := c.paths + 1 }) hfindings.stats
  refine ⟨⟨hfindings.violations, hstats, hfindings.advanced⟩, fun hp => ?_⟩
  have hadvanced : t.finishWithoutChoice.advanced = t.advanced :=
    (examined_checkProperties t).advanced
  rw [hadvanced]
  exact (h.calm hp).fine

theorem Lockstep.takeRoot (h : Lockstep parting listening s t) :
    Lockstep parting listening { s with machine := { t.machine with pending := none } }
      { t with machine := { t.machine with pending := none } } :=
  h.of_steady ⟨rfl, rfl, rfl, rfl, rfl, rfl, rfl⟩ ⟨rfl, rfl, rfl, rfl, rfl, rfl, rfl⟩
    (h.toAbreast.drive { t.machine with pending := none } id)

theorem Lockstep.visit (h : Lockstep parting listening s t) (g : Generator) :
    Lockstep parting listening (s.visit g).2 (t.visit g).2 :=
  h.of_steady (steady_visit s g) (steady_visit t g) (h.toAbreast.visit g).2

theorem DepthFirst.search_inStep (rounds : Nat) (h : Lockstep parting listening s t) :
    InStep parting listening (Matched parting listening) () (DepthFirst.search rounds s)
      (DepthFirst.search rounds t) := by
  unfold search
  rw [get_bind, get_bind, get_bind, get_bind, h.depthBound]
  cases hp : t.machine.pending with
  | none =>
    rw [takeChoicePoint_of_none hp, takeChoicePoint_of_none (h.machine ▸ hp)]
    exact .inl (.ok h.finishWithoutChoice)
  | some root =>
    rw [takeChoicePoint_of_some hp, takeChoicePoint_of_some (h.machine ▸ hp), h.machine]
    dsimp only
    have hvisited := h.takeRoot.visit root
    unfold branch
    rw [set_bind, set_bind, hvisited.machine]
    exact (inStep_run (fun b _ _ => round_inStep t.depthBound b) (ongoing_round t.depthBound) rounds
      _ hvisited).matched

theorem BestFirst.search_inStep {α : Type} (heuristic : Heuristic α) (rounds : Nat)
    (h : Lockstep parting listening s t) :
    InStep parting listening (Matched parting listening) () (search heuristic rounds s)
      (search heuristic rounds t) := by
  unfold search
  rw [get_bind, get_bind, get_bind, get_bind, h.depthBound]
  cases hp : t.machine.pending with
  | none =>
    rw [takeChoicePoint_of_none hp, takeChoicePoint_of_none (h.machine ▸ hp)]
    exact .inl (.ok h.finishWithoutChoice)
  | some root =>
    rw [takeChoicePoint_of_some hp, takeChoicePoint_of_some (h.machine ▸ hp), h.machine]
    dsimp only
    rw [set_bind, set_bind]
    have hexpand := expand_agree heuristic { memory := heuristic.start } root (h.takeRoot.visit root)
    generalize ({ s with machine := { t.machine with pending := none } } : Search).visit root = c
      at hexpand
    generalize ({ t with machine := { t.machine with pending := none } } : Search).visit root = d
      at hexpand
    cases hc : Queue.expand heuristic root { memory := heuristic.start } c.2 with
    | error e s' =>
      rw [hc] at hexpand
      obtain ⟨t', hd, hst⟩ := hexpand.of_error rfl
      rw [bind_of_error hc, bind_of_error hd]
      exact .inl (.error hst.matched)
    | ok q s' =>
      obtain ⟨t', hd, hst⟩ := hexpand.of_ok hc
      rw [bind_of_ok hc, bind_of_ok hd]
      exact (inStep_run (fun b _ _ => round_inStep heuristic t.depthBound b)
        (ongoing_round heuristic t.depthBound) rounds _ hst).matched

theorem Sampling.search_inStep (rounds : Nat) (h : Lockstep parting listening s t) :
    InStep parting listening (Matched parting listening) () (search rounds s) (search rounds t) := by
  unfold search
  rw [get_bind, get_bind, h.depthBound]
  cases hp : t.machine.pending with
  | none =>
    rw [takeChoicePoint_of_none hp, takeChoicePoint_of_none (h.machine ▸ hp)]
    exact .inl (.ok h.finishWithoutChoice)
  | some root =>
    have hseed : s.config.stopping.seed = t.config.stopping.seed := by rw [h.config]
    rw [takeChoicePoint_of_some hp, takeChoicePoint_of_some (h.machine ▸ hp), h.machine]
    dsimp only
    rw [set_bind, set_bind, show s.config.seed = t.config.seed from hseed]
    exact (inStep_run (fun b _ _ => round_inStep t.depthBound t.machine.snapshot root b)
      (ongoing_round t.depthBound t.machine.snapshot root) rounds _ h.takeRoot).matched

theorem Strategy.IsKnown.inStep {strategy : Strategy} (hstrategy : strategy.IsKnown) (rounds : Nat)
    (h : Lockstep parting listening s t) :
    InStep parting listening (Matched parting listening) ()
      (strategy.run rounds s) (strategy.run rounds t) := by
  cases hstrategy with
  | depthFirst => exact DepthFirst.search_inStep rounds h
  | bestFirst heuristic => exact BestFirst.search_inStep heuristic rounds h
  | sampling => exact Sampling.search_inStep rounds h

theorem Strategy.IsKnown.run_inStep {strategy : Strategy} (hstrategy : strategy.IsKnown)
    (rounds : Nat) (h : Lockstep parting listening s t) :
    Agree (Matched parting listening) (Search.run strategy rounds s) (Search.run strategy rounds t) ∨
      parting = true ∧ ∃ report s', Search.run strategy rounds s = .ok report s' ∧
        report.violations = s'.violations.toList ∧
        Ends (fun _ => Parted listening s') (Parted listening s') (Search.run strategy rounds t) := by
  have htold : ∀ (s : Search) n, (∀ k, n ≠ SearchNotice.advanced k) → Steady s (s.tell n) :=
    fun s n hn => (Told.tell s hn).steady
  have hfinished : ∀ {s t}, Matched parting listening s t → Matched parting listening
      (s.tell (.finished s.stats.transitions)) (t.tell (.finished t.stats.transitions)) := by
    intro s t hst
    have hs := htold s (.finished s.stats.transitions) fun _ => by exact nofun
    have ht := htold t (.finished t.stats.transitions) fun _ => by exact nofun
    refine ⟨⟨by rw [hs.violations, ht.violations, hst.violations], by simp [hst.stats], ?_⟩, ?_⟩
    · rw [hs.advanced, ht.advanced]
      exact hst.advanced
    · rw [ht.advanced]
      exact hst.fine
  have hstarted : Lockstep parting listening (s.tell (.started s.depth)) (t.tell (.started t.depth)) :=
    h.of_steady (htold s _ fun _ => by exact nofun) (htold t _ fun _ => by exact nofun)
      (h.tell (congrArg SearchNotice.started h.toAbreast.depth))
  unfold Search.run
  rw [h.machine]
  split
  · exact .inl (.error h.matched)
  · rcases hstrategy.inStep rounds hstarted with hagree | ⟨hp, s', hs', hparted⟩
    · generalize strategy.run rounds (s.tell (.started s.depth)) = x at hagree
      generalize strategy.run rounds (t.tell (.started t.depth)) = y at hagree
      refine .inl ?_
      cases hagree with
      | error hst => exact .error (hfinished hst)
      | ok hst =>
        have hboth := hfinished hst
        dsimp only
        rw [hboth.stats, hboth.violations]
        exact .ok hboth
    · rw [hs']
      have hs := htold s' (.finished s'.stats.transitions) fun _ => by exact nofun
      refine .inr ⟨hp, _, _, rfl, rfl, ?_⟩
      generalize strategy.run rounds (t.tell (.started t.depth)) = y at hparted
      cases y with
      | error e t' =>
        exact (hparted.steady hs).grows (htold t' _ fun _ => by exact nofun).grows
      | ok u t' => exact (hparted.steady hs).grows (htold t' _ fun _ => by exact nofun).grows

/-! ## Executed choices -/

/-- The choice that led to a state, as its trail has it, and the state. -/
def execution (n : Machine) : Option ChoiceRecord × Machine := (n.path.trail.back?, n)

/-- The choices that a search executes, in their order: the record of each, and the state that it
leads to. -/
def executed (strategy : Strategy) (rounds : Nat) (m : Machine) (config : SearchConfig) :
    List (Option ChoiceRecord × Machine) :=
  (leaves (run strategy rounds { machine := m, config, listening := true })).advanced.map execution

/-- The first state in which something is wrong is the only one of its kind. -/
theorem eq_of_first {α : Type} {P : α → Prop} {xs xs' ys ys' : List α} {x x' : α}
    (h : xs ++ x :: ys = xs' ++ x' :: ys') (hxs : ∀ y ∈ xs, P y) (hx : ¬P x)
    (hxs' : ∀ y ∈ xs', P y) (hx' : ¬P x') : xs = xs' ∧ x = x' := by
  induction xs generalizing xs' with
  | nil =>
    cases xs' with
    | nil =>
      injection h with hhead
      exact ⟨rfl, hhead⟩
    | cons y _ =>
      injection h with hhead
      exact absurd (hxs' y List.mem_cons_self) (hhead ▸ hx)
  | cons y ys₁ ih =>
    cases xs' with
    | nil =>
      injection h with hhead
      exact absurd (hxs y List.mem_cons_self) (hhead ▸ hx')
    | cons y' ys₁' =>
      injection h with hhead htail
      obtain ⟨rfl, rfl⟩ := ih htail (fun z hz => hxs z (List.mem_cons_of_mem _ hz))
        fun z hz => hxs' z (List.mem_cons_of_mem _ hz)
      exact ⟨by rw [hhead], rfl⟩

/-- What the search that is over has executed ends with the first violation of the other one. -/
theorem Parted.eq_of_executed {before after : List (Option ChoiceRecord × Machine)}
    {x : Option ChoiceRecord × Machine} (h : Parted listening s t)
    (hx : t.advanced.map execution = before ++ x :: after)
    (hbefore : ∀ y ∈ before, y.2.failures = []) (hfails : x.2.failures ≠ []) :
    s.violations.toList = x.2.failures ∧
      (listening = true → s.advanced.map execution = before ++ [x]) := by
  obtain ⟨fine, n, ⟨rest, hrest⟩, hfine, hn, hviolations, hadvanced⟩ := h
  have hmap : fine.map execution ++ execution n :: rest.map execution = before ++ x :: after := by
    rw [← hx, ← hrest]
    simp
  have hfine' : ∀ y ∈ fine.map execution, y.2.failures = [] := by
    intro y hy
    obtain ⟨k, hk, rfl⟩ := List.mem_map.mp hy
    exact hfine k hk
  obtain ⟨hbefore', rfl⟩ := eq_of_first (P := fun y => y.2.failures = []) hmap hfine' hn hbefore
    hfails
  refine ⟨hviolations, fun hl => ?_⟩
  rw [hadvanced hl, ← hbefore']
  simp

/-- **Stopping early only truncates.** If nothing is wrong in any state that a search reaches when it
goes on after violations, the search that stops at them is the same and reports the same. Otherwise
the search that stops executes the same choices up to the first one that leads to where something is
wrong, and reports what is wrong there. -/
theorem stopping_truncates {strategy : Strategy} (hstrategy : strategy.IsKnown) (m : Machine)
    (config : SearchConfig) (rounds : Nat) :
    ((∀ x ∈ executed strategy rounds m config.lasting, x.2.failures = []) →
      executed strategy rounds m config.stopping = executed strategy rounds m config.lasting ∧
      ∀ listening, Agree (fun s t => s.stats = t.stats ∧ s.violations = t.violations)
        (run strategy rounds { machine := m, config := config.stopping, listening })
        (run strategy rounds { machine := m, config := config.lasting, listening })) ∧
    ∀ before x after, executed strategy rounds m config.lasting = before ++ x :: after →
      (∀ y ∈ before, y.2.failures = []) → x.2.failures ≠ [] →
      executed strategy rounds m config.stopping = before ++ [x] ∧
      ∀ listening, ∃ report s',
        run strategy rounds { machine := m, config := config.stopping, listening } = .ok report s' ∧
        report.violations = x.2.failures := by
  -- both are compared with the search that goes on, while somebody listens
  obtain ⟨z, hz⟩ : ∃ z, z =
      run strategy rounds { machine := m, config := config.lasting, listening := true } := ⟨_, rfl⟩
  have hnone : ∀ k ∈ ({ machine := m, config := config.lasting, listening := true } : Search).advanced,
      k.failures = [] := fun k hk => absurd hk List.not_mem_nil
  have hstopping : ∀ listening,
      Agree (Matched true listening)
        (run strategy rounds { machine := m, config := config.stopping, listening }) z ∨
      ∃ report s', run strategy rounds { machine := m, config := config.stopping, listening } =
          .ok report s' ∧ report.violations = s'.violations.toList ∧
        Parted listening s' (leaves z) := by
    intro listening
    have hlockstep : Lockstep true listening
        { machine := m, config := config.stopping, listening }
        { machine := m, config := config.lasting, listening := true } := by
      refine ⟨⟨⟨rfl, rfl, fun _ => rfl⟩, rfl, rfl, rfl, rfl, rfl, rfl, rfl, rfl⟩, rfl, nofun, nofun,
        fun _ => ⟨rfl, rfl, rfl, hnone⟩⟩
    rcases hstrategy.run_inStep rounds hlockstep with hagree | ⟨-, report, s', hs', hreport, hparted⟩
    · exact .inl (hz ▸ hagree)
    · exact .inr ⟨report, s', hs', hreport, hz ▸ hparted.leaves⟩
  have hlasting : ∀ listening, Agree (Matched false listening)
      (run strategy rounds { machine := m, config := config.lasting, listening }) z := by
    intro listening
    have hlockstep : Lockstep false listening
        { machine := m, config := config.lasting, listening }
        { machine := m, config := config.lasting, listening := true } := by
      refine ⟨⟨⟨rfl, rfl, fun _ => rfl⟩, rfl, rfl, rfl, rfl, rfl, rfl, rfl, rfl⟩, rfl, nofun,
        fun _ => rfl, nofun⟩
    rcases hstrategy.run_inStep rounds hlockstep with hagree | ⟨hp, -⟩
    · exact hz ▸ hagree
    · cases hp
  have hexecuted : executed strategy rounds m config.lasting = (leaves z).advanced.map execution := by
    rw [hz]
    rfl
  constructor
  · intro hfine
    have hagree : ∀ listening, Agree (Matched true listening)
        (run strategy rounds { machine := m, config := config.stopping, listening }) z := by
      intro listening
      rcases hstopping listening with hagree | ⟨-, s', -, -, fine, n, ⟨rest, hrest⟩, -, hn, -⟩
      · exact hagree
      · refine absurd (hfine (execution n) ?_) hn
        rw [hexecuted, ← hrest]
        exact List.mem_map_of_mem (by simp)
    refine ⟨?_, fun listening => ?_⟩
    · rw [hexecuted]
      exact congrArg (List.map execution) ((hagree true).leaves.advanced rfl)
    · refine (hagree listening).comp (hlasting listening) fun s t u hs ht => ⟨?_, ?_⟩
      · rw [hs.stats, ht.stats]
      · rw [hs.violations, ht.violations]
  · intro before x after hx hbefore hfails
    rw [hexecuted] at hx
    -- the two do not agree throughout, since `x` is among what the other one has executed
    have hparted : ∀ listening, ∃ report s',
        run strategy rounds { machine := m, config := config.stopping, listening } = .ok report s' ∧
          report.violations = s'.violations.toList ∧ Parted listening s' (leaves z) := by
      intro listening
      refine (hstopping listening).resolve_left fun hagree => hfails ?_
      have hmem : x ∈ (leaves z).advanced.map execution := by
        rw [hx]
        simp
      obtain ⟨n, hn, rfl⟩ := List.mem_map.mp hmem
      exact hagree.leaves.fine rfl n hn
    constructor
    · obtain ⟨_, s', hs', -, h⟩ := hparted true
      unfold executed
      rw [hs']
      exact (h.eq_of_executed hx hbefore hfails).2 rfl
    · intro listening
      obtain ⟨report, s', hs', hreport, h⟩ := hparted listening
      exact ⟨report, s', hs', hreport.trans (h.eq_of_executed hx hbefore hfails).1⟩

/-- Depth first, the program that picks three values is searched until an assertion fails. The search
that goes on after that executes more choices. -/
theorem stopping_truncates_nondet : ∃ p m before x after report s',
    Demo.nondet.run (Program.base .plain) = .ok ((), p) ∧ m.Driven p {} ∧ depthFirst.IsKnown ∧
      executed depthFirst 60 m exhaustive.lasting = before ++ x :: after ∧ after ≠ [] ∧
      x.2.failures ≠ [] ∧ executed depthFirst 60 m exhaustive.stopping = before ++ [x] ∧
      run depthFirst 60 { machine := m, config := exhaustive.stopping } = .ok report s' ∧
      report.violations = x.2.failures := by
  obtain ⟨p, m, hbuild, hdriven, htest⟩ := Machine.Driven.exists_of_demo Demo.nondet []
    (fun _ m =>
      ((executed depthFirst 60 m exhaustive.lasting).find? (!·.2.failures.isEmpty)).isSome &&
        decide ((executed depthFirst 60 m exhaustive.stopping).length <
          (executed depthFirst 60 m exhaustive.lasting).length)) (by decide +kernel)
  simp only [Bool.and_eq_true, decide_eq_true_eq] at htest
  obtain ⟨hfound, hlength⟩ := htest
  obtain ⟨x, hfound⟩ := Option.isSome_iff_exists.mp hfound
  obtain ⟨hfails, before, after, hexecuted, hbefore⟩ := List.find?_eq_some_iff_append.mp hfound
  replace hfails : x.2.failures ≠ [] := by simpa using hfails
  replace hbefore : ∀ y ∈ before, y.2.failures = [] := by simpa using hbefore
  obtain ⟨hstopping, hruns⟩ := (stopping_truncates .depthFirst m exhaustive 60).2 before x after
    hexecuted hbefore hfails
  obtain ⟨report, s', hrun, hreport⟩ := hruns false
  refine ⟨p, m, before, x, after, report, s', hbuild, hdriven, .depthFirst, hexecuted, ?_, hfails,
    hstopping, hrun, hreport⟩
  rintro rfl
  rw [hstopping, hexecuted] at hlength
  exact Nat.lt_irrefl _ hlength

end Search

end Interleave

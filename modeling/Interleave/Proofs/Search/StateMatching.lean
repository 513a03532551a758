import Interleave.Proofs.Programs
import Interleave.Proofs.Search.ChoiceTree
import Interleave.Proofs.Search.Exhaustion

/-!
# State matching is sound and complete

A search that matches states expands one choice point for each key, and tries each of its choices
once. It comes to an end if there are only finitely many keys, however long paths may become; and
what is wrong anywhere, it finds.
-/

namespace Interleave

open Effect

namespace Machine

variable {p : Program} {config : Config} {stub : Method} {m n : Machine} {g g' : Generator} {i : Nat}
  {e : TransitionEnd}

/-- Where a choice leads back to the key of its own choice point, paths have no end. -/
theorem Led.not_hasFiniteTree (hm : Led p config stub m) (hw : p.WellFormed)
    (hp : p.HasNoInitializers) (hg : m.pending = some g) (hi : i < g.total)
    (h : m.transition (g.select i).2 = .ok e n) (hg' : n.pending = some g')
    (hkey : n.key g' = m.key g) : ¬ m.HasFiniteTree := by
  intro htree
  induction htree generalizing n g' e with
  | @intro m _ _ _ ih =>
    -- the same choice leads on from there, to the same key
    have hn := hm.follows ⟨hg, hi, h⟩
    obtain ⟨rfl, -⟩ := hm.alike hw hp.lone hn hg hg' hkey.symm
    obtain ⟨n', hn', halike⟩ := hm.same_future hw hp.lone hn hg hg' hkey.symm h
    exact ih g i e n hg hi h hn hg' hn' (halike.pending ▸ hg') (halike.key g).symm

end Machine

namespace Search

/-- The strategies that expand choice points. -/
inductive Strategy.Expands : Strategy → Prop where
  | depthFirst : Expands depthFirst
  | bestFirst {α : Type} (h : Heuristic α) : Expands (bestFirst h)

/-- A search that began in the state `m` has expanded the points and tried the choices, in this
order, and nothing is left. -/
structure Exhausted (m : Machine) (points : List Point) (tried : List Pick) (s : Search) : Prop where
  /-- The points are reached. -/
  reached : ∀ x ∈ points, m.Reaches x.state ∧ x.state.pending = some x.generator
  /-- No key occurs twice. -/
  distinct : (points.map Point.key).Nodup
  /-- Every key occurs. -/
  keys : ∀ k, k ∈ points.map Point.key ↔ k ∈ m.keys
  /-- The keys are those of the choice points that were expanded. -/
  visited : ∀ k, k ∈ s.visited ↔ k ∈ m.keys
  /-- So many choice points were expanded. -/
  newStates : s.stats.newStates = points.length
  /-- Each choice of each point was tried once. -/
  picks : tried.Perm (points.flatMap Point.picks)
  /-- So many transitions were run. -/
  transitions : s.stats.transitions = tried.length
  /-- They led to the states behind the choices. -/
  advanced : s.listening = true →
    List.Forall₂ (Machine.Alike True) s.advanced (tried.map Pick.target)
  /-- What is wrong there was found. -/
  violations : s.violations.toList = tried.flatMap (·.target.failures)

theorem Exhausted.told {m : Machine} {points : List Point} {tried : List Pick} {s s' : Search}
    (h : Exhausted m points tried s) (htold : Told s s') : Exhausted m points tried s' where
  reached := h.reached
  distinct := h.distinct
  keys := h.keys
  visited := by rw [htold.visited]; exact h.visited
  newStates := by rw [htold.stats, h.newStates]
  picks := h.picks
  transitions := by rw [htold.stats, h.transitions]
  advanced := by rw [htold.task.listening, htold.advanced]; exact h.advanced
  violations := by rw [htold.violations, h.violations]

variable {p : Program} {config : Config} {observed : Bool} {name : String} {m : Machine}

/-- When no choice is left, the search has expanded every key once, and has found what is wrong
anywhere behind a choice. -/
theorem Progress.exhausted {stub : Method} {start s : Search} {points : List Point}
    {tried : List Pick} (hw : p.WellFormed) (hp : p.HasNoInitializers)
    (hled : start.machine.Led p config stub) (hfails : start.machine.NeverFails)
    (h : Progress start s points tried []) : Exhausted start.machine points tried s where
  reached := h.reached
  distinct := h.distinct
  keys _ := (h.closed hfails).keys_eq hw hp hled
  visited k := (h.visited k).trans ((h.closed hfails).keys_eq hw hp hled)
  newStates := h.newStates
  picks := by simpa using h.picks
  transitions := h.transitions
  advanced := h.advanced
  violations := h.violations

/-- **State matching is sound and complete.** Take a program without class initializers whose
choices lead on without faults, and with finitely many keys. Depth-first search and best-first
search by any heuristic, begun at its start without a depth limit and going on after violations,
succeed under every large enough bound on their rounds. They expand one choice point for each key
that choices lead to, and try each of its choices once; and they report what is wrong, by the
default properties, in the states that any choices lead to, and nothing else. -/
theorem stateMatching_exhausts (hp : p.Built) (hno : p.HasNoInitializers)
    (hstart : Machine.start name (Machine.new p config observed) = .ok () m)
    (hfails : m.NeverFails) (hfinite : m.keys.Finite) {strategy : Strategy}
    (hstrategy : strategy.Expands) (task : SearchConfig) (hlimit : task.depthLimit = 0)
    (hmatching : task.stateMatching = true) (hstop : task.stopOnFirstError = false)
    (listening : Bool) :
    ∃ bound report s' points tried,
      (∀ rounds, bound < rounds →
        run strategy rounds { machine := m, config := task, listening } = .ok report s') ∧
      Exhausted m points tried s' ∧ s'.listening = listening ∧
      report.stats = s'.stats ∧ report.violations = s'.violations.toList ∧
      ∀ pair, pair ∈ report.violations.map (fun v => (v.property, v.message)) ↔
        ∃ n, m.Reaches n ∧ pair ∈ n.messages := by
  obtain ⟨stub, hled⟩ := Machine.Led.exists_of_start hstart
  obtain ⟨-, -, hready, -, hpending⟩ := Machine.start_eq_ok hstart
  have hbounded : Bounded { machine := m, config := task, listening } hfinite.toFinset := {
    config := hstop
    properties := rfl
    done := rfl
    checked := nofun
    matching := hmatching
    unlimited := hlimit
    ready := hready
    fails := hfails
    keys := fun k hk => hfinite.mem_toFinset.mpr hk }
  have htold := Told.tell { machine := m, config := task, listening } (n := .started m.depth)
    fun _ => by exact nofun
  obtain ⟨bound, s', hrun, points, tried, hprogress⟩ : ∃ bound s', (∀ rounds, bound < rounds →
      strategy.run rounds (({ machine := m, config := task, listening } : Search).tell
        (.started m.depth)) = .ok () s') ∧
      ∃ points tried, Progress { machine := m, config := task, listening } s' points tried [] := by
    cases hstrategy with
    | depthFirst => exact DepthFirst.exhausts hbounded hpending htold
    | bestFirst h => exact BestFirst.exhausts h hbounded hpending htold
  have hclosed := hprogress.closed hfails
  have hexhausted := hprogress.exhausted hp.wellFormed hno hled hfails
  have hfinished := Told.tell s' (n := .finished s'.stats.transitions) fun _ => by exact nofun
  refine ⟨bound, _, _, points, tried, fun rounds hrounds => run_eq_ok _ _ hready.started
    (hrun rounds hrounds), hexhausted.told hfinished,
    hfinished.task.listening.trans hprogress.task.listening, hfinished.stats.symm, ?_, ?_⟩
  · rw [hfinished.violations]
  · intro pair
    rw [hclosed.mem_messages hp.wellFormed hno hled, Machine.messages_of_start hstart]
    show pair ∈ s'.violations.toList.map _ ↔ _
    rw [hexhausted.violations, List.map_flatMap]
    simp only [List.not_mem_nil, false_or, List.mem_flatMap]
    constructor
    · rintro ⟨k, hk, hpair⟩
      obtain ⟨x, hx, hkx⟩ := List.mem_flatMap.mp (hexhausted.picks.mem_iff.mp hk)
      exact ⟨x, hx, k, hkx, hpair⟩
    · rintro ⟨x, hx, k, hk, hpair⟩
      exact ⟨k, hexhausted.picks.mem_iff.mpr (List.mem_flatMap.mpr ⟨x, hx, hk⟩), hpair⟩

/-- The code of a main method that picks a value in [0, 2] again and again, and asserts each time
that it is not 2. -/
def pickAgain (a : Assembly) : Assembly :=
  let (again, a) := a.newLabel
  let a := (((a.bind again).iconst 0).iconst 2).invoke .invokeStatic "demo/Verify" "randomInt"
    "(II)I"
  let a := ((a.onLocal .iStore 0).onLocal .iLoad 0).iconst 2
  (Demo.assertBranch .ifICmpNe "value is not 2" a).branch .goto again

/-- A program that picks values without end. -/
def endless : Demo.Build Unit := do
  let main ← Demo.declareMain []
  Demo.defineSource
  Demo.define main "main" Demo.mainModifiers 1 pickAgain

theorem keepsBuilt_endless : Demo.Keeps Program.Built endless :=
  (Demo.keepsBuilt_declare _).bind fun _ => Demo.keepsBuilt_defineSource.bind fun _ =>
    Demo.keepsBuilt_define _ _ _ _ _

/-- The program that picks values without end has endless paths, but only finitely many keys. So the
search comes to an end, and it finds that the assertion fails. -/
theorem stateMatching_exhausts_endless : ∃ p m bound report s' points tried,
    endless.run (Program.base .plain) = .ok ((), p) ∧ p.Built ∧ p.HasNoInitializers ∧
      Machine.start Demo.mainClass (Machine.new p {} false) = .ok () m ∧ m.NeverFails ∧
      m.keys.Finite ∧ ¬ m.HasFiniteTree ∧
      run depthFirst (bound + 1) { machine := m, config := { stopOnFirstError := false } } =
        .ok report s' ∧ Exhausted m points tried s' ∧
      ("no-uncaught-exceptions", "uncaught java.lang.AssertionError in T0: value is not 2") ∈
        report.violations.map fun v => (v.property, v.message) := by
  obtain ⟨p, m, hbuild, hstart, htest⟩ := Machine.exists_start_of_demo endless
    (fun p m => decide p.HasNoInitializers &&
      isClosed m (pointsAt m [[], [0], [0, 1]]) &&
      gives (Machine.follow [0, 2]) m (fun _ n => decide (("no-uncaught-exceptions",
        "uncaught java.lang.AssertionError in T0: value is not 2") ∈ n.messages)) &&
      (pointsAt m [[0]]).any fun x => decide (0 < x.generator.total) &&
        gives (Machine.transition (x.generator.select 0).2) x.state fun _ n =>
          n.pending.any fun g => decide (n.key g = x.key)) (by decide +kernel)
  simp only [Bool.and_eq_true, decide_eq_true_eq, List.any_eq_true, Option.any_eq_true,
    gives_iff] at htest
  obtain ⟨⟨⟨hno, hclosed⟩, _, y, hfollow, hmessage⟩, x, hx, htotal, e, n, hn, g, hg, hkey⟩ := htest
  have hp : p.Built := keepsBuilt_endless (.base .plain) hbuild
  obtain ⟨stub, hled⟩ := Machine.Led.exists_of_start hstart
  have hready := hled.toIsReady
  obtain ⟨hclosed, hpos⟩ := Closed.of_isClosed hready hclosed
  have hfails := hclosed.neverFails hp.wellFormed hno hled hpos
  have hfinite := hclosed.finite_keys hp.wellFormed hno hled
  obtain ⟨hreached, hpending⟩ := mem_pointsAt hready hx
  have hendless := (hled.reaches hreached).not_hasFiniteTree hp.wellFormed hno hpending htotal hn
    hg hkey
  obtain ⟨bound, report, s', points, tried, hrun, hexhausted, -, -, -, hpairs⟩ :=
    stateMatching_exhausts hp hno hstart hfails hfinite .depthFirst { stopOnFirstError := false }
      rfl rfl rfl false
  exact ⟨p, m, bound, report, s', points, tried, hbuild, hp, hno, hstart, hfails, hfinite,
    fun htree => hendless (htree.reaches hreached), hrun _ (Nat.lt_succ_self _), hexhausted,
    (hpairs _).mpr ⟨y, hready.reaches_follow hfollow, hmessage⟩⟩

end Search

end Interleave

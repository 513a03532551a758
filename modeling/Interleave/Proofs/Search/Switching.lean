import Interleave.Proofs.Generators
import Interleave.Proofs.Machine.Stops
import Interleave.Proofs.Search.Ledger

/-!
# What the preference for switches counts

The priority of a choice is the number of choices among threads that kept the thread. It is found in
two ways: for the choice that is queued by looking at the thread that runs, and for the choices on
the path, which are known from the trail alone, by looking at the thread that was chosen last. The
two agree as long as the thread that was chosen last is the one that runs.

A transition may hand over to another thread, where the running one cannot go on and just one other
can. The trail says nothing of that, so behind it a choice that keeps the running thread is counted
when it is queued and not counted afterwards.
-/

namespace Interleave

open Effect Relation

/-! ## Trails -/

namespace Search.Heuristic

/-- The thread that is chosen last, beginning with the last one chosen so far. -/
def lastAfter (last : Option ThreadId) : List ChoiceRecord → Option ThreadId
  | [] => last
  | r :: rs =>
    match r.choice with
    | .thread t => lastAfter (some t) rs
    | _ => lastAfter last rs

/-- The thread that was chosen last on the current path. -/
def lastChosen (m : Machine) : Option ThreadId := lastAfter none m.path.trail.toList

/-- Does a choice repeat the last one among threads? -/
def repeats (m : Machine) : Choice → Nat
  | .thread t => if lastChosen m = some t then 1 else 0
  | _ => 0

variable {m m' : Machine} {last : Option ThreadId} {r : ChoiceRecord} {rs ss : List ChoiceRecord}

theorem lastAfter_append : lastAfter last (rs ++ ss) = lastAfter (lastAfter last rs) ss := by
  induction rs generalizing last with
  | nil => rfl
  | cons r rs ih => cases hc : r.choice <;> simp only [List.cons_append, lastAfter, hc, ih]

theorem keptAfter_append :
    keptAfter last (rs ++ ss) = keptAfter last rs + keptAfter (lastAfter last rs) ss := by
  induction rs generalizing last with
  | nil => exact (Nat.zero_add _).symm
  | cons r rs ih =>
    cases hc : r.choice <;> simp only [List.cons_append, keptAfter, lastAfter, hc, ih, Nat.add_assoc]

/-- The choice that is added to a trail counts if it repeats the last one. -/
theorem keptThread_of_push (h : m'.path.trail = m.path.trail.push r) :
    keptThread m' = keptThread m + repeats m r.choice := by
  unfold keptThread
  rw [h, Array.toList_push, keptAfter_append]
  cases hc : r.choice with
  | thread t => simp only [keptAfter, hc]; rfl
  | _ => simp only [keptAfter, repeats, hc]

theorem lastChosen_of_push (h : m'.path.trail = m.path.trail.push r) :
    lastChosen m' = match r.choice with
      | .thread t => some t
      | _ => lastChosen m := by
  unfold lastChosen
  rw [h, Array.toList_push, lastAfter_append]
  cases hc : r.choice <;> simp [lastAfter, hc]

end Search.Heuristic

/-! ## Transitions that hand over -/

namespace Machine

variable {m m' : Machine} {g : Generator} {c : Choice} {e : TransitionEnd} {xs : List Performed}

/-- A transition begins with the thread that the choice lets run. -/
theorem Transits.relay (h : Transits g m xs e m') (hc : g.current = some c) :
    Relay m.kernel (m.runner c) xs m'.kernel m'.current := by
  obtain ⟨c', hc', hplays⟩ := h.plays
  obtain rfl : c = c' := Option.some.inj (hc.symm.trans hc')
  have hsame : SameState (m.withChoice g c) (m.begin g c) := SameState.modifyScratch _ _ _
  have hkernel : (m.begin g c).kernel = m.kernel := hsame.kernel
  have hrunner : (m.begin g c).current = m.runner c := by
    unfold current
    rw [hsame.path]
    cases c <;> rfl
  have hrelay := hplays.relay
  rw [hkernel, hrunner] at hrelay
  exact hrelay

/-- In one of these states a thread that cannot go on has handed over to the only one that can. -/
def HandsOver (ks : List Kernel) : Prop :=
  ∃ k ∈ ks, ∃ t u, t ≠ u ∧ ¬ k.Runs t ∧ k.runnable = [u]

/-- If another thread runs in the end, there has been a handover. -/
theorem Relay.handsOver {k k' : Kernel} {t u : ThreadId} (h : Relay k t xs k' u) (hne : t ≠ u) :
    HandsOver (states xs k') := by
  induction h with
  | nil keeps =>
    rcases keeps with rfl | ⟨hidle, honly⟩
    · exact absurd rfl hne
    · exact ⟨_, List.mem_singleton_self _, _, _, hne, hidle, honly⟩
  | @cons k t u x xs k' before keeps rest ih =>
    rcases keeps with hsame | ⟨hidle, honly⟩
    · obtain ⟨n, hn, hover⟩ := ih (hsame ▸ hne)
      exact ⟨n, List.mem_cons_of_mem _ hn, hover⟩
    · by_cases hthread : t = x.thread
      · obtain ⟨n, hn, hover⟩ := ih (hthread ▸ hne)
        exact ⟨n, List.mem_cons_of_mem _ hn, hover⟩
      · exact ⟨k, before ▸ List.mem_cons_self, t, x.thread, hthread, hidle, honly⟩

end Machine

namespace Search

open Heuristic

/-! ## Paths -/

/-- The choice that is taken. -/
def Pick.choice? (k : Pick) : Option Choice := k.point.generator.domain.get? k.index

/-- Does the choice keep the thread that runs? -/
def Pick.keeps (k : Pick) : Nat := (k.choice?.map (Heuristic.keeps k.point.state)).getD 0

/-- Does the choice repeat the last one among threads? -/
def Pick.repeats (k : Pick) : Nat := (k.choice?.map (Heuristic.repeats k.point.state)).getD 0

/-- Where the transition stops, the thread runs that the choice lets run. -/
def Pick.Stays (k : Pick) : Prop :=
  ∀ c, k.choice? = some c → k.target.current = k.point.state.runner c

/-- The choices lead from one state to another, each one from where the one before has led. -/
inductive Takes (m : Machine) : List Pick → Machine → Prop where
  | nil : Takes m [] m
  | concat {path : List Pick} {k : Pick} (before : Takes m path k.point.state)
    (taken : k.IsTaken m) : Takes m (path ++ [k]) k.target

/-- How many choices on a path kept the thread that was running. Before the first choice none was. -/
def keptRunning (path : List Pick) : Nat := sumOf (path.tail.map Pick.keeps)

variable {m n : Machine} {k : Pick} {path : List Pick}

theorem Takes.reaches (h : Takes m path n) : m.Reaches n := by
  cases h with
  | nil => exact .refl
  | concat before taken => exact taken.reaches_target

/-- A path goes on with a choice that leads on. -/
theorem Takes.extend {g : Generator} {i : Nat} {e : TransitionEnd} {n' : Machine}
    (h : Takes m path n) (hg : n.pending = some g) (hi : i < g.total)
    (htransition : n.transition (g.select i).2 = .ok e n') :
    Pick.IsTaken m ⟨⟨n, g⟩, i⟩ ∧ Pick.target ⟨⟨n, g⟩, i⟩ = n' ∧
      Takes m (path ++ [⟨⟨n, g⟩, i⟩]) n' := by
  have htarget : Pick.target ⟨⟨n, g⟩, i⟩ = n' := Pick.target_eq htransition
  have htaken : Pick.IsTaken m ⟨⟨n, g⟩, i⟩ :=
    ⟨h.reaches, hg, hi, e, htarget.symm ▸ htransition⟩
  exact ⟨htaken, htarget, htarget ▸ .concat h htaken⟩

/-- Choices that lead somewhere take a path. -/
theorem exists_takes (h : m.Reaches n) : ∃ path, Takes m path n := by
  induction h with
  | refl => exact ⟨[], .nil⟩
  | tail _ hlast ih =>
    obtain ⟨path, hpath⟩ := ih
    obtain ⟨hg, hi, htransition⟩ := hlast
    exact ⟨_, (hpath.extend hg hi htransition).2.2⟩

theorem Pick.IsTaken.current_select (h : k.IsTaken m) : ∃ c, k.choice? = some c ∧
    (k.point.generator.select k.index).2.current = some c := by
  obtain ⟨c, hc, -, hcurrent⟩ := Generator.current_select h.index
  exact ⟨c, hc, hcurrent⟩

/-- The choice is added to the trail. -/
theorem Pick.IsTaken.trail (hm : m.IsReady) (h : k.IsTaken m) : ∃ c r, k.choice? = some c ∧
    r.choice = c ∧ k.target.path.trail = k.point.state.path.trail.push r := by
  obtain ⟨c, hc, hcurrent⟩ := h.current_select
  obtain ⟨e, htransition⟩ := h.transition
  obtain ⟨-, c', hc', htrail⟩ :=
    Machine.transition_trail (hm.reaches h.reached).hostCall htransition
  obtain rfl : c = c' := Option.some.inj (hcurrent.symm.trans hc')
  exact ⟨c, _, hc, rfl, htrail⟩

theorem Pick.IsTaken.keptThread (hm : m.IsReady) (h : k.IsTaken m) :
    keptThread k.target = keptThread k.point.state + k.repeats := by
  obtain ⟨c, r, hc, rfl, htrail⟩ := h.trail hm
  rw [keptThread_of_push htrail, Pick.repeats, hc]
  rfl

theorem Pick.IsTaken.lastChosen (hm : m.IsReady) (h : k.IsTaken m) (hstays : k.Stays)
    (hknown : (∃ t, k.choice? = some (.thread t)) ∨
      lastChosen k.point.state = some k.point.state.current) :
    lastChosen k.target = some k.target.current := by
  obtain ⟨c, r, hc, rfl, htrail⟩ := h.trail hm
  rw [lastChosen_of_push htrail, hstays r.choice hc]
  cases hr : r.choice with
  | thread t => rfl
  | _ =>
    rcases hknown with ⟨t, ht⟩ | hknown
    · rw [hc, hr] at ht
      cases ht
    · exact hknown

/-- A transition that stops with another thread than it began with has handed over. -/
theorem Pick.IsTaken.stays_or_handsOver (hm : m.IsReady) (h : k.IsTaken m) : k.Stays ∨
    ∃ xs e, Machine.Transits (k.point.generator.select k.index).2 k.point.state xs e k.target ∧
      Machine.HandsOver (Machine.states xs k.target.kernel) := by
  obtain ⟨c, hc, hcurrent⟩ := h.current_select
  obtain ⟨e, htransition⟩ := h.transition
  obtain ⟨xs, htransits⟩ :=
    Machine.exists_transits (hm.reaches h.reached).hostCall htransition
  by_cases hsame : k.point.state.runner c = k.target.current
  · refine .inl fun c' hc' => ?_
    obtain rfl : c = c' := Option.some.inj (hc.symm.trans hc')
    exact hsame.symm
  · exact .inr ⟨xs, e, htransits, (htransits.relay hcurrent).handsOver hsame⟩

/-- A choice of a thread keeps the running one just when it repeats the last one, if the thread is
both of these or neither. -/
theorem Pick.keeps_eq_repeats_iff {t : ThreadId} (hc : k.choice? = some (.thread t)) :
    k.keeps = k.repeats ↔
      (t = k.point.state.current ↔ lastChosen k.point.state = some t) := by
  have hkeeps : k.keeps = if t = k.point.state.current then 1 else 0 := by
    rw [Pick.keeps, hc]
    rfl
  have hrepeats : k.repeats = if lastChosen k.point.state = some t then 1 else 0 := by
    rw [Pick.repeats, hc]
    rfl
  rw [hkeeps, hrepeats]
  by_cases hruns : t = k.point.state.current <;>
    by_cases hchosen : lastChosen k.point.state = some t <;> simp [hruns, hchosen]

/-- If the thread that was chosen last runs, to repeat the choice is to keep the thread. -/
theorem Pick.repeats_eq_keeps (h : lastChosen k.point.state = some k.point.state.current) :
    k.repeats = k.keeps := by
  cases hc : k.choice? with
  | none => rw [Pick.repeats, Pick.keeps, hc]; rfl
  | some c =>
    cases c with
    | thread t =>
      refine ((Pick.keeps_eq_repeats_iff hc).mpr ?_).symm
      rw [h, Option.some.injEq, eq_comm]
    | _ => rw [Pick.repeats, Pick.keeps, hc]; rfl

/-! ## What is counted along a path -/

theorem Takes.isTaken (h : Takes m path n) : ∀ k ∈ path, k.IsTaken m := by
  induction h with
  | nil => exact fun k hk => absurd hk List.not_mem_nil
  | concat before taken ih =>
    intro k hk
    rcases List.mem_append.mp hk with hbefore | hlast
    · exact ih k hbefore
    · rw [List.mem_singleton.mp hlast]
      exact taken

/-- The trail counts the choices that repeat the one before. -/
theorem Takes.keptThread (hm : m.IsReady) (hnew : m.path.trail = #[]) (h : Takes m path n) :
    keptThread n = sumOf (path.map Pick.repeats) := by
  induction h with
  | nil =>
    unfold Heuristic.keptThread
    rw [hnew]
    rfl
  | concat before taken ih =>
    rw [taken.keptThread hm, ih, List.map_append, sumOf_append]
    rfl

theorem keptRunning_concat (hne : path ≠ []) :
    keptRunning (path ++ [k]) = keptRunning path + k.keeps := by
  unfold keptRunning
  rw [List.tail_append_of_ne_nil hne, List.map_append, sumOf_append]
  rfl

/-- Where transitions stop with the threads that they began with, the thread that was chosen last
runs, and the trail counts the choices that kept the thread. -/
theorem Takes.steady {id : String} {ts : List ThreadId} (hm : m.IsReady)
    (hnew : m.path.trail = #[]) (hroot : m.pending = some (.ofThreads id ts)) (h : Takes m path n)
    (hstays : ∀ k ∈ path, k.Stays) : path = [] ∧ n = m ∨
      path ≠ [] ∧ lastChosen n = some n.current ∧ Heuristic.keptThread n = keptRunning path := by
  induction h with
  | nil => exact .inl ⟨rfl, rfl⟩
  | @concat path k before taken ih =>
    have hlast : k.Stays := hstays k (by simp)
    refine .inr ⟨by simp, ?_⟩
    rw [taken.keptThread hm]
    rcases ih fun j hj => hstays j (List.mem_append_left _ hj) with
      ⟨rfl, hfirst⟩ | ⟨hne, hknown, hkept⟩
    · -- the first choice repeats none
      obtain ⟨c, hc, -⟩ := taken.current_select
      have hgenerator := taken.pending
      rw [hfirst, hroot, Option.some.injEq] at hgenerator
      have hthread : ∃ t, c = .thread t := (Domain.kind_of_get? hc).mp (by rw [← hgenerator]; rfl)
      obtain ⟨t, rfl⟩ := hthread
      refine ⟨taken.lastChosen hm hlast (.inl ⟨t, hc⟩), ?_⟩
      have hnone : lastChosen m = none := by
        unfold lastChosen
        rw [hnew]
        rfl
      rw [Pick.repeats, hc, hfirst, Heuristic.keptThread, hnew]
      simp [Heuristic.repeats, hnone, keptAfter, keptRunning]
    · refine ⟨taken.lastChosen hm hlast (.inr hknown), ?_⟩
      rw [keptRunning_concat hne, hkept, Pick.repeats_eq_keeps hknown]

/-- **What the priority of a thread counts.** The trail has the same count once the transition has
run, exactly if the thread is both the one that runs and the one that was chosen last, or neither.
From the second choice on that is so if each transition on the path stops with the thread that it
began with, and then both are the number of choices that kept the running thread. A transition that
stops with another thread hands over from one that cannot go on to the only one that can. -/
theorem switchPriority_counts {p : Program} {config : Config} {listening : Bool} {name : String}
    {u : Unit} {m₀ m m' : Machine} {g : Generator} {i : Nat} {t : ThreadId} {e : TransitionEnd}
    (hstart : Machine.start name (Machine.new p config listening) = .ok u m₀)
    (hreaches : m₀.Reaches m) (hg : m.pending = some g) (ht : g.domain.get? i = some (.thread t))
    (h : m.transition (g.select i).2 = .ok e m') :
    let priority := (preferSwitch.priority () m (g.select i).2 (.thread t)).1
    (priority = keptThread m' ↔ (t = m.current ↔ lastChosen m = some t)) ∧
      (∃ path, Takes m₀ path m) ∧ ∀ path, Takes m₀ path m →
        let extended := path ++ [⟨⟨m, g⟩, i⟩]
        Takes m₀ extended m' ∧ keptThread m' = sumOf (extended.map Pick.repeats) ∧
          (path ≠ [] → (∀ k ∈ path, k.Stays) →
            priority = keptRunning extended ∧ keptThread m' = keptRunning extended) ∧
          ∀ k ∈ path, k.Stays ∨ ∃ xs e,
            Machine.Transits (k.point.generator.select k.index).2 k.point.state xs e k.target ∧
              Machine.HandsOver (Machine.states xs k.target.kernel) := by
  obtain ⟨-, -, hm, hpath₀, hroot⟩ := Machine.start_eq_ok hstart
  have hnew : m₀.path.trail = #[] := by rw [hpath₀]
  have hi : i < g.total := Domain.isSome_get?_iff.mp (by rw [ht]; rfl)
  have hc : Pick.choice? ⟨⟨m, g⟩, i⟩ = some (.thread t) := ht
  have htarget : Pick.target ⟨⟨m, g⟩, i⟩ = m' := Pick.target_eq h
  have htaken : Pick.IsTaken m₀ ⟨⟨m, g⟩, i⟩ := ⟨hreaches, hg, hi, e, htarget.symm ▸ h⟩
  have hpriority : (preferSwitch.priority () m (g.select i).2 (.thread t)).1 =
      ((keptThread m + Pick.keeps ⟨⟨m, g⟩, i⟩ : Nat) : Int) := by
    rw [Pick.keeps, hc]
    rfl
  have hkept : keptThread m' = keptThread m + Pick.repeats ⟨⟨m, g⟩, i⟩ :=
    htarget ▸ htaken.keptThread hm
  refine ⟨?_, exists_takes hreaches, fun path hpath => ?_⟩
  · rw [hpriority, hkept, Int.ofNat_inj, Nat.add_left_cancel_iff, Pick.keeps_eq_repeats_iff hc]
  · obtain ⟨-, -, hextended⟩ := hpath.extend hg hi h
    refine ⟨hextended, hextended.keptThread hm hnew, fun hne hstays => ?_, fun k hk =>
      (hpath.isTaken k hk).stays_or_handsOver hm⟩
    rw [hpriority, keptRunning_concat hne]
    obtain ⟨rfl, -⟩ | ⟨-, hknown, hrunning⟩ := hpath.steady hm hnew hroot hstays
    · exact absurd rfl hne
    · rw [hkept, Pick.repeats_eq_keeps (k := ⟨⟨m, g⟩, i⟩) hknown, hrunning]
      exact ⟨rfl, rfl⟩

/-! ## An example -/

/-- Does a choice of the pending generator lead to a state that passes a test? -/
def leads (i : Nat) (test : Machine → Bool) (m : Machine) : Bool :=
  m.pending.any fun g => decide (i < g.total) &&
    gives (Machine.transition (g.select i).2) m fun _ n => test n

theorem Takes.exists_of_leads {i : Nat} {test : Machine → Bool} (hpath : Takes m path n)
    (h : leads i test n = true) : ∃ g e n', n.pending = some g ∧
      n.transition (g.select i).2 = .ok e n' ∧ Takes m (path ++ [⟨⟨n, g⟩, i⟩]) n' ∧
      Pick.target ⟨⟨n, g⟩, i⟩ = n' ∧ test n' = true := by
  simp only [leads, Option.any_eq_true, Bool.and_eq_true, decide_eq_true_eq] at h
  obtain ⟨g, hg, hi, hgives⟩ := h
  obtain ⟨e, n', htransition, htest⟩ := gives_iff.mp hgives
  obtain ⟨-, htarget, hextended⟩ := hpath.extend hg hi htransition
  exact ⟨g, e, n', hg, htransition, hextended, htarget, htest⟩

/-- The main thread starts another one and waits for it, and that one starts a third. -/
def relayRace : Demo.Build Unit := do
  let main ← Demo.declareMain [("count", "I")]
  Demo.defineWorker "demo/Last" fun a => (Demo.increment a).emit .voidReturn
  Demo.defineWorker "demo/First" fun a =>
    (Demo.increment ((a.onClass .new "demo/Last").emit .threadStart)).emit .voidReturn
  Demo.define main "main" Demo.mainModifiers 0 fun a =>
    ((((a.onClass .new "demo/First").emit .dup).emit .threadStart).emit .threadJoin).emit .voidReturn

/-- A choice of the pending generator keeps the thread that runs. -/
def keepsAt (i : Nat) (m : Machine) : Bool :=
  m.pending.any fun g => Pick.keeps ⟨⟨m, g⟩, i⟩ == 1

/-- The pending generator has a thread as its first choice. -/
def offersFirst (t : ThreadId) (m : Machine) : Bool :=
  m.pending.any fun g => g.domain.get? 0 == some (.thread t)

/-- In front of its second choice the main thread runs and was chosen, so that to keep it counts in
both ways. -/
theorem switchPriority_counts_relayRace : ∃ p m₀ m m' path g t e,
    relayRace.run (Program.base .plain) = .ok ((), p) ∧
      Machine.start Demo.mainClass (Machine.new p {} false) = .ok () m₀ ∧ Takes m₀ path m ∧
      m.pending = some g ∧ g.domain.get? 0 = some (.thread t) ∧
      m.transition (g.select 0).2 = .ok e m' ∧ path ≠ [] ∧ (∀ k ∈ path, k.Stays) ∧
      (preferSwitch.priority () m (g.select 0).2 (.thread t)).1 = 1 ∧ keptThread m' = 1 ∧
      keptRunning (path ++ [⟨⟨m, g⟩, 0⟩]) = 1 := by
  obtain ⟨p, m₀, hbuild, hstart, htest⟩ := Machine.exists_start_of_demo relayRace
    (fun _ m₀ => offersFirst ⟨0⟩ m₀ && leads 0 (fun m => m.current == ⟨0⟩ && offersFirst ⟨0⟩ m &&
      keepsAt 0 m && leads 0 (fun _ => true) m) m₀) (by decide +kernel)
  simp only [Bool.and_eq_true] at htest
  obtain ⟨hfirst, htest⟩ := htest
  obtain ⟨g₀, e₀, m, hg₀, hm, hpath, htarget, htest⟩ := Takes.nil.exists_of_leads htest
  simp only [Bool.and_eq_true, beq_iff_eq] at htest
  obtain ⟨⟨⟨hcurrent, hoffers⟩, hkeeps⟩, htest⟩ := htest
  obtain ⟨g, e, m', hg, hm', -⟩ := hpath.exists_of_leads htest
  simp only [offersFirst, hg₀, hg, keepsAt, Option.any_some, beq_iff_eq] at hfirst hoffers hkeeps
  have hstays : ∀ k ∈ ([⟨⟨m₀, g₀⟩, 0⟩] : List Pick), k.Stays := fun k hk c hc => by
    obtain rfl := List.mem_singleton.mp hk
    obtain rfl : .thread ⟨0⟩ = c := Option.some.inj (hfirst.symm.trans hc)
    rw [htarget, hcurrent]
    rfl
  obtain ⟨-, -, hcounts⟩ := switchPriority_counts hstart hpath.reaches hg hoffers hm'
  obtain ⟨-, -, hsteady, -⟩ := hcounts _ hpath
  have hkept : keptRunning [⟨⟨m₀, g₀⟩, 0⟩, ⟨⟨m, g⟩, 0⟩] = 1 := by
    simp [keptRunning, sumOf, hkeeps]
  obtain ⟨hpriority, hthread⟩ := hsteady (List.cons_ne_nil _ _) hstays
  exact ⟨p, m₀, m, m', _, g, _, e, hbuild, hstart, hpath, hg, hoffers, hm', List.cons_ne_nil _ _,
    hstays, hpriority.trans (congrArg Nat.cast hkept), hthread.trans hkept, hkept⟩

/-- Where the main thread waits and has handed over, the priority counts that the thread that runs is
kept, and the trail does not. -/
theorem exists_switchPriority_ne : ∃ p m₀ m m' path g t e,
    relayRace.run (Program.base .plain) = .ok ((), p) ∧
      Machine.start Demo.mainClass (Machine.new p {} false) = .ok () m₀ ∧ Takes m₀ path m ∧
      m.pending = some g ∧ g.domain.get? 0 = some (.thread t) ∧
      m.transition (g.select 0).2 = .ok e m' ∧
      (preferSwitch.priority () m (g.select 0).2 (.thread t)).1 = 2 ∧ keptThread m' = 1 ∧
      keptRunning (path ++ [⟨⟨m, g⟩, 0⟩]) = 2 := by
  obtain ⟨p, m₀, hbuild, hstart, htest⟩ := Machine.exists_start_of_demo relayRace
    (fun _ => leads 0 fun m₁ => keepsAt 0 m₁ && leads 0 (fun m => keptThread m == 1 &&
      offersFirst ⟨1⟩ m && keepsAt 0 m && leads 0 (fun m' => keptThread m' == 1) m) m₁)
    (by decide +kernel)
  obtain ⟨g₀, e₀, m₁, hg₀, hm₁, hpath₁, -, htest⟩ := Takes.nil.exists_of_leads htest
  simp only [Bool.and_eq_true] at htest
  obtain ⟨hkeeps₁, htest⟩ := htest
  obtain ⟨g₁, e₁, m, hg₁, hm, hpath, -, htest⟩ := hpath₁.exists_of_leads htest
  simp only [Bool.and_eq_true, beq_iff_eq] at htest
  obtain ⟨⟨⟨hkept, hoffers⟩, hkeeps⟩, htest⟩ := htest
  obtain ⟨g, e, m', hg, hm', -, -, hkept'⟩ := hpath.exists_of_leads htest
  simp only [keepsAt, offersFirst, hg₁, hg, Option.any_some, beq_iff_eq] at hkeeps₁ hoffers hkeeps
  refine ⟨p, m₀, m, m', _, g, _, e, hbuild, hstart, hpath, hg, hoffers, hm', ?_,
    beq_iff_eq.mp hkept', ?_⟩
  · have hkept₂ : Heuristic.keeps m (.thread ⟨1⟩) = 1 := by
      simpa [Pick.keeps, Pick.choice?, hoffers] using hkeeps
    show ((keptThread m + Heuristic.keeps m (.thread ⟨1⟩) : Nat) : Int) = 2
    rw [hkept, hkept₂]
    rfl
  · simp [keptRunning, sumOf, hkeeps₁, hkeeps]

end Search

end Interleave

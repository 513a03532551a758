import Interleave.Proofs.Search.Points
import Interleave.Proofs.Search.Preorder

/-!
# What a search has tried

Whatever the strategy and whatever the search is to do: it tries one choice after another, each from
a choice point that other choices lead to, and what becomes of the path is told from the state that
the choice leads to. A ledger says which choices were tried, and what was counted and told to
listeners by that.
-/

namespace Interleave

open Effect

/-- Does a search end in this state, since something is wrong there? -/
def SearchConfig.stopsAt (config : SearchConfig) (n : Machine) : Bool :=
  config.stopOnFirstError && !n.failures.isEmpty

namespace Search

/-- What becomes of a path. -/
inductive Fate where
  /-- A violation ends the search. -/
  | stopped
  /-- The path is as long as it may be. -/
  | cutOff
  /-- Nothing is pending. -/
  | ended
  /-- The choice point is to be gone through. -/
  | handedOn (g : Generator)
deriving DecidableEq

def fate (config : SearchConfig) (bound : Option Nat) (n : Machine) : Fate :=
  if config.stopsAt n then .stopped
  else if bound.any (· ≤ n.depth) then .cutOff
  else
    match n.pending with
    | none => .ended
    | some g => .handedOn g

/-- Is a path cut off in this state that could go on? -/
def hits (config : SearchConfig) (bound : Option Nat) (n : Machine) : Bool :=
  !config.stopsAt n && bound.any (· ≤ n.depth) && n.pending.isSome

variable {config : SearchConfig} {bound : Option Nat} {m n n' : Machine} {g : Generator} {k : Pick}
  {tried : List Pick} {start s s₁ s' : Search} {e : TransitionEnd}

theorem fate_eq_handedOn : fate config bound n = .handedOn g ↔
    config.stopsAt n = false ∧ bound.any (· ≤ n.depth) = false ∧ n.pending = some g := by
  unfold fate
  cases config.stopsAt n with
  | true => simp
  | false =>
    cases bound.any (· ≤ n.depth) with
    | true => simp
    | false => cases n.pending <;> simp

/-- A choice of a choice point that choices lead to, which leads on. -/
structure Pick.IsTaken (m : Machine) (k : Pick) : Prop where
  reached : m.Reaches k.point.state
  pending : k.point.state.pending = some k.point.generator
  index : k.index < k.point.generator.total
  transition : ∃ e, k.point.state.transition (k.point.generator.select k.index).2 = .ok e k.target

theorem Pick.IsTaken.reaches_target (h : k.IsTaken m) : m.Reaches k.target := by
  obtain ⟨e, htransition⟩ := h.transition
  exact h.reached.tail ⟨h.pending, h.index, htransition⟩

theorem Pick.IsTaken.depth (hm : m.IsReady) (h : k.IsTaken m) :
    k.target.depth = k.point.state.depth + 1 := by
  obtain ⟨e, htransition⟩ := h.transition
  exact DepthFirst.depth_of_transition (hm.reaches h.reached) htransition

/-- Paths are not cut off in a state: it is the one in which the search begins, or in front of the
bound. -/
def GoesOnAt (start : Search) (n : Machine) : Prop :=
  n = start.machine ∨ start.depthBound.any (· ≤ n.depth) = false

/-- A search that began in some state has tried these choices, in this order. -/
structure Ledger (start : Search) (tried : List Pick) (s : Search) : Prop where
  taken : ∀ k ∈ tried, k.IsTaken start.machine
  /-- No choice is tried where a path is cut off. -/
  within : ∀ k ∈ tried, start.GoesOnAt k.point.state
  /-- After a choice that ends the search, none is tried. -/
  stops : ∀ k ∈ tried.dropLast, start.config.stopsAt k.target = false
  transitions : s.stats.transitions = tried.length
  constraintHits : s.stats.constraintHits =
    tried.countP fun k => hits start.config start.depthBound k.target
  listening : s.listening = start.listening
  advanced : s.listening = true →
    List.Forall₂ (Machine.Alike True) s.advanced (tried.map Pick.target)

/-- The search is not over. -/
structure Pending (start : Search) (tried : List Pick) (s : Search) : Prop
    extends Ledger start tried s where
  config : s.config = start.config
  watchful : s.Watchful
  run : Machine.SameRun start.machine s.machine
  goes : ∀ k ∈ tried, start.config.stopsAt k.target = false

/-- A search that has done nothing yet, at a choice point. -/
structure Begins (start : Search) (root : Generator) : Prop where
  ready : start.machine.IsReady
  pending : start.machine.pending = some root
  watchful : start.Watchful
  stats : start.stats = {}
  visited : start.visited = {}
  advanced : start.advanced = []

theorem Pending.init {root : Generator} (hstart : start.Begins root) (hs : Told start s) :
    Pending start [] s where
  taken _ hk := absurd hk List.not_mem_nil
  within _ hk := absurd hk List.not_mem_nil
  stops _ hk := absurd hk List.not_mem_nil
  transitions := by rw [hs.stats, hstart.stats]; rfl
  constraintHits := by rw [hs.stats, hstart.stats]; rfl
  listening := hs.task.listening
  advanced _ := by
    rw [hs.advanced, hstart.advanced]
    exact .nil
  config := hs.task.config
  watchful := hstart.watchful.of_sameTask hs.task (by
    rw [hs.checkedAt, hs.stats]
    exact hstart.watchful.checked)
  run := by
    rw [hs.machine]
    exact refl _
  goes _ hk := absurd hk List.not_mem_nil

theorem Pending.returned {snapshot : Snapshot} (h : Pending start tried s)
    (hback : Returned s snapshot s') : Pending start tried s' where
  taken := h.taken
  within := h.within
  stops := h.stops
  transitions := hback.transitions.trans h.transitions
  constraintHits := by
    obtain ⟨_, _, hstats⟩ := hback.stats
    rw [hstats]
    exact h.constraintHits
  listening := hback.task.listening.trans h.listening
  advanced := by
    rw [hback.task.listening, hback.advanced]
    exact h.advanced
  config := hback.task.config.trans h.config
  watchful := h.watchful.of_sameTask hback.task (by
    rw [hback.checkedAt, hback.transitions]
    exact h.watchful.checked)
  run := by
    rw [hback.machine]
    exact ⟨h.run.program, h.run.config, h.run.hostCall⟩
  goes := h.goes

/-! ## One more choice -/

/-- A search has tried a choice, and has not looked yet at the state that it leads to. -/
structure Tried (start : Search) (tried : List Pick) (k : Pick) (s : Search) : Prop where
  taken : k.IsTaken start.machine
  alike : s.machine.Alike True k.target
  run : Machine.SameRun start.machine s.machine
  task : s.config = start.config ∧ s.listening = start.listening ∧
    s.properties = Property.defaults ∧ s.done = false
  new : s.checkedAt ≠ some s.stats.transitions
  transitions : s.stats.transitions = tried.length + 1
  constraintHits : s.stats.constraintHits =
    tried.countP fun k => hits start.config start.depthBound k.target
  advanced : s.listening = true →
    List.Forall₂ (Machine.Alike True) s.advanced ((tried ++ [k]).map Pick.target)

theorem Tried.failures (h : Tried start tried k s) : s.failures = k.target.failures := by
  rw [failures_eq h.task.2.2.1, h.alike.failures]

/-- From the state in front of a choice, restored or not, the choice leads to where it leads on its
own. -/
theorem Pending.forward (hstart : start.machine.IsReady) (h : Pending start tried s)
    (hreached : start.machine.Reaches k.point.state)
    (hpending : k.point.state.pending = some k.point.generator)
    (hindex : k.index < k.point.generator.total)
    (halike : s.machine.Alike True { k.point.state with pending := none })
    (hforward : forward (k.point.generator.select k.index).2 s = .ok e s₁) :
    Moved s e s₁.machine s₁ ∧ Tried start tried k s₁ := by
  obtain ⟨n, hn, hmoved⟩ := exists_moved hforward
  obtain ⟨n', htransition, hsame⟩ := Machine.transition_agree halike.forgetful hn
  have htarget : k.target = n' := Pick.target_eq htransition
  have hmachine := hmoved.machine
  subst hmachine
  rw [← htarget] at htransition hsame
  have htaken : k.IsTaken start.machine := ⟨hreached, hpending, hindex, e, htransition⟩
  refine ⟨hmoved, htaken, hsame, ?_, ?_, hmoved.unchecked h.watchful.checked, ?_, ?_, ?_⟩
  · exact IsTrans.trans _ _ _ (Machine.SameRun.of_reaches hstart htaken.reaches_target) hsame.sameRun
  · exact ⟨hmoved.task.config.trans h.config, hmoved.task.listening.trans h.listening,
      hmoved.task.properties.trans h.watchful.properties, hmoved.task.done.trans h.watchful.done⟩
  · rw [hmoved.stats, ← h.transitions]
  · rw [hmoved.stats, ← h.constraintHits]
  · intro hl
    rw [hmoved.task.listening] at hl
    rw [hmoved.advanced, if_pos hl, List.map_append]
    exact List.rel_append (h.advanced hl) (.cons hsame .nil)

/-- The choice is entered in the ledger when the search has looked at the state. -/
theorem Ledger.concat (h : Pending start tried s)
    (hwithin : start.GoesOnAt k.point.state)
    (htried : Tried start tried k s₁) (htransitions : s'.stats.transitions = s₁.stats.transitions)
    (hhits : s'.stats.constraintHits = s₁.stats.constraintHits +
      if hits start.config start.depthBound k.target then 1 else 0)
    (hlistening : s'.listening = s₁.listening) (hadvanced : s'.advanced = s₁.advanced) :
    Ledger start (tried ++ [k]) s' where
  taken := List.forall_mem_append.mpr ⟨h.taken, List.forall_mem_singleton.mpr htried.taken⟩
  within := List.forall_mem_append.mpr ⟨h.within, List.forall_mem_singleton.mpr hwithin⟩
  stops := by
    rw [List.dropLast_concat]
    exact h.goes
  transitions := by
    rw [htransitions, htried.transitions, List.length_append]
    rfl
  constraintHits := by
    rw [hhits, htried.constraintHits, List.countP_append, List.countP_singleton]
  listening := hlistening.trans htried.task.2.1
  advanced := by
    rw [hlistening, hadvanced]
    exact htried.advanced

theorem Pending.concat (h : Pending start tried s)
    (hwithin : start.GoesOnAt k.point.state)
    (htried : Tried start tried k s₁) (hgoes : start.config.stopsAt k.target = false)
    (htask : SameTask s₁ s') (hmachine : Machine.SameRun s₁.machine s'.machine)
    (hcheckedAt : s'.checkedAt = some s₁.stats.transitions)
    (htransitions : s'.stats.transitions = s₁.stats.transitions)
    (hhits : s'.stats.constraintHits = s₁.stats.constraintHits +
      if hits start.config start.depthBound k.target then 1 else 0)
    (hadvanced : s'.advanced = s₁.advanced) : Pending start (tried ++ [k]) s' where
  toLedger := .concat h hwithin htried htransitions hhits htask.listening hadvanced
  config := htask.config.trans htried.task.1
  watchful := {
    properties := htask.properties.trans htried.task.2.2.1
    done := htask.done.trans htried.task.2.2.2
    checked := by
      intro c hc
      rw [hcheckedAt] at hc
      cases hc
      exact Nat.le_of_eq htransitions.symm }
  run := IsTrans.trans _ _ _ htried.run hmachine
  goes := List.forall_mem_append.mpr ⟨h.goes, List.forall_mem_singleton.mpr hgoes⟩

/-- Where something is wrong and the search is to stop, it is over when it has checked the state. -/
theorem Tried.stops (h : Tried start tried k s) (hstops : start.config.stopsAt k.target = true) :
    s.checkProperties.1 = true ∧ s.checkProperties.2.done = true ∧ Looked s s.checkProperties.2 := by
  unfold SearchConfig.stopsAt at hstops
  rw [Bool.and_eq_true, Bool.not_eq_true', List.isEmpty_eq_false_iff, ← h.failures] at hstops
  exact checkProperties_stops (h.task.1 ▸ hstops.1) hstops.2 h.new

theorem Tried.goes (h : Tried start tried k s) (hgoes : start.config.stopsAt k.target = false) :
    s.config.stopOnFirstError = true → s.failures = [] := by
  intro hstop
  unfold SearchConfig.stopsAt at hgoes
  rw [← h.task.1, hstop, Bool.true_and, Bool.not_eq_false', List.isEmpty_iff, ← h.failures] at hgoes
  exact hgoes

theorem Pending.stopped (h : Pending start tried s)
    (hwithin : start.GoesOnAt k.point.state)
    (htried : Tried start tried k s₁) (hstops : start.config.stopsAt k.target = true) :
    Ledger start (tried ++ [k]) s₁.checkProperties.2.pathFinished := by
  obtain ⟨-, -, hlooked⟩ := htried.stops hstops
  refine .concat h hwithin htried hlooked.transitions ?_ hlooked.listening hlooked.advanced
  show s₁.checkProperties.2.stats.constraintHits = _
  unfold hits
  rw [(checkProperties_counts s₁).1, hstops]
  rfl

/-- A search that expands choice points looks at the state. Where the path is to be handed on, the
choice point is expanded, unless it is recognized. -/
theorem Pending.arrive (h : Pending start tried s)
    (hwithin : start.GoesOnAt k.point.state)
    (htried : Tried start tried k s₁) (hgoes : start.config.stopsAt k.target = false) :
    Pending start (tried ++ [k]) (s₁.arrive start.depthBound).2 ∧
      (((s₁.arrive start.depthBound).1 = .closed ∧
          (s₁.arrive start.depthBound).2.stats.newStates = s₁.stats.newStates ∧
          (s₁.arrive start.depthBound).2.visited = s₁.visited ∧
          ∀ g, fate start.config start.depthBound k.target = .handedOn g →
            start.config.stateMatching = true ∧ k.target.key g ∈ s₁.visited) ∨
        ∃ g, (s₁.arrive start.depthBound).1 = .opened g ∧
          fate start.config start.depthBound k.target = .handedOn g ∧
          (s₁.arrive start.depthBound).2.stats.newStates = s₁.stats.newStates + 1 ∧
          (start.config.stateMatching = true →
            (s₁.arrive start.depthBound).2.visited = s₁.visited.insert (k.target.key g)) ∧
          (s₁.arrive start.depthBound).2.machine.Alike True { k.target with pending := none }) := by
  have harrived := arrive_eq start.depthBound htried.task.2.2.2 (htried.goes hgoes) htried.new
  have hkey : ∀ g, s₁.stateKey g = k.target.key g := fun g => htried.alike.key g
  obtain ⟨pending, hmachine⟩ := harrived.machine
  have hrun : Machine.SameRun s₁.machine (s₁.arrive start.depthBound).2.machine := by
    rw [hmachine]
    exact ⟨rfl, rfl, rfl⟩
  have hsettled := harrived.settled
  have hopened := harrived.opened
  have hconcat := fun htransitions hhits => h.concat hwithin htried hgoes harrived.task hrun
    harrived.checkedAt htransitions hhits harrived.advanced
  generalize s₁.arrive start.depthBound = r at hsettled hopened hconcat
  obtain ⟨a, s'⟩ := r
  dsimp only at hsettled hopened hconcat ⊢
  -- what becomes of the path is told from the target, which the search sees as its own state
  unfold hits at hconcat
  unfold fate
  rw [hgoes, ← htried.alike.depth, ← htried.alike.pending] at hconcat
  rw [hgoes, ← htried.alike.depth, ← htried.alike.pending]
  cases hsettled with
  | cut reached stats visited =>
    rw [reached] at hconcat
    refine ⟨hconcat (by rw [stats]) (by rw [stats]; rfl), .inl ⟨rfl, by rw [stats], visited, ?_⟩⟩
    rw [reached]
    exact nofun
  | ended within pending stats visited =>
    rw [within] at hconcat
    refine ⟨hconcat (by rw [stats]) (by rw [stats]; rfl), .inl ⟨rfl, by rw [stats], visited, ?_⟩⟩
    rw [within, pending]
    exact nofun
  | @revisited _ g within pending matching seen stats visited =>
    rw [within] at hconcat
    refine ⟨hconcat (by rw [stats]) (by rw [stats]; rfl), .inl ⟨rfl, by rw [stats], visited, ?_⟩⟩
    rw [within, pending]
    rintro _ ⟨⟩
    rw [← htried.task.1, ← hkey, ← Std.HashSet.contains_iff_mem]
    exact ⟨matching, seen⟩
  | @opened _ g within pending unseen stats visited =>
    rw [within] at hconcat
    refine ⟨hconcat (by rw [stats]) (by rw [stats]; rfl), .inr ⟨g, rfl, ?_, by rw [stats], ?_, ?_⟩⟩
    · rw [within, pending]
      rfl
    · intro hmatching
      rw [visited, if_pos (htried.task.1 ▸ hmatching), hkey]
    · rw [hopened g rfl]
      exact htried.alike.withoutPending

end Search

end Interleave

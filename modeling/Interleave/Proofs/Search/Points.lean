import Interleave.Proofs.Machine.Choices
import Interleave.Proofs.Search.Arrival
import Mathlib.Data.Set.Finite.Lattice

/-!
# Choice points and their keys

A search that matches states recognizes a choice point by its key. Neither the trail nor scratch
data is part of the key, nor is a choice that waits to be consumed; but wherever choices lead from
the same start, choice points with the same key have the same future. So choice points that have
been left out because their keys were known lead to nothing new: `Closed.covers`.
-/

namespace Interleave

open Effect Relation

namespace Machine

/-- What a state, with a generator pending in it, is recognized by. -/
def key (m : Machine) (g : Generator) : StateKey :=
  { state := m.kernel.fingerprint, current := m.current, generator := g.id, domain := g.domain }

/-- The keys of the choice points that choices lead to. -/
def keys (m : Machine) : Set StateKey :=
  {k | ∃ n g, m.Reaches n ∧ n.pending = some g ∧ n.key g = k}

/-- What is wrong in a state, as property and message, by the default properties. -/
def messages (m : Machine) : List (String × String) :=
  m.failures.map fun v => (v.property, v.message)

/-- Choices lead on without faults. -/
structure NeverFails (m : Machine) : Prop where
  /-- No generator is empty. -/
  nonempty : ∀ n g, m.Reaches n → n.pending = some g → 0 < g.total
  /-- Every transition gives a result. -/
  runs : ∀ n g i, m.Reaches n → n.pending = some g → i < g.total →
    ∃ e n', n.transition (g.select i).2 = .ok e n'

variable {full : Prop} {p : Program} {config : Config} {stub : Method} {m n m' : Machine}
  {g g' : Generator} {i : Nat} {e : TransitionEnd}

theorem Alike.key (h : Alike full m n) (g : Generator) : m.key g = n.key g := by
  unfold Machine.key Machine.current
  rw [h.kernel, h.current]

/-- Choices lead on with the same program. -/
theorem SameRun.of_reaches (hm : m.IsReady) (h : m.Reaches n) : SameRun m n := by
  induction h with
  | refl => exact refl m
  | tail hreached hlast ih =>
    obtain ⟨-, -, htransition⟩ := hlast
    exact IsTrans.trans _ _ _ ih (sameRun_of_transition (hm.reaches hreached).hostCall htransition)

theorem mem_messages {pair : String × String} : pair ∈ m.messages ↔
    ∃ q ∈ Property.defaults, ∃ message, q.check m = some message ∧ pair = (q.name, message) := by
  unfold messages failures
  simp only [List.mem_map, List.mem_filterMap, Option.map_eq_some_iff]
  constructor
  · rintro ⟨_, ⟨q, hq, message, hmessage, rfl⟩, rfl⟩
    exact ⟨q, hq, message, hmessage, rfl⟩
  · rintro ⟨q, hq, message, hmessage, rfl⟩
    exact ⟨_, ⟨q, hq, message, hmessage, rfl⟩, rfl⟩

/-- What is wrong does not depend on the choices that led there. -/
theorem Alike.mem_messages (h : Alike full m n) {pair : String × String} :
    pair ∈ m.messages ↔ pair ∈ n.messages := by
  simp only [Machine.mem_messages]
  refine exists_congr fun q => and_congr_right fun hq => ?_
  rw [h.check hq]

/-- Nothing is wrong at the start. -/
theorem messages_of_start {listening : Bool} {name : String} {u : Unit}
    (h : start name (Machine.new p config listening) = .ok u m) : m.messages = [] := by
  obtain ⟨-, hstarted, -, hpath, -⟩ := start_eq_ok h
  obtain ⟨⟨th, f, hthreads, -, hstatus, -⟩, -⟩ := hstarted.inv
  have hruns : m.kernel.Runs ⟨0⟩ := ⟨th, by rw [hthreads]; rfl, by simp [Thread.isRunnable, hstatus]⟩
  refine List.eq_nil_iff_forall_not_mem.mpr fun pair hpair => ?_
  obtain ⟨q, hq, message, hmessage, -⟩ := mem_messages.mp hpair
  simp only [Property.defaults, List.mem_cons, List.not_mem_nil, or_false] at hq
  rcases hq with rfl | rfl
  · simp [Property.noUncaughtExceptions, hpath] at hmessage
  · have hlive : m.kernel.isDeadlocked = false := by
      simp [Kernel.isDeadlocked, runnable_ne_nil hruns]
    simp [Property.notDeadlocked, hlive] at hmessage

/-- Choice points with the same key agree on everything that their future depends on. -/
theorem Led.alike (hw : p.WellFormed) (hp : p.HasLoneInitializers) (hm : Led p config stub m)
    (hn : Led p config stub n) (hg : m.pending = some g) (hg' : n.pending = some g')
    (h : m.key g = n.key g') : g = g' ∧
      Alike False { m with pending := none, path := { m.path with uncaught := none } }
        { n with pending := none, path := { n.path with uncaught := none } } := by
  have hkernel : m.kernel = n.kernel :=
    Kernel.eq_of_fingerprint hw hp hm.identified hn.identified (congrArg StateKey.state h)
  have hcurrent : m.path.current = n.path.current := congrArg StateKey.current h
  have hgenerator : g = g' := by
    have hid : g.id = g'.id := congrArg StateKey.generator h
    have hdomain : g.domain = g'.domain := congrArg StateKey.domain h
    have hcursor : g.cursor = g'.cursor := (hm.untried g hg).trans (hn.untried g' hg').symm
    cases g
    cases g'
    simp_all
  exact ⟨hgenerator, {
    program := hm.program.trans hn.program.symm
    config := hm.config.trans hn.config.symm
    kernel := hkernel
    hostCall := hm.hostCall.trans hn.hostCall.symm
    current := hcurrent
    choice := hm.choice.trans hn.choice.symm
    uncaught := rfl
    started := hm.started.trans hn.started.symm
    pending := rfl
    scratch := nofun
    trail := nofun }⟩

/-- **The same key means the same future.** What a choice leads to from one of two choice points
with the same key, it leads to from the other one. -/
theorem Led.same_future (hw : p.WellFormed) (hp : p.HasLoneInitializers)
    (hm : Led p config stub m) (hn : Led p config stub n) (hg : m.pending = some g)
    (hg' : n.pending = some g') (h : m.key g = n.key g')
    (htransition : m.transition (g.select i).2 = .ok e m') :
    ∃ n', n.transition (g'.select i).2 = .ok e n' ∧ Alike False m' n' := by
  obtain ⟨rfl, halike⟩ := hm.alike hw hp hn hg hg' h
  exact transition_agree halike htransition

end Machine

namespace Search

/-- A choice point: a state in which a generator is pending. -/
structure Point where
  state : Machine
  generator : Generator

/-- A choice of a choice point. -/
structure Pick where
  point : Point
  index : Nat

/-- What a choice point is recognized by. -/
def Point.key (x : Point) : StateKey := x.state.key x.generator

/-- The choices of a choice point. -/
def Point.picks (x : Point) : List Pick := (List.range x.generator.total).map (⟨x, ·⟩)

/-- The state that a choice leads to. -/
def Pick.target (k : Pick) : Machine :=
  match k.point.state.transition (k.point.generator.select k.index).2 with
  | .ok _ m => m
  | .error _ m => m

theorem Pick.target_eq {k : Pick} {e : TransitionEnd} {n : Machine}
    (h : k.point.state.transition (k.point.generator.select k.index).2 = .ok e n) :
    k.target = n := by
  unfold target
  rw [h]

theorem Point.mem_picks {x : Point} {k : Pick} :
    k ∈ x.picks ↔ k.point = x ∧ k.index < x.generator.total := by
  unfold picks
  simp only [List.mem_map, List.mem_range]
  constructor
  · rintro ⟨i, hi, rfl⟩
    exact ⟨rfl, hi⟩
  · rintro ⟨rfl, hi⟩
    exact ⟨k.index, hi, rfl⟩

@[simp] theorem Point.length_picks (x : Point) : x.picks.length = x.generator.total := by
  simp [picks]

theorem Point.drop_picks {x : Point} {i : Nat} (hi : i < x.generator.total) :
    x.picks.drop i = ⟨x, i⟩ :: x.picks.drop (i + 1) := by
  have hlength : i < x.picks.length := by simpa using hi
  rw [List.drop_eq_getElem_cons hlength]
  simp [picks]

/-- Choice points that a machine is led to by choices, and behind which no other key is found. -/
structure Closed (m : Machine) (points : List Point) : Prop where
  /-- They are reached. -/
  reached : ∀ x ∈ points, m.Reaches x.state ∧ x.state.pending = some x.generator
  /-- The first choice point is known. -/
  root : ∀ g, m.pending = some g → m.key g ∈ points.map Point.key
  /-- Every choice of theirs leads on. -/
  runs : ∀ x ∈ points, ∀ k ∈ x.picks, ∃ e n,
    k.point.state.transition (k.point.generator.select k.index).2 = .ok e n
  /-- The choice points behind their choices are known. -/
  known : ∀ x ∈ points, ∀ k ∈ x.picks, ∀ g, k.target.pending = some g →
    k.target.key g ∈ points.map Point.key

variable {p : Program} {config : Config} {stub : Method} {m n : Machine} {points : List Point}
  {g : Generator}

/-- **Nothing is missed.** If no other key is found behind some choice points, then wherever choices
lead, the choice points there have their keys, and what is wrong there is wrong behind one of their
choices. -/
theorem Closed.covers (hw : p.WellFormed) (hp : p.HasNoInitializers)
    (hm : m.Led p config stub) (h : Closed m points) (hn : m.Reaches n) :
    (∀ g, n.pending = some g → n.key g ∈ points.map Point.key) ∧
      (n = m ∨ ∃ x ∈ points, ∃ k ∈ x.picks, Machine.Alike False n k.target) := by
  induction hn with
  | refl => exact ⟨h.root, .inl rfl⟩
  | @tail n n' hn hlast ih =>
    obtain ⟨hg, hi, htransition⟩ := hlast
    rename_i g i e
    obtain ⟨x, hx, hkey⟩ := List.mem_map.mp (ih.1 g hg)
    obtain ⟨hreached, hpending⟩ := h.reached x hx
    have hled := hm.reaches hn
    have hled' := hm.reaches hreached
    obtain ⟨rfl, -⟩ := hled.alike hw hp.lone hled' hg hpending hkey.symm
    obtain ⟨y, hy, halike⟩ := hled.same_future hw hp.lone hled' hg hpending hkey.symm htransition
    have hpick : (⟨x, i⟩ : Pick) ∈ x.picks := Point.mem_picks.mpr ⟨rfl, hi⟩
    have htarget : (⟨x, i⟩ : Pick).target = y := Pick.target_eq hy
    refine ⟨fun g' hg' => ?_, .inr ⟨x, hx, ⟨x, i⟩, hpick, htarget ▸ halike⟩⟩
    rw [halike.key g', ← htarget]
    exact h.known x hx ⟨x, i⟩ hpick g' (htarget ▸ halike.pending ▸ hg')

/-- There are no other keys. -/
theorem Closed.keys_eq (hw : p.WellFormed) (hp : p.HasNoInitializers)
    (hm : m.Led p config stub) (h : Closed m points) {k : StateKey} :
    k ∈ points.map Point.key ↔ k ∈ m.keys := by
  constructor
  · intro hk
    obtain ⟨x, hx, rfl⟩ := List.mem_map.mp hk
    obtain ⟨hreached, hpending⟩ := h.reached x hx
    exact ⟨x.state, x.generator, hreached, hpending, rfl⟩
  · rintro ⟨n, g, hn, hg, rfl⟩
    exact (h.covers hw hp hm hn).1 g hg

/-- What is wrong somewhere is wrong in the first state or behind one of the choices. -/
theorem Closed.mem_messages (hw : p.WellFormed) (hp : p.HasNoInitializers)
    (hm : m.Led p config stub) (h : Closed m points) {pair : String × String} :
    (∃ n, m.Reaches n ∧ pair ∈ n.messages) ↔
      pair ∈ m.messages ∨ ∃ x ∈ points, ∃ k ∈ x.picks, pair ∈ k.target.messages := by
  constructor
  · rintro ⟨n, hn, hpair⟩
    rcases (h.covers hw hp hm hn).2 with rfl | ⟨x, hx, k, hk, halike⟩
    · exact .inl hpair
    · exact .inr ⟨x, hx, k, hk, halike.mem_messages.mp hpair⟩
  · rintro (hpair | ⟨x, hx, k, hk, hpair⟩)
    · exact ⟨m, .refl, hpair⟩
    · obtain ⟨hreached, hpending⟩ := h.reached x hx
      obtain ⟨e, n, hn⟩ := h.runs x hx k hk
      obtain ⟨rfl, hi⟩ := Point.mem_picks.mp hk
      exact ⟨n, hreached.tail ⟨hpending, hi, hn⟩, Pick.target_eq hn ▸ hpair⟩

/-- If choices lead on from these choice points, they lead on from everywhere. -/
theorem Closed.neverFails (hw : p.WellFormed) (hp : p.HasNoInitializers)
    (hm : m.Led p config stub) (h : Closed m points)
    (hpos : ∀ x ∈ points, 0 < x.generator.total) : m.NeverFails := by
  have hpoint : ∀ n g, m.Reaches n → n.pending = some g → ∃ x ∈ points, x.generator = g ∧
      x.state.pending = some g ∧ n.Led p config stub ∧ x.state.Led p config stub ∧
        x.state.key g = n.key g := by
    intro n g hn hg
    obtain ⟨x, hx, hkey⟩ := List.mem_map.mp ((h.covers hw hp hm hn).1 g hg)
    obtain ⟨hreached, hpending⟩ := h.reached x hx
    have hled := hm.reaches hn
    have hled' := hm.reaches hreached
    obtain ⟨he, -⟩ := hled'.alike hw hp.lone hled hpending hg hkey
    exact ⟨x, hx, he, he ▸ hpending, hled, hled', he ▸ hkey⟩
  constructor
  · intro n g hn hg
    obtain ⟨x, hx, rfl, -⟩ := hpoint n g hn hg
    exact hpos x hx
  · intro n g i hn hg hi
    obtain ⟨x, hx, rfl, hpending, hled, hled', hkey⟩ := hpoint n g hn hg
    obtain ⟨e, y, hy⟩ := h.runs x hx ⟨x, i⟩ (Point.mem_picks.mpr ⟨rfl, hi⟩)
    obtain ⟨y', hy', -⟩ := hled'.same_future hw hp.lone hled hpending hg hkey hy
    exact ⟨e, y', hy'⟩

/-- There are only finitely many keys then. -/
theorem Closed.finite_keys (hw : p.WellFormed) (hp : p.HasNoInitializers)
    (hm : m.Led p config stub) (h : Closed m points) : m.keys.Finite := by
  refine (List.finite_toSet (points.map Point.key)).subset fun k hk => ?_
  exact (h.keys_eq hw hp hm).mpr hk

/-! ## Trying choice points -/

/-- The choice points that some lists of choices lead to. -/
def pointsAt (m : Machine) (paths : List (List Nat)) : List Point :=
  paths.filterMap fun is =>
    match Machine.follow is m with
    | .ok _ n => n.pending.map (⟨n, ·⟩)
    | .error .. => none

/-- Is nothing found behind some choice points but choice points with their keys? Each choice is
tried. -/
def isClosed (m : Machine) (points : List Point) : Bool :=
  let known (n : Machine) := n.pending.all fun g => decide (n.key g ∈ points.map Point.key)
  known m && points.all fun x => decide (0 < x.generator.total) && x.picks.all fun k =>
    gives (Machine.transition (k.point.generator.select k.index).2) k.point.state fun _ => known

theorem mem_pointsAt {paths : List (List Nat)} {x : Point} (hm : m.IsReady)
    (hx : x ∈ pointsAt m paths) : m.Reaches x.state ∧ x.state.pending = some x.generator := by
  obtain ⟨is, -, his⟩ := List.mem_filterMap.mp hx
  split at his
  · rename_i hfollow
    obtain ⟨g, hg, rfl⟩ := Option.map_eq_some_iff.mp his
    exact ⟨hm.reaches_follow hfollow, hg⟩
  · cases his

theorem Closed.of_isClosed {paths : List (List Nat)} (hm : m.IsReady)
    (h : isClosed m (pointsAt m paths) = true) :
    Closed m (pointsAt m paths) ∧ ∀ x ∈ pointsAt m paths, 0 < x.generator.total := by
  simp only [isClosed, Bool.and_eq_true, Option.all_eq_true, decide_eq_true_eq, List.all_eq_true,
    gives_iff] at h
  obtain ⟨hroot, hpoints⟩ := h
  refine ⟨⟨fun x hx => mem_pointsAt hm hx, hroot, fun x hx k hk => ?_, fun x hx k hk g hg => ?_⟩,
    fun x hx => (hpoints x hx).1⟩
  · obtain ⟨e, n, hn, -⟩ := (hpoints x hx).2 k hk
    exact ⟨e, n, hn⟩
  · obtain ⟨e, n, hn, hknown⟩ := (hpoints x hx).2 k hk
    rw [Pick.target_eq hn] at hg ⊢
    exact hknown g hg

end Search

end Interleave

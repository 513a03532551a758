import Interleave.Proofs.Choice
import Interleave.Proofs.Search.Points

/-!
# The choice tree

From the state that a machine is in, each choice of the pending generator leads to another state, in
which another generator may be pending, and so on. If this comes to an end along every path, the
states make up a finite tree.

The tree is written down by the choices: `Branches` is a list of choices, each with the state that
it leads to and the choices that are open there. So an induction on it goes along the choices of one
generator and down to the next generators at once. What is told about the tree is told about the
list of its vertices in preorder.
-/

namespace Interleave

open Effect

/-- The choices of a generator from a position on. -/
inductive Branches where
  | none
  /-- A choice, how its transition ends and where it leads to; the choices that are open there, and
  the choices after this one. -/
  | cons (stop : TransitionEnd) (state : Machine) (below after : Branches)

/-- A state of a choice tree, with the choice that leads to it. -/
structure Vertex where
  /-- How the transition of the choice ends. -/
  stop : TransitionEnd
  /-- The state. -/
  state : Machine
  /-- Are there choices below? -/
  expanded : Bool

namespace Branches

/-- Are there no choices? -/
def isNone : Branches → Bool
  | none => true
  | cons .. => false

/-- The states of the tree, each in front of those below it, and those below one choice in front of
those after it. -/
def preorder : Branches → List Vertex
  | none => []
  | cons stop state below after =>
    ⟨stop, state, !below.isNone⟩ :: (below.preorder ++ after.preorder)

/-- The tree with paths cut off after so many choices, or not at all if the limit is zero. -/
def cut (limit : Nat) : Branches → Branches
  | none => none
  | cons stop state below after =>
    cons stop state (if limit = 1 then none else below.cut (limit - 1)) (after.cut limit)

/-- The number of choices. -/
def edges (b : Branches) : Nat := b.preorder.length

/-- The number of choice points, the root included. -/
def points (b : Branches) : Nat :=
  b.preorder.countP Vertex.expanded + if b.isNone then 0 else 1

/-- The number of leaves; a tree without choices is a leaf. -/
def leaves (b : Branches) : Nat :=
  b.preorder.countP (!·.expanded) + if b.isNone then 1 else 0

/-- The number of transitions after which every thread has ended. -/
def endings (b : Branches) : Nat := b.preorder.countP (·.stop = .endState)

/-- The number of leaves in which a generator is pending. -/
def cutOffs (b : Branches) : Nat :=
  b.preorder.countP fun v => !v.expanded && v.state.pending.isSome

/-- What is wrong in the states, in preorder. -/
def failures (b : Branches) : List Violation := b.preorder.flatMap (·.state.failures)

@[simp] theorem preorder_none : none.preorder = [] := rfl

@[simp] theorem preorder_cons (stop : TransitionEnd) (state : Machine) (below after : Branches) :
    (cons stop state below after).preorder =
      ⟨stop, state, !below.isNone⟩ :: (below.preorder ++ after.preorder) := rfl

@[simp] theorem isNone_cut (limit : Nat) (b : Branches) : (b.cut limit).isNone = b.isNone := by
  cases b <;> rfl

/-- A limit of zero cuts nothing off. -/
theorem cut_leaf (limit : Nat) (stop : TransitionEnd) (state : Machine) (after : Branches) :
    (cons stop state none after).cut limit = cons stop state none (after.cut limit) := by
  simp [cut]

theorem cut_zero (b : Branches) : b.cut 0 = b := by
  induction b with
  | none => rfl
  | cons stop state below after ihb iha =>
    simp only [cut, Nat.zero_sub, ihb, iha]
    rfl

/-- The choices of a generator that is open in a state, from a position on. -/
inductive Of : Machine → Generator → Nat → Branches → Prop where
  /-- There are no more choices. -/
  | exhausted {m : Machine} {g : Generator} {i : Nat} (last : g.total ≤ i) : Of m g i none
  /-- The choice leads to a state in which nothing is pending. -/
  | ended {m m' : Machine} {g : Generator} {i : Nat} {e : TransitionEnd} {after : Branches}
    (more : i < g.total) (transition : m.transition (g.select i).2 = .ok e m')
    (pending : m'.pending = Option.none) (rest : Of m g (i + 1) after) :
    Of m g i (cons e m' none after)
  /-- The choice leads to another choice point. -/
  | opened {m m' : Machine} {g g' : Generator} {i : Nat} {e : TransitionEnd}
    {below after : Branches} (more : i < g.total)
    (transition : m.transition (g.select i).2 = .ok e m') (pending : m'.pending = some g')
    (nonempty : 0 < g'.total) (deeper : Of m' g' 0 below) (rest : Of m g (i + 1) after) :
    Of m g i (cons e m' below after)

/-- A generator with choices has some. -/
theorem Of.isNone_eq_false {m : Machine} {g : Generator} {b : Branches} (h : Of m g 0 b)
    (hg : 0 < g.total) : b.isNone = false := by
  cases h with
  | exhausted last => omega
  | ended => rfl
  | opened => rfl

/-- Two trees of the same choices are the same. -/
theorem Of.unique {m : Machine} {g : Generator} {i : Nat} {b b' : Branches} (h : Of m g i b)
    (h' : Of m g i b') : b = b' := by
  induction h generalizing b' with
  | exhausted last =>
    cases h' with
    | exhausted => rfl
    | ended more => omega
    | opened more => omega
  | ended more transition pending _ ih =>
    cases h' with
    | exhausted last => omega
    | ended _ transition' _ after' =>
      rw [transition] at transition'
      cases transition'
      rw [ih after']
    | opened _ transition' pending' =>
      rw [transition] at transition'
      cases transition'
      rw [pending] at pending'
      cases pending'
  | opened more transition pending _ _ _ ihb iha =>
    cases h' with
    | exhausted last => omega
    | ended _ transition' pending' =>
      rw [transition] at transition'
      cases transition'
      rw [pending] at pending'
      cases pending'
    | opened _ transition' pending' _ below' after' =>
      rw [transition] at transition'
      cases transition'
      rw [pending] at pending'
      cases pending'
      rw [ihb below', iha after']

end Branches

namespace Machine

/-- A tree is the choice tree of the state that a machine is in. -/
def Unfolds (m : Machine) (tree : Branches) : Prop :=
  match m.pending with
  | none => tree = .none
  | some g => 0 < g.total ∧ tree.Of m g 0

/-- The choices of a machine come to an end: every generator has choices, every transition gives a
result, and every path ends. -/
inductive HasFiniteTree : Machine → Prop where
  | intro {m : Machine} (nonempty : ∀ g, m.pending = some g → 0 < g.total)
    (runs : ∀ g i, m.pending = some g → i < g.total →
      ∃ e m', m.transition (g.select i).2 = .ok e m')
    (below : ∀ g i e m', m.pending = some g → i < g.total →
      m.transition (g.select i).2 = .ok e m' → m'.HasFiniteTree) : HasFiniteTree m

variable {m n : Machine} {tree : Branches}

theorem Unfolds.of_none (h : m.Unfolds tree) (hp : m.pending = none) : tree = .none := by
  unfold Unfolds at h
  rwa [hp] at h

theorem Unfolds.of_some {g : Generator} (h : m.Unfolds tree) (hp : m.pending = some g) :
    0 < g.total ∧ tree.Of m g 0 := by
  unfold Unfolds at h
  rwa [hp] at h

theorem Unfolds.unique {tree' : Branches} (h : m.Unfolds tree) (h' : m.Unfolds tree') :
    tree = tree' := by
  cases hp : m.pending with
  | none => rw [h.of_none hp, h'.of_none hp]
  | some g => exact (h.of_some hp).2.unique (h'.of_some hp).2

/-- Where choices lead, they come to an end, too. -/
theorem HasFiniteTree.reaches (h : m.HasFiniteTree) (hn : m.Reaches n) : n.HasFiniteTree := by
  induction hn with
  | refl => exact h
  | tail _ hlast ih =>
    obtain ⟨hg, hi, htransition⟩ := hlast
    cases ih with
    | intro _ _ below => exact below _ _ _ _ hg hi htransition

/-- A finite tree has no faults in it. -/
theorem HasFiniteTree.neverFails (h : m.HasFiniteTree) : m.NeverFails := by
  constructor
  · intro n g hn hg
    cases h.reaches hn with
    | intro nonempty runs below => exact nonempty g hg
  · intro n g i hn hg hi
    cases h.reaches hn with
    | intro nonempty runs below => exact runs g i hg hi

/-- Choices that come to an end make up a tree. -/
theorem HasFiniteTree.exists_unfolds (h : m.HasFiniteTree) : ∃ tree, m.Unfolds tree := by
  induction h with
  | @intro m nonempty runs _ ih =>
    cases hp : m.pending with
    | none => exact ⟨.none, by simp [Unfolds, hp]⟩
    | some g =>
      -- from the last choice to the first one
      have hfrom : ∀ j, j ≤ g.total → ∃ b, Branches.Of m g (g.total - j) b := by
        intro j
        induction j with
        | zero => exact fun _ => ⟨.none, .exhausted (by omega)⟩
        | succ j ihj =>
          intro hj
          obtain ⟨after, hafter⟩ := ihj (by omega)
          have hmore : g.total - (j + 1) < g.total := by omega
          rw [show g.total - j = g.total - (j + 1) + 1 by omega] at hafter
          obtain ⟨e, m', htransition⟩ := runs g _ hp hmore
          obtain ⟨below, hbelow⟩ := ih g _ e m' hp hmore htransition
          cases hp' : m'.pending with
          | none => exact ⟨_, .ended hmore htransition hp' hafter⟩
          | some g' =>
            obtain ⟨hpos, hof⟩ := hbelow.of_some hp'
            exact ⟨_, .opened hmore htransition hp' hpos hof hafter⟩
      obtain ⟨b, hb⟩ := hfrom g.total (Nat.le_refl _)
      rw [Nat.sub_self] at hb
      exact ⟨b, by simp [Unfolds, hp, nonempty g hp, hb]⟩

/-- Do the choices come to an end, on paths of no more choices than this? -/
def endsWithin : Nat → Machine → Bool
  | 0, _ => false
  | n + 1, m =>
    match m.pending with
    | none => true
    | some g => 0 < g.total && (List.range g.total).all fun i =>
        gives (transition (g.select i).2) m fun _ m' => endsWithin n m'

theorem HasFiniteTree.of_endsWithin {n : Nat} (h : endsWithin n m = true) : m.HasFiniteTree := by
  induction n generalizing m with
  | zero => cases h
  | succ n ih =>
    have hchoices : ∀ g, m.pending = some g → 0 < g.total ∧ ∀ i < g.total,
        ∃ e m', m.transition (g.select i).2 = .ok e m' ∧ endsWithin n m' = true := by
      intro g hg
      simp only [endsWithin, hg, Bool.and_eq_true, decide_eq_true_eq, List.all_eq_true,
        List.mem_range, gives_iff] at h
      exact h
    refine .intro (fun g hg => (hchoices g hg).1) (fun g i hg hi => ?_) fun g i e m' hg hi hm' => ?_
    · obtain ⟨e, m', hm', -⟩ := (hchoices g hg).2 i hi
      exact ⟨e, m', hm'⟩
    · obtain ⟨e', m'', hm'', hends⟩ := (hchoices g hg).2 i hi
      rw [hm'] at hm''
      cases hm''
      exact ih hends

/-! ## Plain recursion -/

/-- Adds up what is counted behind each of some choices from one state. -/
def sumChoices (count : Action Nat) (before : Snapshot) (g : Generator) : List Nat → Action Nat
  | [] => pure 0
  | i :: is => do
    modify (·.restore before)
    let _ ← transition (g.select i).2
    return (← count) + (← sumChoices count before g is)

/-- Counts the paths by recursion over snapshots, with a bound on their length. -/
def countPaths : Nat → Action Nat
  | 0 => throw .budgetExhausted
  | n + 1 => do
    let (g, m) := (← get).takePending
    set m
    match g with
    | none => pure 1
    | some g => sumChoices (countPaths n) m.snapshot g (List.range g.total)

theorem countPaths_succ_of_none (hp : n.pending = none) (bound : Nat) :
    countPaths (bound + 1) n = .ok 1 { n with pending := none } := by
  unfold countPaths
  rw [get_bind]
  simp only [takePending, set_bind, hp]
  rfl

theorem countPaths_succ_of_some {g : Generator} (hp : n.pending = some g) (bound : Nat) :
    countPaths (bound + 1) n =
      sumChoices (countPaths bound) n.snapshot g (List.range g.total) { n with pending := none } := by
  rw [countPaths, get_bind]
  simp only [takePending, set_bind, hp]
  rfl

/-- One choice, and those after it. -/
theorem sumChoices_cons_eq_ok {count : Action Nat} {before : Snapshot} {g : Generator} {i a b : Nat}
    {is : List Nat} {k k₁ k₂ k₃ : Machine} {e : TransitionEnd}
    (hstep : transition (g.select i).2 (k.restore before) = .ok e k₁)
    (hcount : count k₁ = .ok a k₂) (hrest : sumChoices count before g is k₂ = .ok b k₃) :
    sumChoices count before g (i :: is) k = .ok (a + b) k₃ := by
  unfold sumChoices
  rw [modify_bind, bind_eq_ok]
  refine ⟨e, k₁, hstep, ?_⟩
  rw [bind_eq_ok]
  refine ⟨a, k₂, hcount, ?_⟩
  rw [bind_eq_ok]
  exact ⟨b, k₃, hrest, rfl⟩

/-- Plain recursion over the choices of a generator from a position on counts the leaves of their
tree, wherever the machine is. -/
theorem sumChoices_eq {g : Generator} {i : Nat} {b : Branches} (h : Branches.Of m g i b)
    (hm : m.IsReady) :
    ∃ bound, ∀ n, bound ≤ n → ∀ k, SameRun m k → ∃ k', SameRun m k' ∧
      sumChoices (countPaths n) m.snapshot g (List.range' i (g.total - i)) k =
        .ok (b.preorder.countP (!·.expanded)) k' := by
  induction h with
  | exhausted last =>
    rw [Nat.sub_eq_zero_of_le last]
    exact ⟨0, fun n _ k hk => ⟨k, hk, rfl⟩⟩
  | @ended m m' g i e after more transition pending _ ih =>
    obtain ⟨bound, ih⟩ := ih hm
    refine ⟨bound + 1, fun n hn k hk => ?_⟩
    obtain ⟨n, rfl⟩ : ∃ j, n = j + 1 := ⟨n - 1, by omega⟩
    obtain ⟨k₁, hk₁, halike⟩ := transition_agree hk.restore.forgetful.symm transition
    have hsame : SameRun m k₁ := IsTrans.trans _ _ _ (sameRun_of_transition hm.hostCall transition)
      halike.symm.sameRun
    obtain ⟨k', hk', hrest⟩ := ih (n + 1) (by omega) { k₁ with pending := none }
      ⟨hsame.program, hsame.config, hsame.hostCall⟩
    refine ⟨k', hk', ?_⟩
    rw [show g.total - i = g.total - (i + 1) + 1 by omega, List.range'_succ]
    rw [sumChoices_cons_eq_ok hk₁ (countPaths_succ_of_none (halike.pending ▸ pending) n) hrest]
    simp [Branches.isNone, Nat.add_comm]
  | @opened m m' g g' i e below after more transition pending nonempty deeper _ ihb iha =>
    have hm' := hm.transition transition
    obtain ⟨bound, iha⟩ := iha hm
    obtain ⟨bound', ihb⟩ := ihb hm'
    refine ⟨max bound bound' + 1, fun n hn k hk => ?_⟩
    obtain ⟨n, rfl⟩ : ∃ j, n = j + 1 := ⟨n - 1, by omega⟩
    obtain ⟨k₁, hk₁, halike⟩ := transition_agree hk.restore.forgetful.symm transition
    have hstep : SameRun m m' := sameRun_of_transition hm.hostCall transition
    have hsame := halike.symm.sameRun
    obtain ⟨k₂, hk₂, hbelow⟩ := ihb n (by omega) { k₁ with pending := none }
      ⟨hsame.program, hsame.config, hsame.hostCall⟩
    obtain ⟨k', hk', hrest⟩ := iha (n + 1) (by omega) k₂ (IsTrans.trans _ _ _ hstep hk₂)
    refine ⟨k', hk', ?_⟩
    rw [show g.total - i = g.total - (i + 1) + 1 by omega, List.range'_succ]
    have hcount : countPaths (n + 1) k₁ = .ok (below.preorder.countP (!·.expanded)) k₂ := by
      rw [countPaths_succ_of_some (halike.pending ▸ pending), ← halike.snapshot,
        List.range_eq_range']
      exact hbelow
    rw [sumChoices_cons_eq_ok hk₁ hcount hrest]
    simp [deeper.isNone_eq_false nonempty]

/-- Plain recursion counts the leaves of the choice tree, if it may go deep enough. -/
theorem countPaths_eq (h : m.Unfolds tree) (hm : m.IsReady) :
    ∃ bound, ∀ n, bound ≤ n → ∃ m', countPaths n m = .ok tree.leaves m' := by
  cases hp : m.pending with
  | none =>
    refine ⟨1, fun n hn => ?_⟩
    obtain ⟨n, rfl⟩ : ∃ j, n = j + 1 := ⟨n - 1, by omega⟩
    rw [h.of_none hp, countPaths_succ_of_none hp]
    exact ⟨_, rfl⟩
  | some g =>
    obtain ⟨hpos, hof⟩ := h.of_some hp
    obtain ⟨bound, hsum⟩ := sumChoices_eq hof hm
    refine ⟨bound + 1, fun n hn => ?_⟩
    obtain ⟨n, rfl⟩ : ∃ j, n = j + 1 := ⟨n - 1, by omega⟩
    obtain ⟨k', -, hk'⟩ := hsum n (by omega) { m with pending := none } ⟨rfl, rfl, rfl⟩
    rw [countPaths_succ_of_some hp, List.range_eq_range']
    refine ⟨k', ?_⟩
    unfold Branches.leaves
    rw [hof.isNone_eq_false hpos]
    exact hk'

end Machine

end Interleave

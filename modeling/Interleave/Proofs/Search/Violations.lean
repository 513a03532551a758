import Interleave.Proofs.Search.Queue
import Interleave.Proofs.Search.Replay
import Interleave.Proofs.Search.Stack

/-!
# Violations can be reproduced

A search records a violation together with the trail that leads to it. Whatever the strategy, the
state in which the search began, with its generator pending, leads to the violation again if the
choices of the trail are replayed.

The strategies jump between stored states in different ways, but they have one thing in common: each
choice is tried in front of a state that is retraced from the first one, with the generator that was
pending there. This is the invariant of the stack, of the queue, and of the path that is sampled.
-/

namespace Interleave

open Effect Machine

/-- From the state `m`, the choices of its trail lead to where a violation was found. -/
def Violation.Reproducible (m : Machine) (v : Violation) : Prop :=
  v.trail.toList.take m.depth = m.path.trail.toList ∧
    ∃ p ∈ Property.defaults, p.name = v.property ∧
      ∀ n, m.SameRun n → ∃ x,
        ({ n.restore m.snapshot with pending := m.pending } : Machine).replay
            (v.trail.toList.drop m.depth) = some x ∧
          x.path.trail = v.trail ∧ p.check x = some v.message

namespace Search

variable {s t : Search} {m x y : Machine} {vs : List Violation} {g : Generator} {c : Choice}
  {i : Nat}

/-- All violations found since can be reproduced. -/
def Recorded (m : Machine) (vs : List Violation) (s : Search) : Prop :=
  ∃ found, s.violations.toList = vs ++ found ∧ ∀ v ∈ found, v.Reproducible m

/-- A search that began in the state `m` with some violations is under way. -/
structure UnderWay (m : Machine) (vs : List Violation) (s : Search) : Prop where
  properties : s.properties = Property.defaults
  sameRun : m.SameRun s.machine
  recorded : Recorded m vs s

theorem Recorded.of_eq (h : Recorded m vs s) (hv : t.violations = s.violations) :
    Recorded m vs t := by
  unfold Recorded
  rw [hv]
  exact h

theorem UnderWay.of_eq (h : UnderWay m vs s) (hp : t.properties = s.properties)
    (hv : t.violations = s.violations) (hr : s.machine.SameRun t.machine) : UnderWay m vs t where
  properties := hp.trans h.properties
  sameRun := IsTrans.trans _ _ _ h.sameRun hr
  recorded := h.recorded.of_eq hv

/-- What is wrong in a state that is retraced can be reproduced. -/
theorem reproducible_of_retraces (hx : m.Retraces x) (halike : s.machine.Alike True x)
    (hp : s.properties = Property.defaults) {v : Violation} (hv : v ∈ s.failures) :
    v.Reproducible m := by
  unfold failures at hv
  rw [hp] at hv
  obtain ⟨p, hmem, hcheck⟩ := List.mem_filterMap.mp hv
  obtain ⟨message, hmessage, rfl⟩ := Option.map_eq_some_iff.mp hcheck
  obtain ⟨rs, htrail, hrs⟩ := hx.replayed
  have hlength : m.depth = m.path.trail.toList.length := rfl
  have hsplit : s.machine.path.trail.toList = m.path.trail.toList ++ rs :=
    (congrArg Array.toList (halike.trail trivial)).trans htrail
  refine ⟨?_, p, hmem, rfl, fun n hn => ?_⟩
  · dsimp only
    rw [hsplit, hlength, List.take_left]
  · have hrestored : Alike True m { n.restore m.snapshot with pending := m.pending } :=
      ⟨hn.1.symm, hn.2.symm, rfl, hn.3.symm, rfl, rfl, rfl, rfl, rfl, fun _ => rfl, fun _ => rfl⟩
    obtain ⟨y, hy, hxy⟩ := hrestored.replay hrs
    refine ⟨y, ?_, ?_, ?_⟩
    · dsimp only
      rw [hsplit, hlength, List.drop_left]
      exact hy
    · exact (hxy.trail trivial).symm.trans (halike.trail trivial).symm
    · rw [← hxy.check hmem, ← halike.check hmem]
      exact hmessage

/-- Going back finds nothing. -/
theorem UnderWay.of_returned {snapshot : Snapshot} (h : UnderWay m vs s)
    (hreturned : Returned s snapshot t) : UnderWay m vs t := by
  refine h.of_eq hreturned.task.properties hreturned.violations ?_
  rw [hreturned.machine]
  exact ⟨rfl, rfl, rfl⟩

/-! ## What the strategies have in common -/

/-- Properties are checked in a state that is retraced. -/
theorem UnderWay.checkProperties (h : UnderWay m vs s) (hx : m.Retraces x)
    (halike : s.machine.Alike True x) : UnderWay m vs s.checkProperties.2 := by
  obtain ⟨hmachine, hproperties, found, hfound, hviolations⟩ := checkProperties_found s
  obtain ⟨old, hold, hreproducible⟩ := h.recorded
  refine ⟨hproperties.trans h.properties, hmachine ▸ h.sameRun, old ++ found, ?_, ?_⟩
  · rw [hviolations, hold, List.append_assoc]
  · intro v hv
    rcases List.mem_append.mp hv with hv | hv
    · exact hreproducible v hv
    · exact reproducible_of_retraces hx halike h.properties (hfound v hv)

/-- A choice is tried in front of a state that is retraced. -/
theorem UnderWay.forward (h : UnderWay m vs s) (hx : m.Retraces x)
    (halike : s.machine.Alike True { x with pending := none }) (hg : x.pending = some g)
    (hc : (g.select i).1 = some c) :
    Ends (fun _ t => UnderWay m vs t ∧ ∃ y, m.Retraces y ∧ t.machine.Alike True y) (Recorded m vs)
      (forward (g.select i).2 s) := by
  unfold Search.forward
  cases ht : s.machine.transition (g.select i).2 with
  | error e k => exact h.recorded.of_eq rfl
  | ok e k =>
    obtain ⟨y, hy, hky⟩ := transition_agree halike.forgetful ht
    have hretraces := hx.step hg hc hy
    have hmachine : ∀ (t : Search) (n : SearchNotice), t.machine = k → (t.tell n).machine = k :=
      fun t n ht => (machine_tell t n).trans ht
    refine ⟨⟨?_, ?_, ?_⟩, y, hretraces, ?_⟩
    · rw [properties_tell]
      exact h.properties
    · rw [hmachine _ _ rfl]
      exact IsTrans.trans _ _ _ hretraces.sameRun hky.sameRun
    · exact h.recorded.of_eq (violations_tell _ _)
    · rw [hmachine _ _ rfl]
      exact hky

/-- The search looks at a state that is retraced. -/
theorem UnderWay.arrive (h : UnderWay m vs s) (hx : m.Retraces x) (halike : s.machine.Alike True x)
    (bound : Option Nat) : UnderWay m vs (s.arrive bound).2 ∧
      ∀ g, (s.arrive bound).1 = .opened g → x.pending = some g ∧
        (s.arrive bound).2.machine.Alike True { x with pending := none } := by
  have hchecked := h.checkProperties hx halike
  have hmachine := (checkProperties_found s).1
  unfold Search.arrive
  generalize s.checkProperties = r at hchecked hmachine
  obtain ⟨failed, s₁⟩ := r
  dsimp only at hchecked hmachine ⊢
  split
  · exact ⟨hchecked.of_eq rfl rfl (refl _), fun g hg => by cases hg⟩
  · split
    · have hcut := (cutOff_eq s₁).1
      refine ⟨hchecked.of_eq hcut.task.properties hcut.violations ?_, fun g hg => by cases hg⟩
      rw [show s₁.cutOff.pathFinished.machine = s₁.machine from hcut.machine]
      exact refl _
    · rw [← hmachine] at halike
      cases hp : s₁.machine.pending with
      | none =>
        rw [takeChoicePoint_of_none hp]
        exact ⟨hchecked.of_eq rfl rfl (refl _), fun g hg => by cases hg⟩
      | some g =>
        rw [takeChoicePoint_of_some hp]
        dsimp only
        have htaken : UnderWay m vs { s₁ with machine := { s₁.machine with pending := none } } :=
          hchecked.of_eq rfl rfl ⟨rfl, rfl, rfl⟩
        rcases visit_eq { s₁ with machine := { s₁.machine with pending := none } } g with
          ⟨-, -, hvisit⟩ | ⟨-, hvisit⟩
        · rw [hvisit]
          exact ⟨htaken.of_eq rfl rfl (refl _), fun g hg => by cases hg⟩
        · rw [hvisit]
          refine ⟨htaken.of_eq rfl rfl (refl _), ?_⟩
          rintro _ ⟨⟩
          exact ⟨halike.pending.symm.trans hp, halike.withoutPending⟩

/-- A search with nothing to choose looks at the state in which it began. -/
theorem UnderWay.finishWithoutChoice (h : UnderWay m vs s) (hx : m.Retraces x)
    (halike : s.machine.Alike True x) : Recorded m vs s.finishWithoutChoice :=
  (h.checkProperties hx halike).recorded.of_eq rfl

/-- Counting a choice point as expanded finds nothing. -/
theorem UnderWay.visit (h : UnderWay m vs s) (g : Generator) : UnderWay m vs (s.visit g).2 := by
  rcases visit_eq s g with ⟨-, -, hvisit⟩ | ⟨-, hvisit⟩
  · rw [hvisit]
    exact h.of_eq rfl rfl (refl _)
  · rw [hvisit]
    exact h.of_eq rfl rfl (refl _)

/-! ## Depth-first search -/

namespace DepthFirst

/-- A choice point on the stack is one of a state that is retraced, and the search is still there if
none of its choices has been tried. -/
def IsRetraced (m : Machine) (s : Search) (b : Branch) : Prop :=
  ∃ x g i, m.Retraces x ∧ x.pending = some g ∧ b = branchAt x g i b.fresh ∧
    (b.fresh = true → s.machine.Alike True { x with pending := none })

/-- The choice points on the stack; below the one on top, all have been tried. -/
structure Stacked (m : Machine) (s : Search) (stack : List Branch) : Prop where
  retraced : ∀ b ∈ stack, IsRetraced m s b
  tried : ∀ b ∈ stack.tail, b.fresh = false

theorem IsRetraced.of_tried {b : Branch} (h : IsRetraced m s b) (hb : b.fresh = false) :
    IsRetraced m t b := by
  obtain ⟨x, g, i, hx, hg, heq, -⟩ := h
  refine ⟨x, g, i, hx, hg, heq, fun hfresh => ?_⟩
  rw [hb] at hfresh
  cases hfresh

/-- A stack of choice points that have all been tried, wherever the search is. -/
theorem Stacked.of_tried {stack : List Branch} (h : ∀ b ∈ stack, IsRetraced m s b)
    (htried : ∀ b ∈ stack, b.fresh = false) : Stacked m t stack where
  retraced b hb := (h b hb).of_tried (htried b hb)
  tried b hb := htried b (List.mem_of_mem_tail hb)

/-- A choice point that was just reached stands on top. -/
theorem Stacked.push {stack : List Branch} (h : ∀ b ∈ stack, IsRetraced m s b)
    (htried : ∀ b ∈ stack, b.fresh = false) (hx : m.Retraces x) (hg : x.pending = some g)
    (halike : t.machine.Alike True { x with pending := none }) :
    Stacked m t (branch t g :: stack) where
  retraced b hb := by
    rcases List.mem_cons.mp hb with rfl | hb
    · exact ⟨x, g, 0, hx, hg, branch_eq halike (hx.ready.untried g hg), fun _ => halike⟩
    · exact (h b hb).of_tried (htried b hb)
  tried b hb := htried b hb

/-- The search looks at the state that a choice has led to, above choice points of which some choice
has been tried. -/
theorem look_ends {stack : List Branch} (bound : Option Nat) (h : UnderWay m vs s)
    (hx : m.Retraces x) (halike : s.machine.Alike True x) (hstack : ∀ b ∈ stack, IsRetraced m s b)
    (htried : ∀ b ∈ stack, b.fresh = false) :
    Ends (fun r t => Sum.elim (fun stack' => UnderWay m vs t ∧ Stacked m t stack')
      (fun _ => Recorded m vs t) r) (Recorded m vs) (look bound stack s) := by
  obtain ⟨harrived, hopened⟩ := h.arrive hx halike bound
  unfold look
  cases ha : (s.arrive bound).1 with
  | stopped => exact harrived.recorded
  | closed => exact ⟨harrived, .of_tried hstack htried⟩
  | opened g =>
    obtain ⟨hg, halike'⟩ := hopened g ha
    exact ⟨harrived, .push hstack htried hx hg halike'⟩

/-- A round keeps to states that are retraced. -/
theorem round_ends {stack : List Branch} (bound : Option Nat) (h : UnderWay m vs s)
    (hstack : Stacked m s stack) :
    Ends (fun r t => Sum.elim (fun stack' => UnderWay m vs t ∧ Stacked m t stack')
      (fun _ => Recorded m vs t) r) (Recorded m vs) (round bound stack s) := by
  cases stack with
  | nil => exact h.recorded
  | cons top rest =>
    cases hdone : s.done with
    | true =>
      rw [round_of_done bound rest hdone]
      exact h.recorded
    | false =>
      obtain ⟨x, g, i, hx, hg, htop, hfresh⟩ := hstack.retraced top List.mem_cons_self
      have hrest : ∀ b ∈ rest, IsRetraced m s b := fun b hb =>
        hstack.retraced b (List.mem_cons_of_mem _ hb)
      generalize top.fresh = fresh at htop hfresh
      subst htop
      rcases Nat.lt_or_ge i g.total with hi | hi
      · rw [round_eq bound rest hdone hi]
        obtain ⟨hback, halike⟩ := backTo_branchAt (g := g) (i := i)
          (IsTrans.trans _ _ _ hx.sameRun.symm h.sameRun) hfresh
        have hunderWay : UnderWay m vs (backTo s (branchAt x g i fresh)) := by
          rcases hback with heq | hreturned
          · rw [heq]
            exact h
          · exact h.of_returned hreturned
        obtain ⟨c, hc⟩ := Generator.exists_select_fst hi
        refine (hunderWay.forward hx halike hg hc).bind ?_
        rintro _ t ⟨ht, y, hy, hty⟩
        refine look_ends bound ht hy hty ?_ ?_
        · intro b hb
          rcases List.mem_cons.mp hb with rfl | hb
          · exact ⟨x, g, i + 1, hx, hg, rfl, nofun⟩
          · exact (hrest b hb).of_tried (hstack.tried b hb)
        · intro b hb
          rcases List.mem_cons.mp hb with rfl | hb
          · rfl
          · exact hstack.tried b hb
      · rcases Nat.eq_zero_or_pos g.total with hempty | hpos
        · rw [round_of_empty bound rest hdone hempty]
          exact h.recorded
        · rw [round_of_exhausted bound rest hdone hi hpos]
          exact ⟨h, .of_tried hrest hstack.tried⟩

theorem search_ends (rounds : Nat) (hm : m.IsReady) (h : UnderWay m vs s)
    (halike : s.machine.Alike True m) :
    Ends (fun _ t => Recorded m vs t) (Recorded m vs) (DepthFirst.search rounds s) := by
  unfold search
  rw [get_bind, get_bind]
  cases hp : s.machine.pending with
  | none =>
    rw [takeChoicePoint_of_none hp]
    exact h.finishWithoutChoice (.refl hm) halike
  | some root =>
    rw [takeChoicePoint_of_some hp]
    dsimp only
    rw [set_bind]
    have hunderWay : UnderWay m vs { s with machine := { s.machine with pending := none } } :=
      h.of_eq rfl rfl ⟨rfl, rfl, rfl⟩
    have hvisited := hunderWay.visit root
    have hmachine := machine_visit { s with machine := { s.machine with pending := none } } root
    generalize (visit { s with machine := { s.machine with pending := none } } root).2 = t
      at hvisited hmachine
    have halike' : t.machine.Alike True { m with pending := none } := by
      rw [hmachine]
      exact halike.withoutPending
    have hstacked : Stacked m t [branch t root] :=
      .push (s := s) (by simp) (by simp) (.refl hm) (halike.pending.symm.trans hp) halike'
    exact Loop.run_ends _ (I := fun stack t => UnderWay m vs t ∧ Stacked m t stack)
      (fun stack t ht => round_ends s.depthBound ht.1 ht.2) (fun _ _ ht => ht.1.recorded) rounds
      ⟨hvisited, hstacked⟩

end DepthFirst

/-! ## Best-first search -/

namespace BestFirst

variable {α : Type} {h : Heuristic α} {q : Queue α}

/-- An entry of the queue is a choice in front of a state that is retraced, and the search is still
there at the beginning. -/
def IsRetraced (m : Machine) (s : Search) (atRoot : Bool) (e : Entry) : Prop :=
  ∃ x g i, m.Retraces x ∧ x.pending = some g ∧ i < g.total ∧ e = Queue.entry x g i ∧
    (atRoot = true → s.machine.Alike True { x with pending := none })

/-- The entries of the queue. -/
structure Queued (m : Machine) (s : Search) (q : Queue α) : Prop where
  numbered : q.Numbered
  retraced : ∀ e ∈ q.list, IsRetraced m s q.atRoot e

/-- What is queued stays where it is once the search has left the first choice point. -/
theorem IsRetraced.leave {e : Entry} {atRoot : Bool} (hs : IsRetraced m s atRoot e) :
    IsRetraced m t false e := by
  obtain ⟨x, g, i, hx, hg, hi, heq, -⟩ := hs
  exact ⟨x, g, i, hx, hg, hi, heq, nofun⟩

/-- All choices of a generator are queued in front of the state in which it is pending. -/
theorem expand_ends (hs : UnderWay m vs s) (hq : Queued m s q) (hx : m.Retraces x)
    (hg : x.pending = some g) (halike : s.machine.Alike True { x with pending := none }) :
    Ends (fun q' t => UnderWay m vs t ∧ Queued m t q') (Recorded m vs) (q.expand h g s) := by
  rcases Nat.eq_zero_or_pos g.total with hempty | hpos
  · unfold Queue.expand
    rw [if_pos hempty]
    exact hs.recorded
  · obtain ⟨q', hexpand, hperm, hnumbered, hroot⟩ :=
      Queue.expand_eq (h := h) (s := s) hq.numbered hpos
    rw [hexpand]
    refine ⟨hs, hnumbered, fun e he => ?_⟩
    rw [hroot]
    rcases List.mem_append.mp (hperm.subset he) with he | he
    · obtain ⟨i, hi, rfl⟩ := List.mem_map.mp he
      refine ⟨x, g, i, hx, hg, List.mem_range.mp hi, ?_, fun _ => halike⟩
      unfold Queue.entry
      rw [halike.snapshot]
      rfl
    · exact hq.retraced e he

/-- The search looks at the state that a choice has led to. -/
theorem look_ends (bound : Option Nat) (hs : UnderWay m vs s) (hx : m.Retraces x)
    (halike : s.machine.Alike True x) (hnumbered : q.Numbered) (hroot : q.atRoot = false)
    (hretraced : ∀ e ∈ q.list, IsRetraced m s false e) :
    Ends (fun r t => Sum.elim (fun q' => UnderWay m vs t ∧ Queued m t q')
      (fun _ => Recorded m vs t) r) (Recorded m vs) (look h bound q s) := by
  obtain ⟨harrived, hopened⟩ := hs.arrive hx halike bound
  have hqueued : Queued m (s.arrive bound).2 q :=
    ⟨hnumbered, fun e he => hroot ▸ (hretraced e he).leave⟩
  unfold look
  cases ha : (s.arrive bound).1 with
  | stopped => exact harrived.recorded
  | closed => exact ⟨harrived, hqueued⟩
  | opened g =>
    obtain ⟨hg, halike'⟩ := hopened g ha
    exact (expand_ends harrived hqueued hx hg halike').bind fun q' t ht => ht

/-- A round keeps to states that are retraced. -/
theorem round_ends (bound : Option Nat) (hs : UnderWay m vs s) (hq : Queued m s q) :
    Ends (fun r t => Sum.elim (fun q' => UnderWay m vs t ∧ Queued m t q')
      (fun _ => Recorded m vs t) r) (Recorded m vs) (round h bound q s) := by
  cases hmin : q.entries.minEntry? with
  | none =>
    rw [round_of_none hmin]
    exact hs.recorded
  | some entry =>
    obtain ⟨rank, e⟩ := entry
    cases hdone : s.done with
    | true =>
      rw [round_of_done hdone hmin]
      exact hs.recorded
    | false =>
      have hperm := Queue.list_perm_of_minEntry? hmin false
      obtain ⟨x, g, i, hx, hg, hi, rfl, hroot⟩ :=
        hq.retraced e (hperm.symm.subset List.mem_cons_self)
      have hjump : UnderWay m vs (jumpTo s q.atRoot (Queue.entry x g i)) ∧
          (jumpTo s q.atRoot (Queue.entry x g i)).machine.Alike True { x with pending := none } := by
        unfold jumpTo
        cases hat : q.atRoot with
        | true =>
          rw [if_pos rfl]
          exact ⟨hs, hroot hat⟩
        | false =>
          rw [if_neg Bool.false_ne_true]
          have hreturned := Returned.restore s x.snapshot
          have hrun : x.SameRun s.machine := IsTrans.trans _ _ _ hx.sameRun.symm hs.sameRun
          refine ⟨hs.of_returned hreturned, ?_⟩
          rw [show (s.restore (Queue.entry x g i).snapshot).machine = _ from hreturned.machine]
          exact hrun.restore
      obtain ⟨c, hc⟩ := Generator.exists_select_fst hi
      rw [round_eq h bound hdone hmin]
      refine (hjump.1.forward hx hjump.2 hg hc).bind ?_
      rintro _ t ⟨ht, y, hy, hty⟩
      refine look_ends bound ht hy hty (hq.numbered.erase rank false) rfl fun e he => ?_
      exact (hq.retraced e (hperm.symm.subset (List.mem_cons_of_mem _ he))).leave

theorem search_ends (rounds : Nat) (hm : m.IsReady) (hs : UnderWay m vs s)
    (halike : s.machine.Alike True m) :
    Ends (fun _ t => Recorded m vs t) (Recorded m vs) (BestFirst.search h rounds s) := by
  unfold search
  rw [get_bind, get_bind]
  cases hp : s.machine.pending with
  | none =>
    rw [takeChoicePoint_of_none hp]
    exact hs.finishWithoutChoice (.refl hm) halike
  | some root =>
    rw [takeChoicePoint_of_some hp]
    dsimp only
    rw [set_bind]
    have hunderWay : UnderWay m vs { s with machine := { s.machine with pending := none } } :=
      hs.of_eq rfl rfl ⟨rfl, rfl, rfl⟩
    have hvisited := hunderWay.visit root
    have hmachine := machine_visit { s with machine := { s.machine with pending := none } } root
    generalize (visit { s with machine := { s.machine with pending := none } } root).2 = t
      at hvisited hmachine
    have halike' : t.machine.Alike True { m with pending := none } := by
      rw [hmachine]
      exact halike.withoutPending
    have hqueued : Queued m t ({ memory := h.start } : Queue α) :=
      ⟨Queue.numbered_start h.start, by simp⟩
    refine (expand_ends hvisited hqueued (.refl hm) (halike.pending.symm.trans hp) halike').bind ?_
    intro q u hu
    exact Loop.run_ends _ (I := fun q t => UnderWay m vs t ∧ Queued m t q)
      (fun q t ht => round_ends s.depthBound ht.1 ht.2) (fun _ _ ht => ht.1.recorded) rounds hu

end BestFirst

/-! ## Sampling -/

namespace Sampling

variable {bound : Option Nat} {rng : Rng}

/-- The path that is sampled has come to a state that is retraced, with this generator pending. -/
def IsRetraced (m : Machine) (s : Search) (g : Generator) : Prop :=
  ∃ x, m.Retraces x ∧ x.pending = some g ∧ s.machine.Alike True { x with pending := none }

/-- A random choice is one of the choices. -/
theorem selectRandom_eq_some {g' : Generator} {rng' : Rng}
    (h : g.selectRandom rng = (some c, g', rng')) :
    ∃ i, (g.select i).1 = some c ∧ g' = (g.select i).2 := by
  unfold Generator.selectRandom at h
  split at h
  · cases h
  · generalize rng.below (UInt64.ofNat g.total) = r at h
    obtain ⟨i, rng₁⟩ := r
    simp only [Prod.mk.injEq] at h
    exact ⟨i.toNat, h.1, h.2.1.symm⟩

/-- Properties are checked where the path has come to, and it goes on if a choice is left. -/
theorem proceed_keeps (bound : Option Nat) (hs : UnderWay m vs s) (hx : m.Retraces x)
    (halike : s.machine.Alike True x) :
    UnderWay m vs (proceed s bound).2 ∧
      ∀ g, (proceed s bound).1 = some g → IsRetraced m (proceed s bound).2 g := by
  unfold proceed
  split
  · exact ⟨hs, nofun⟩
  · split
    · have hcut := (cutOff_eq s).1
      refine ⟨hs.of_eq hcut.task.properties hcut.violations ?_, nofun⟩
      rw [hcut.machine]
      exact refl _
    · cases hp : s.machine.pending with
      | none =>
        rw [takeChoicePoint_of_none hp]
        exact ⟨hs, nofun⟩
      | some g =>
        rw [takeChoicePoint_of_some hp]
        refine ⟨hs.of_eq rfl rfl ⟨rfl, rfl, rfl⟩, ?_⟩
        rintro _ ⟨⟩
        exact ⟨x, hx, halike.pending.symm.trans hp, halike.withoutPending⟩

/-- A round keeps to states that are retraced. -/
theorem round_ends (bound : Option Nat) {root : Generator} {rng : Rng} (hm : m.IsReady)
    (hroot : m.pending = some root) (hs : UnderWay m vs s) (hg : IsRetraced m s g) :
    Ends (fun r t => Sum.elim (fun next => UnderWay m vs t ∧ IsRetraced m t next.1)
      (fun _ => Recorded m vs t) r) (Recorded m vs) (round bound m.snapshot root (g, rng) s) := by
  unfold round
  dsimp only
  rcases hselect : g.selectRandom rng with ⟨_ | c, g', rng'⟩
  · exact hs.recorded
  · obtain ⟨i, hc, rfl⟩ := selectRandom_eq_some hselect
    obtain ⟨x, hx, hpending, halike⟩ := hg
    dsimp only
    refine (hs.forward hx halike hpending hc).bind ?_
    rintro _ t ⟨ht, y, hy, hty⟩
    rw [get_bind]
    have hchecked := ht.checkProperties hy hty
    have hmachine := (checkProperties_found t).1
    obtain ⟨hproceed, hnext⟩ := proceed_keeps bound hchecked hy (hmachine ▸ hty)
    generalize proceed t.checkProperties.2 bound = r at hproceed hnext
    obtain ⟨_ | next, s'⟩ := r
    · dsimp only
      split
      · exact hproceed.recorded.of_eq rfl
      · have hreturned := Returned.restore s'.pathFinished m.snapshot
        have hfinished : UnderWay m vs s'.pathFinished := hproceed.of_eq rfl rfl (refl _)
        refine ⟨hfinished.of_returned hreturned, m, .refl hm, hroot, ?_⟩
        rw [hreturned.machine]
        exact hfinished.sameRun.restore
    · exact ⟨hproceed, hnext next rfl⟩

theorem search_ends (rounds : Nat) (hm : m.IsReady) (hs : UnderWay m vs s)
    (halike : s.machine.Alike True m) :
    Ends (fun _ t => Recorded m vs t) (Recorded m vs) (Sampling.search rounds s) := by
  unfold search
  rw [get_bind]
  cases hp : s.machine.pending with
  | none =>
    rw [takeChoicePoint_of_none hp]
    exact hs.finishWithoutChoice (.refl hm) halike
  | some root =>
    rw [takeChoicePoint_of_some hp]
    dsimp only
    rw [set_bind, halike.snapshot]
    have hroot : m.pending = some root := halike.pending.symm.trans hp
    have hunderWay : UnderWay m vs { s with machine := { s.machine with pending := none } } :=
      hs.of_eq rfl rfl ⟨rfl, rfl, rfl⟩
    exact Loop.run_ends _ (I := fun next t => UnderWay m vs t ∧ IsRetraced m t next.1)
      (fun next t ht => round_ends s.depthBound hm hroot ht.1 ht.2) (fun _ _ ht => ht.1.recorded)
      rounds ⟨hunderWay, m, .refl hm, hroot, halike.withoutPending⟩

end Sampling

/-! ## All strategies -/

/-- The ways to search: depth first, best first by some heuristic, and by sampling. -/
inductive Strategy.IsKnown : Strategy → Prop where
  | depthFirst : IsKnown depthFirst
  | bestFirst {α : Type} (h : Heuristic α) : IsKnown (bestFirst h)
  | sampling : IsKnown sampling

theorem Strategy.isKnown_of_mem {strategy : Strategy} (h : strategy ∈ strategies) :
    strategy.IsKnown := by
  simp only [strategies, List.mem_cons, List.not_mem_nil, or_false] at h
  rcases h with rfl | rfl | rfl | rfl
  · exact .depthFirst
  · exact .sampling
  · exact .bestFirst _
  · exact .bestFirst _

theorem Strategy.IsKnown.ends {strategy : Strategy} (h : strategy.IsKnown) (rounds : Nat)
    (hm : m.IsReady) (hs : UnderWay m vs s) (halike : s.machine.Alike True m) :
    Ends (fun _ t => Recorded m vs t) (Recorded m vs) (strategy.run rounds s) := by
  cases h with
  | depthFirst => exact DepthFirst.search_ends rounds hm hs halike
  | bestFirst h => exact BestFirst.search_ends rounds hm hs halike
  | sampling => exact Sampling.search_ends rounds hm hs halike

/-- **Violations can be reproduced.** Whatever a search records from a machine between transitions,
be it over in the end or stopped by a fault: the choices of the trail lead from the state in which
the search began to one in which the property fails in the way that was recorded. -/
theorem violations_reproducible {strategy : Strategy} (hstrategy : strategy.IsKnown)
    (hm : s.machine.IsReady) (hp : s.properties = Property.defaults) (rounds : Nat) :
    Ends (fun report t => Recorded s.machine s.violations.toList t ∧
        report.violations = t.violations.toList)
      (Recorded s.machine s.violations.toList) (run strategy rounds s) := by
  have hbegin : UnderWay s.machine s.violations.toList (s.tell (.started s.depth)) := by
    refine UnderWay.of_eq ⟨hp, refl _, [], by simp, nofun⟩ (properties_tell s _)
      (violations_tell s _) ?_
    rw [machine_tell]
    exact refl _
  have halike : (s.tell (.started s.depth)).machine.Alike True s.machine := by
    rw [machine_tell]
    exact .refl _
  have hends := hstrategy.ends rounds hm hbegin halike
  unfold run
  rw [hm.started]
  simp only [Bool.not_true, Bool.false_eq_true, if_false]
  cases hrun : strategy.run rounds (s.tell (.started s.depth)) with
  | ok u t =>
    rw [hrun] at hends
    exact ⟨hends.of_eq (violations_tell t _), rfl⟩
  | error e t =>
    rw [hrun] at hends
    exact hends.of_eq (violations_tell t _)

/-- Sampling goes back to the start twice before it picks three values that are all equal. The four
choices that it reports lead to the failed assertion again. -/
theorem violations_reproducible_nondet : ∃ p m config report s',
    Demo.nondet.run (Program.base .plain) = .ok ((), p) ∧ m.Driven p {} ∧ m.IsReady ∧
      sampling.IsKnown ∧ run sampling 20 { machine := m, config } = .ok report s' ∧
      report.stats.restores = 2 ∧ ∃ v ∈ report.violations, v.depth = 4 ∧ v.Reproducible m := by
  let config : SearchConfig := { seed := 24, pathLimit := 3, stateMatching := false }
  obtain ⟨p, m, hbuild, hdriven, htest⟩ := Machine.Driven.exists_of_demo Demo.nondet []
    (fun _ m => gives (run sampling 20) { machine := m, config } fun report _ =>
      report.stats.restores == 2 && report.violations.any (·.depth == 4)) (by decide +kernel)
  obtain ⟨report, s', hrun, hreport⟩ := gives_iff.mp htest
  simp only [Bool.and_eq_true, List.any_eq_true, beq_iff_eq] at hreport
  obtain ⟨hrestores, v, hv, hdepth⟩ := hreport
  have hends := violations_reproducible (s := { machine := m, config }) .sampling hdriven.isReady
    rfl 20
  rw [hrun] at hends
  obtain ⟨⟨found, hfound, hreproducible⟩, hviolations⟩ := hends
  have hmem : v ∈ found := by
    rw [hviolations, hfound] at hv
    simpa using hv
  exact ⟨p, m, config, report, s', hbuild, hdriven, hdriven.isReady, .sampling, hrun, hrestores, v,
    hv, hdepth, hreproducible v hmem⟩

end Search

end Interleave

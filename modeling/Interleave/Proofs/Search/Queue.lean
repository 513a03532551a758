import Interleave.Proofs.Choice
import Interleave.Proofs.Search.Arrival

/-!
# The queue of a best-first search

A round takes the entry of the lowest rank out of the queue. Entries are numbered in the order in
which they are queued, so that a new one takes the place of none. What the heuristic says decides
their order alone: as a collection, the queue holds what was queued and has not been taken.
-/

namespace Interleave.Search.BestFirst

open Effect Std

instance : LawfulEqCmp Rank.order where
  eq_of_compare h := by
    obtain ⟨hpriority, hnumber⟩ := compareLex_eq_eq.mp h
    exact Prod.ext (LawfulEqCmp.eq_of_compare hpriority) (LawfulEqCmp.eq_of_compare hnumber)

/-! ## The least entry of a map -/

section Map

variable {κ β : Type} {cmp : κ → κ → Ordering} {t : TreeMap κ β cmp}

/-- The least entry of a map is the first one in order. -/
theorem minEntry?_eq_head? (t : TreeMap κ β cmp) : t.minEntry? = t.toList.head? := by
  have htree : ∀ t : DTreeMap.Internal.Impl κ fun _ => β,
      DTreeMap.Internal.Impl.Const.minEntry? t = t.toListModel.head?.map fun x => (x.1, x.2) := by
    intro t
    induction t using DTreeMap.Internal.Impl.Const.minEntry?.induct with
    | case1 => simp [DTreeMap.Internal.Impl.Const.minEntry?]
    | case2 => simp [DTreeMap.Internal.Impl.Const.minEntry?]
    | case3 => simp_all [DTreeMap.Internal.Impl.Const.minEntry?]
  let _ : Ord κ := ⟨cmp⟩
  show DTreeMap.Internal.Impl.Const.minEntry? t.inner.inner =
    (DTreeMap.Internal.Impl.Const.toList t.inner.inner).head?
  rw [htree, DTreeMap.Internal.Impl.Const.toList_eq_toListModel_map]
  simp

/-- Without its first entry, a map has the others. -/
theorem toList_erase_perm [TransCmp cmp] [LawfulEqCmp cmp] {k : κ} {v : β} {rest : List (κ × β)}
    (h : t.toList = (k, v) :: rest) : (t.erase k).toList.Perm rest := by
  have hdistinct : ∀ t : TreeMap κ β cmp, t.toList.Pairwise fun a b => a.1 ≠ b.1 := by
    intro t
    refine t.distinct_keys_toList.imp fun hne he => hne ?_
    rw [he]
    exact ReflCmp.compare_self
  have hnodup : ∀ t : TreeMap κ β cmp, t.toList.Nodup := fun t =>
    (hdistinct t).imp fun hne he => hne (congrArg Prod.fst he)
  have hrest := hdistinct t
  rw [h, List.pairwise_cons] at hrest
  refine (List.perm_ext_iff_of_nodup (hnodup _) (List.nodup_cons.mp (h ▸ hnodup t)).2).mpr ?_
  rintro ⟨a, b⟩
  rw [TreeMap.mem_toList_iff_getElem?_eq_some, TreeMap.getElem?_erase]
  by_cases ha : cmp k a = .eq
  · have hka : k = a := LawfulEqCmp.eq_of_compare ha
    simp only [ha, if_true, reduceCtorEq, false_iff]
    exact fun hmem => hrest.1 _ hmem hka
  · rw [if_neg ha, ← TreeMap.mem_toList_iff_getElem?_eq_some, h, List.mem_cons]
    refine or_iff_right fun he => ha ?_
    rw [show a = k from congrArg Prod.fst he]
    exact ReflCmp.compare_self

end Map

/-! ## The queue as a collection -/

variable {α : Type} {h : Heuristic α} {q : Queue α} {s : Search} {g : Generator} {i : Nat}

namespace Queue

/-- The entries, the next one first. -/
def list (q : Queue α) : List Entry := q.entries.toList.map Prod.snd

/-- The next entry has another number than all that are queued. -/
def Numbered (q : Queue α) : Prop := ∀ r ∈ q.entries, r.2 < q.count

/-- At the start the queue is empty. -/
theorem numbered_start (a : α) : Numbered ({ memory := a } : Queue α) :=
  fun _ hr => absurd hr TreeMap.not_mem_emptyc

@[simp] theorem list_start (a : α) : list ({ memory := a } : Queue α) = [] := rfl

/-- A queue without a least entry is empty. -/
theorem list_eq_nil (hq : q.entries.minEntry? = none) : q.list = [] := by
  rw [minEntry?_eq_head?, List.head?_eq_none_iff] at hq
  rw [list, hq]
  rfl

/-- The least entry is taken out. -/
theorem list_perm_of_minEntry? {rank : Rank} {e : Entry}
    (hq : q.entries.minEntry? = some (rank, e)) (atRoot : Bool) :
    q.list.Perm (e :: list { q with entries := q.entries.erase rank, atRoot }) := by
  rw [minEntry?_eq_head?] at hq
  obtain ⟨rest, hrest⟩ := List.head?_eq_some_iff.mp hq
  unfold list
  rw [hrest]
  exact (((toList_erase_perm hrest).map Prod.snd).symm).cons e

theorem Numbered.erase (hq : q.Numbered) (rank : Rank) (atRoot : Bool) :
    Numbered { q with entries := q.entries.erase rank, atRoot } :=
  fun r hr => hq r (TreeMap.mem_of_mem_erase hr)

/-- A choice as an entry, to be tried from the state that a machine is in. -/
def entry (m : Machine) (g : Generator) (i : Nat) : Entry :=
  { snapshot := m.snapshot, generator := (g.select i).2 }

theorem exists_select (hi : i < g.total) : ∃ c, g.select i = (some c, (g.select i).2) := by
  obtain ⟨c, hc⟩ := Domain.exists_get?_of_lt hi
  refine ⟨c, ?_⟩
  unfold Generator.select
  rw [hc]

/-- One choice is queued, at the priority that the heuristic gives it, and numbered. -/
theorem toList_add {c : Choice} {g' : Generator} (hq : q.Numbered)
    (hc : g.select i = (some c, g')) :
    (q.add h s g i).entries.toList.Perm
      ((((h.priority q.memory s.machine g' c).1, q.count), entry s.machine g i) ::
        q.entries.toList) := by
  obtain ⟨rank, hrank⟩ : ∃ rank : Rank, rank = ((h.priority q.memory s.machine g' c).1, q.count) :=
    ⟨_, rfl⟩
  have hfresh : (q.entries.toList.filter fun x => decide ¬(rank == x.1) = true) =
      q.entries.toList := by
    refine List.filter_eq_self.mpr fun x hx => ?_
    have hmem : x.1 ∈ q.entries := by
      rw [TreeMap.mem_iff_isSome_getElem?,
        TreeMap.mem_toList_iff_getElem?_eq_some.mp (show (x.1, x.2) ∈ q.entries.toList from hx)]
      rfl
    have hlt := hq x.1 hmem
    simp only [beq_iff_eq, decide_eq_true_eq]
    intro he
    rw [← he, hrank] at hlt
    exact Nat.lt_irrefl _ hlt
  have hperm := TreeMap.toList_insert_perm (t := q.entries) (k := rank)
    (v := entry s.machine g i)
  rw [hfresh] at hperm
  unfold add
  rw [hc]
  dsimp only
  rw [← hrank]
  unfold entry at hperm ⊢
  rw [hc] at hperm ⊢
  exact hperm

theorem Numbered.add (hq : q.Numbered) (hi : i < g.total) : (q.add h s g i).Numbered := by
  obtain ⟨c, hc⟩ := exists_select hi
  unfold Queue.add
  rw [hc]
  intro r hr
  rw [TreeMap.mem_insert] at hr
  rcases hr with he | hr
  · rw [← LawfulEqCmp.eq_of_compare he]
    exact Nat.lt_succ_self _
  · exact Nat.lt_succ_of_lt (hq r hr)

@[simp] theorem atRoot_add : (q.add h s g i).atRoot = q.atRoot := by
  unfold add
  split <;> rfl

/-- A generator without choices is a fault; otherwise they are queued in their order. -/
theorem expand_apply (h : Heuristic α) (g : Generator) (q : Queue α) (s : Search) :
    q.expand h g s = if g.total = 0 then .error (.emptyChoice g.id) s
      else .ok ((List.range g.total).foldl (Queue.add h s g) q) s := by
  unfold expand
  split
  · rfl
  · rfl

theorem expand_of_empty (q : Queue α) (s : Search) (hempty : g.total = 0) :
    q.expand h g s = .error (.emptyChoice g.id) s := by
  rw [expand_apply, if_pos hempty]

/-- All choices of a generator are queued. -/
theorem expand_eq (hq : q.Numbered) (hpos : 0 < g.total) :
    ∃ q', q.expand h g s = .ok q' s ∧
      q'.list.Perm ((List.range g.total).map (entry s.machine g) ++ q.list) ∧ q'.Numbered ∧
        q'.atRoot = q.atRoot := by
  have hfold : ∀ (is : List Nat) (q : Queue α), (∀ i ∈ is, i < g.total) → q.Numbered →
      (is.foldl (add h s g) q).list.Perm (is.map (entry s.machine g) ++ q.list) ∧
        (is.foldl (add h s g) q).Numbered ∧ (is.foldl (add h s g) q).atRoot = q.atRoot := by
    intro is
    induction is with
    | nil => exact fun q _ hq => ⟨.refl _, hq, rfl⟩
    | cons i is ih =>
      intro q his hq
      have hi := his i List.mem_cons_self
      obtain ⟨c, hc⟩ := exists_select hi
      have hadd : (q.add h s g i).list.Perm (entry s.machine g i :: q.list) :=
        (toList_add hq hc).map Prod.snd
      obtain ⟨hrest, hnumbered, hroot⟩ :=
        ih (q.add h s g i) (fun j hj => his j (List.mem_cons_of_mem _ hj)) (hq.add hi)
      refine ⟨hrest.trans ((hadd.append_left _).trans ?_), hnumbered, hroot.trans atRoot_add⟩
      exact List.perm_middle
  refine ⟨_, ?_, hfold (List.range g.total) q (fun i hi => List.mem_range.mp hi) hq⟩
  rw [expand_apply, if_neg (Nat.ne_of_gt hpos)]

end Queue

/-! ## Rounds -/

variable {bound : Option Nat} {s₁ : Search} {e : Entry} {rank : Rank} {stop : TransitionEnd}

/-- The search jumps to the state of an entry, unless it is still in front of the first choice
point. -/
def jumpTo (s : Search) (atRoot : Bool) (e : Entry) : Search :=
  if atRoot then s else s.restore e.snapshot

/-- What an arrival makes of the queue. -/
def queueAfter (h : Heuristic α) (q : Queue α) : Arrival → Action (Queue α ⊕ Unit)
  | .stopped => pure (.inr ())
  | .closed => pure (.inl q)
  | .opened g => do return .inl (← q.expand h g)

theorem queueAfter_opened {q' : Queue α} (hexpand : q.expand h g s = .ok q' s) :
    queueAfter h q (.opened g) s = .ok (.inl q') s := by
  unfold queueAfter
  dsimp only
  rw [bind_of_ok hexpand]
  rfl

/-- A search with an empty queue is over. -/
theorem round_of_none (hq : q.entries.minEntry? = none) :
    round h bound q s = .ok (.inr ()) s := by
  unfold round
  rw [hq]
  rfl

/-- A search that is over goes no further. -/
theorem round_of_done (hdone : s.done = true) (hq : q.entries.minEntry? = some (rank, e)) :
    round h bound q s = .ok (.inr ()) s := by
  unfold round
  rw [hq]
  dsimp only
  rw [get_bind, hdone, if_pos rfl]
  rfl

/-- The search looks at the state it has reached. -/
def look (h : Heuristic α) (bound : Option Nat) (q : Queue α) : Action (Queue α ⊕ Unit) := fun s =>
  queueAfter h q (s.arrive bound).1 (s.arrive bound).2

/-- The choice of the next entry is tried, and the state that it leads to looked at. -/
theorem round_eq (h : Heuristic α) (bound : Option Nat) (hdone : s.done = false)
    (hq : q.entries.minEntry? = some (rank, e)) :
    round h bound q s =
      (forward e.generator >>= fun _ =>
        look h bound { q with entries := q.entries.erase rank, atRoot := false })
        (jumpTo s q.atRoot e) := by
  unfold round
  rw [hq]
  dsimp only
  rw [get_bind, hdone, if_neg Bool.false_ne_true]
  cases hroot : q.atRoot
  case' true => rw [if_neg (by decide)]
  case' false => rw [if_pos (by decide), modify_bind]
  -- from here on the two cases differ only in where the search stands
  all_goals
    refine bind_congr fun _ t => ?_
    have harrive : t.arrive bound = ((t.arrive bound).1, (t.arrive bound).2) := rfl
    rw [get_bind, harrive]
    unfold look
    cases (t.arrive bound).1 <;> rfl

/-- An entry whose transition succeeds. -/
theorem round_of_some (h : Heuristic α) (bound : Option Nat) (hdone : s.done = false)
    (hq : q.entries.minEntry? = some (rank, e))
    (hforward : forward e.generator (jumpTo s q.atRoot e) = .ok stop s₁) :
    round h bound q s =
      queueAfter h { q with entries := q.entries.erase rank, atRoot := false } (s₁.arrive bound).1
        (s₁.arrive bound).2 := by
  rw [round_eq h bound hdone hq, bind_of_ok hforward]
  rfl

end Interleave.Search.BestFirst

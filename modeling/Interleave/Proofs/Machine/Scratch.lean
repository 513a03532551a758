import Interleave.Proofs.Effect

/-!
# What goes along with the state

Two things go along with the state of a machine: what listeners have been told, and the scratch data
of the threads. To tell listeners something changes nothing else.

What is written to the scratch data of a thread is what is read from it next, be there any before or
not, and the scratch data of other threads stay.
-/

namespace Interleave

namespace Machine

/-! ## What listeners are told

To tell listeners something, or to deliver what has been queued for them, changes the queue and the
notices of a machine and nothing else. -/

theorem exists_tell (m : Machine) (a : Notice) : ∃ ns, m.tell a = { m with notices := ns } := by
  unfold tell
  split
  · exact ⟨_, rfl⟩
  · exact ⟨m.notices, rfl⟩

theorem exists_tellExecuting (m : Machine) (t : ThreadId) (th : Thread) (f : Frame)
    (i : Instruction) : ∃ ns, m.tellExecuting t th f i = { m with notices := ns } := by
  unfold tellExecuting
  split
  · exact exists_tell m _
  · exact ⟨m.notices, rfl⟩

theorem exists_tellExecuted (m : Machine) (t : ThreadId) (i : Instruction) :
    ∃ ns, m.tellExecuted t i = { m with notices := ns } := by
  unfold tellExecuted
  split
  · split
    · exact exists_tell m _
    · exact ⟨m.notices, rfl⟩
  · exact ⟨m.notices, rfl⟩

theorem exists_deliver (m : Machine) :
    ∃ ns, m.deliver = { m with queue := #[], notices := ns } := by
  have hfold : ∀ (es : List Event) (n : Machine),
      ∃ ns, es.foldl (fun n e => n.tell (.event e)) n = { n with notices := ns } := by
    intro es
    induction es with
    | nil => exact fun n => ⟨n.notices, rfl⟩
    | cons e es ih =>
      intro n
      obtain ⟨ns, htell⟩ := exists_tell n (.event e)
      obtain ⟨ns', hrest⟩ := ih (n.tell (.event e))
      refine ⟨ns', hrest.trans ?_⟩
      rw [htell]
  obtain ⟨ns, hns⟩ := hfold m.queue.toList { m with queue := #[] }
  refine ⟨ns, ?_⟩
  unfold deliver
  rw [← Array.foldl_toList]
  exact hns

/-! ## Scratch data -/

variable {m : Machine} {t u : ThreadId}

theorem size_fitScratch (count : Nat) (a : Array Scratch) : count ≤ (fitScratch count a).size := by
  unfold fitScratch
  rw [Array.size_append, Array.size_replicate]
  omega

theorem size_le_fitScratch (count : Nat) (a : Array Scratch) :
    a.size ≤ (fitScratch count a).size := by
  unfold fitScratch
  rw [Array.size_append]
  omega

/-- There is enough scratch data already. -/
theorem fitScratch_of_le {count : Nat} {a : Array Scratch} (h : count ≤ a.size) :
    fitScratch count a = a := by
  unfold fitScratch
  rw [Nat.sub_eq_zero_of_le h, Array.replicate_zero, Array.append_empty]

/-- Threads that get scratch data get what is read where there is none. -/
theorem getD_fitScratch (count : Nat) (a : Array Scratch) (i : Nat) :
    (fitScratch count a)[i]?.getD {} = a[i]?.getD {} := by
  unfold fitScratch
  rw [Array.getElem?_append]
  split
  · rfl
  · rename_i hsize
    rw [Array.getElem?_replicate, Array.getElem?_eq_none (Nat.le_of_not_lt hsize)]
    split <;> rfl

/-- What is read is what was written last. -/
theorem scratchOf_modifyScratch (m : Machine) (t : ThreadId) (f : Scratch → Scratch) :
    (m.modifyScratch t f).scratchOf t = f (m.scratchOf t) := by
  have hlt : t.index < (fitScratch (t.index + 1) m.scratch).size := size_fitScratch _ _
  have hread := getD_fitScratch (t.index + 1) m.scratch t.index
  unfold scratchOf modifyScratch
  rw [Array.getElem?_eq_getElem hlt, Option.getD_some] at hread
  simp only [Array.getElem?_modify, if_true, Array.getElem?_eq_getElem hlt, Option.map_some,
    Option.getD_some, hread]

theorem scratchOf_modifyScratch_of_ne (m : Machine) (f : Scratch → Scratch) (hu : u ≠ t) :
    (m.modifyScratch t f).scratchOf u = m.scratchOf u := by
  have hindex : t.index ≠ u.index := by
    intro he
    exact hu (congrArg ThreadId.mk he).symm
  unfold scratchOf modifyScratch
  simp only [Array.getElem?_modify, if_neg hindex, getD_fitScratch]

/-- New threads have fresh scratch data, so those that are there already keep theirs. -/
theorem scratchOf_withKernel (m : Machine) (k : Kernel) (u : ThreadId) :
    (m.withKernel k).scratchOf u = m.scratchOf u :=
  getD_fitScratch _ _ _

theorem scratchOf_absorb (m : Machine) (t : ThreadId) (w : Work) :
    (m.absorb t w).scratchOf t = { m.scratchOf t with transient := w.transient } := by
  refine (scratchOf_modifyScratch _ t _).trans ?_
  rw [← scratchOf_withKernel m w.kernel t]
  rfl

theorem scratchOf_absorb_of_ne (m : Machine) (w : Work) (hu : u ≠ t) :
    (m.absorb t w).scratchOf u = m.scratchOf u :=
  (scratchOf_modifyScratch_of_ne _ _ hu).trans (scratchOf_withKernel m w.kernel u)

/-- What becomes of a thread changes no more of the scratch data than where the thread goes on. -/
theorem scratchOf_settle (m : Machine) (t : ThreadId) (out : Outcome) :
    (m.settle t out).2.scratchOf t = m.scratchOf t ∨
      (m.settle t out).2.scratchOf t = { m.scratchOf t with next := none } := by
  have hended : (m.endThread t).scratchOf t = { m.scratchOf t with next := none } :=
    scratchOf_modifyScratch _ t _
  cases out with
  | running => exact .inl rfl
  | finished => exact .inr hended
  | escaped r =>
    unfold settle
    dsimp only
    split
    · split
      · exact .inl rfl
      · exact .inr hended
    · exact .inr hended

theorem scratchOf_settle_of_ne (m : Machine) (out : Outcome) (hu : u ≠ t) :
    (m.settle t out).2.scratchOf u = m.scratchOf u := by
  have hended : (m.endThread t).scratchOf u = m.scratchOf u :=
    scratchOf_modifyScratch_of_ne _ _ hu
  cases out with
  | running => rfl
  | finished => exact hended
  | escaped r =>
    unfold settle
    dsimp only
    split
    · split
      · rfl
      · exact hended
    · exact hended

@[simp] theorem scratch_tellExecuting (m : Machine) (t : ThreadId) (th : Thread) (f : Frame)
    (i : Instruction) : (m.tellExecuting t th f i).scratch = m.scratch := by
  obtain ⟨ns, hns⟩ := exists_tellExecuting m t th f i
  rw [hns]

theorem scratch_tellExecuted (m : Machine) (t : ThreadId) (i : Instruction) :
    (m.tellExecuted t i).scratch = m.scratch := by
  obtain ⟨ns, hns⟩ := exists_tellExecuted m t i
  rw [hns]

theorem scratch_deliver (m : Machine) : m.deliver.scratch = m.scratch := by
  obtain ⟨ns, hns⟩ := exists_deliver m
  rw [hns]

end Machine

end Interleave

import Interleave.Proofs.Assembling

/-!
# Instructions by their lines

A query for a range of lines answers with an unbroken run of the code. The run begins with the first
instruction in the range and ends with the last one that comes before any line beyond the range:
`Cut` says what is left out in front of the run and behind it, and holds for every line table. Where
lines never go down, nothing that is left out is in the range.

Without a line table the positions of the instructions stand in for their lines, and these go up.
-/

namespace Interleave

namespace Method

/-! ## Runs of items -/

section Runs

variable {α : Type} {line : α → Nat} {lo hi : Nat} {items before run after : List α}

/-- A list of items, each on a line, is cut into three parts by the lines from `lo` to `hi`. -/
structure Cut (line : α → Nat) (lo hi : Nat) (before run after : List α) : Prop where
  /-- Everything in front of the run is on lines below. -/
  below : ∀ i ∈ before, line i < lo
  /-- No line beyond has come up where the run ends. -/
  upTo : ∀ i ∈ before ++ run, line i ≤ hi
  first : ∀ i ∈ run.head?, lo ≤ line i
  last : ∀ i ∈ run.getLast?, lo ≤ line i
  /-- Behind the run there are only lines below until a line beyond comes up. -/
  skipped : ∀ i ∈ after.takeWhile fun i => line i ≤ hi, line i < lo

theorem eq_false_of_dropWhile_eq_cons {p : α → Bool} {i : α} {rest : List α}
    (h : items.dropWhile p = i :: rest) : p i = false := by
  have hnot := List.head?_dropWhile_not p items
  rw [h] at hnot
  exact hnot

/-- The indices are those of the first and the last item of a run. -/
inductive Span.Bounds : Span → (before run : List α) → Prop where
  | empty (before : List α) : Bounds {} before []
  | nonempty (before run : List α) (i : α) :
    Bounds ⟨some before.length, some (before ++ run).length⟩ before (run ++ [i])

/-- As long as the run is empty, it can be anywhere. -/
theorem Span.Bounds.of_nil {s : Span} (h : s.Bounds before []) (before' : List α) :
    s.Bounds before' [] := by
  generalize hrun : ([] : List α) = run at h
  cases h with
  | empty => exact .empty before'
  | nonempty _ run i => simp at hrun

theorem Span.Bounds.slice_eq {s : Span} (h : s.Bounds before run) (after : List α) :
    s.slice (before ++ run ++ after) = run := by
  cases h with
  | empty => rfl
  | nonempty _ run i =>
    have hupTo : (before ++ run).length + 1 = (before ++ (run ++ [i])).length := by
      simp [Nat.add_assoc]
    change List.drop before.length (List.take ((before ++ run).length + 1) _) = run ++ [i]
    rw [hupTo, List.take_left, List.drop_left]

/-- What a search for the lines from `lo` to `hi` has found in the items gone through. Those behind
the run are part of it as soon as another one is found. -/
structure Found (line : α → Nat) (lo hi : Nat) (before run passed : List α) (s : Span) : Prop where
  bounds : s.Bounds before run
  below : ∀ i ∈ before, line i < lo
  upTo : ∀ i ∈ before ++ run ++ passed, line i ≤ hi
  first : ∀ i ∈ run.head?, lo ≤ line i
  last : ∀ i ∈ run.getLast?, lo ≤ line i
  skipped : ∀ i ∈ passed, line i < lo
  /-- What is in front of the first item in the range does not count as passed over. -/
  started : run = [] → passed = []

namespace Found

variable {passed rest : List α} {s : Span} {i : α} {n : Nat}

theorem nothing (line : α → Nat) (lo hi : Nat) : Found line lo hi [] [] [] {} where
  bounds := .empty []
  below := by simp
  upTo := by simp
  first := by simp
  last := by simp
  skipped := by simp
  started := fun _ => rfl

/-- An item in the range ends the run, which takes in what was passed over. -/
theorem extend (h : Found line lo hi before run passed s)
    (hn : n = (before ++ run ++ passed).length) (hlo : lo ≤ line i) (hhi : line i ≤ hi) :
    Found line lo hi before (run ++ passed ++ [i]) [] (s.extend n) where
  bounds := by
    rw [hn, List.append_assoc]
    cases h.bounds with
    | empty =>
      obtain rfl := h.started rfl
      have hat : (before ++ ([] ++ [])).length = before.length := by simp
      have hbounds := Span.Bounds.nonempty before [] i
      rw [List.append_nil] at hbounds
      rwa [hat]
    | nonempty _ run j => exact .nonempty before (run ++ [j] ++ passed) i
  below := h.below
  upTo := fun j hmem => by
    rw [List.append_nil, ← List.append_assoc, ← List.append_assoc] at hmem
    rcases List.mem_append.mp hmem with hbefore | hlast
    · exact h.upTo j hbefore
    · exact List.mem_singleton.mp hlast ▸ hhi
  first := fun j hmem => by
    cases run with
    | nil =>
      rw [h.started rfl] at hmem
      cases hmem
      exact hlo
    | cons k run => exact h.first j hmem
  last := fun j hmem => by
    rw [List.getLast?_concat] at hmem
    cases hmem
    exact hlo
  skipped := by simp
  started := fun _ => rfl

/-- An item on a line below is passed over, or is in front of the run as long as there is none. -/
theorem skip (h : Found line lo hi before run passed s) (hbelow : line i < lo) (hhi : line i ≤ hi) :
    ∃ before' passed', before ++ run ++ passed ++ [i] = before' ++ run ++ passed' ∧
      Found line lo hi before' run passed' s := by
  have hupTo : ∀ j ∈ before ++ run ++ passed ++ [i], line j ≤ hi := fun j hmem => by
    rcases List.mem_append.mp hmem with hdone | hlast
    · exact h.upTo j hdone
    · exact List.mem_singleton.mp hlast ▸ hhi
  have hmore : ∀ items : List α, (∀ j ∈ items, line j < lo) → ∀ j ∈ items ++ [i], line j < lo :=
    fun items hitems j hmem => by
      rcases List.mem_append.mp hmem with hitem | hlast
      · exact hitems j hitem
      · exact List.mem_singleton.mp hlast ▸ hbelow
  by_cases hrun : run = []
  · obtain rfl := h.started hrun
    subst hrun
    refine ⟨before ++ [i], [], by simp, ?_⟩
    exact { h with
      bounds := h.bounds.of_nil (before ++ [i])
      below := hmore before h.below
      upTo := by simpa using hupTo }
  · refine ⟨before, passed ++ [i], List.append_assoc _ _ _, ?_⟩
    exact { h with
      upTo := by rwa [List.append_assoc] at hupTo
      skipped := hmore passed h.skipped
      started := fun hnil => absurd hnil hrun }

/-- What is found when the search ends at an item beyond the range, or at the end of the items. -/
theorem cut (h : Found line lo hi before run passed s) (hbeyond : ∀ i ∈ rest.head?, hi < line i) :
    Cut line lo hi before run (passed ++ rest) where
  below := h.below
  upTo := fun i hmem => h.upTo i (List.mem_append_left _ hmem)
  first := h.first
  last := h.last
  skipped := fun i hmem => by
    have hskipped : ∀ j ∈ passed, decide (line j ≤ hi) = true := fun j hj =>
      decide_eq_true (h.upTo j (List.mem_append_right _ hj))
    have hrest : (rest.takeWhile fun j => decide (line j ≤ hi)) = [] := by
      cases rest with
      | nil => rfl
      | cons j rest => rw [List.takeWhile_cons, decide_eq_false (Nat.not_le.mpr (hbeyond j rfl))]; rfl
    rw [List.takeWhile_append_of_pos hskipped, hrest, List.append_nil] at hmem
    exact h.skipped i hmem

/-- The search goes on from what has been found, and ends with the bounds of a cut. -/
theorem findSpan_cut (h : Found line lo hi before run passed s)
    (hn : n = (before ++ run ++ passed).length) :
    ∃ before' run' after, before ++ run ++ passed ++ items = before' ++ run' ++ after ∧
      (findSpan line lo hi items n s).Bounds before' run' ∧ Cut line lo hi before' run' after := by
  induction items generalizing before run passed s n with
  | nil => exact ⟨before, run, passed ++ [], by simp, h.bounds, h.cut (by simp)⟩
  | cons i items ih =>
    rw [findSpan]
    split_ifs with hrange hbeyond
    · -- the run ends here from now on
      obtain ⟨before', run', after, hitems, hfound⟩ :=
        ih (n := n + 1) (h.extend hn hrange.1 hrange.2) (by simp [hn, Nat.add_assoc])
      exact ⟨before', run', after, by rw [← hitems]; simp, hfound⟩
    · -- the search stops, with the item and all behind it unseen
      refine ⟨before, run, passed ++ i :: items, by simp, h.bounds, h.cut fun j hj => ?_⟩
      cases hj
      exact hbeyond
    · obtain ⟨before₁, passed₁, hdone, hfound₁⟩ := h.skip (i := i) (by omega) (by omega)
      obtain ⟨before', run', after, hitems, hfound⟩ :=
        ih (n := n + 1) hfound₁ (by rw [← hdone]; simp [hn, Nat.add_assoc])
      exact ⟨before', run', after, by rw [← hitems, ← hdone]; simp, hfound⟩

end Found

/-- What is found has everything in front of it on lines below, and behind it until a line beyond
comes up. -/
theorem exists_cut (line : α → Nat) (lo hi : Nat) (items : List α) :
    ∃ before after, items = before ++ (findSpan line lo hi items 0 {}).slice items ++ after ∧
      Cut line lo hi before ((findSpan line lo hi items 0 {}).slice items) after := by
  obtain ⟨before, run, after, hitems, hbounds, hcut⟩ :=
    (Found.nothing line lo hi).findSpan_cut (n := 0) rfl
  change items = _ at hitems
  have hslice := hbounds.slice_eq after
  rw [← hitems] at hslice
  rw [hslice]
  exact ⟨before, after, hitems, hcut⟩

/-- If the range has no lines, the run is empty. -/
theorem Cut.eq_nil (h : Cut line lo hi before run after) (hempty : hi < lo) : run = [] := by
  cases run with
  | nil => rfl
  | cons i rest =>
    have hfirst := h.first i rfl
    have hupTo := h.upTo i (by simp)
    omega

/-- If lines do not go down on the run, all of it is in the range. -/
theorem Cut.inRange (h : Cut line lo hi before run after)
    (hascend : run.Pairwise fun i j => line i ≤ line j) :
    ∀ i ∈ run, lo ≤ line i ∧ line i ≤ hi := by
  intro i hmem
  refine ⟨?_, h.upTo i (List.mem_append_right _ hmem)⟩
  cases run with
  | nil => cases hmem
  | cons j rest =>
    have hfirst : lo ≤ line j := h.first j rfl
    rcases List.mem_cons.mp hmem with rfl | hrest
    · exact hfirst
    · exact Nat.le_trans hfirst (List.rel_of_pairwise_cons hascend hrest)

/-- If lines do not go down behind the run, nothing there is in the range. -/
theorem Cut.outside (h : Cut line lo hi before run after)
    (hascend : after.Pairwise fun i j => line i ≤ line j) :
    ∀ i ∈ after, ¬ (lo ≤ line i ∧ line i ≤ hi) := by
  intro i hmem hrange
  have hsplit := List.takeWhile_append_dropWhile (p := fun i => decide (line i ≤ hi)) (l := after)
  rw [← hsplit] at hmem hascend
  rcases List.mem_append.mp hmem with hskipped | hbehind
  · have hbelow := h.skipped i hskipped
    omega
  · -- the first line beyond is followed by no line up to `hi`
    cases hbeyond : after.dropWhile fun i => decide (line i ≤ hi) with
    | nil => simp [hbeyond] at hbehind
    | cons j rest =>
      have hj : ¬ line j ≤ hi := by simpa using eq_false_of_dropWhile_eq_cons hbeyond
      rw [hbeyond] at hbehind hascend
      rcases List.mem_cons.mp hbehind with rfl | hmore
      · exact hj hrange.2
      · have hascends := (List.pairwise_append.mp hascend).2.1
        exact hj (Nat.le_trans (List.rel_of_pairwise_cons hascends hmore) hrange.2)

/-- If lines never go down, everything in the range is in the run. -/
theorem Cut.filter_eq (h : Cut line lo hi before run after)
    (hascend : (before ++ run ++ after).Pairwise fun i j => line i ≤ line j) :
    (before ++ run ++ after).filter (fun i => lo ≤ line i ∧ line i ≤ hi) = run := by
  rw [List.append_assoc, List.pairwise_append, List.pairwise_append] at hascend
  obtain ⟨-, ⟨hrun, hafter, -⟩, -⟩ := hascend
  have hbefore : ∀ i ∈ before, ¬ (lo ≤ line i ∧ line i ≤ hi) := fun i hmem => by
    have hbelow := h.below i hmem
    omega
  rw [List.filter_append, List.filter_append, List.filter_eq_nil_iff.mpr (by simpa using hbefore),
    List.filter_eq_self.mpr (by simpa using h.inRange hrun),
    List.filter_eq_nil_iff.mpr (by simpa using h.outside hafter), List.nil_append, List.append_nil]

end Runs

/-! ## Instructions -/

variable {m : Method}

/-- From each instruction to the next, lines do not go down. -/
def LinesAscend (m : Method) : Prop :=
  m.code.toList.Pairwise fun i j => m.lineOf i ≤ m.lineOf j

/-- Positions go up. -/
theorem LaidOut.linesAscend (h : m.LaidOut) (hlines : m.lines? = none) : m.LinesAscend := by
  refine List.pairwise_iff_getElem.mpr fun j k hj hk hjk => ?_
  have hline : ∀ n (hn : n < m.code.toList.length),
      m.lineOf m.code.toList[n] = Assembly.positionOf m.code.toList n := by
    intro n hn
    have hat : m.instruction? n = some m.code.toList[n] := by
      rw [instruction?, ← Array.getElem?_toList, List.getElem?_eq_getElem hn]
    simpa [lineOf, hlines] using (h n _ hat).2.2
  rw [hline j hj, hline k hk]
  exact Nat.le_of_lt (Assembly.positionOf_lt_of_lt hjk (Nat.le_of_lt hk))

/-- **Queries by lines lose nothing.** If the lines of a method never go down, and they do not if it
has no line table, a query answers with all instructions in the range, which stand next to each
other. Whatever the lines are, the answer is cut out of the code at the first instruction in the range
and at the last one in front of any line beyond. -/
theorem instructionsForLines_exact (m : Method) (lo hi : Nat) :
    (m.Obtained → m.lines? = none → m.LinesAscend) ∧
      (m.LinesAscend →
        m.instructionsForLines lo hi =
          m.code.toList.filter (fun i => lo ≤ m.lineOf i ∧ m.lineOf i ≤ hi) ∧
        m.instructionsForLines lo hi <:+: m.code.toList) ∧
      (hi < lo → m.instructionsForLines lo hi = []) ∧
      ∃ before after, m.code.toList = before ++ m.instructionsForLines lo hi ++ after ∧
        Cut m.lineOf lo hi before (m.instructionsForLines lo hi) after := by
  obtain ⟨before, after, hcode, hcut⟩ := exists_cut m.lineOf lo hi m.code.toList
  change m.code.toList = before ++ m.instructionsForLines lo hi ++ after at hcode
  refine ⟨fun hm => hm.laidOut.linesAscend, fun hascend => ⟨?_, before, after, hcode.symm⟩,
    hcut.eq_nil, before, after, hcode, hcut⟩
  unfold LinesAscend at hascend
  rw [hcode] at hascend ⊢
  exact (hcut.filter_eq hascend).symm

/-- The method `f()` does nothing for as many instructions as there are lines. -/
def idle (lines : Array Nat) : Method :=
  (make none "f" "()V" 0 0 .static).withCode (List.replicate lines.size { op := .nop })

/-- The same method with a line table. -/
def idleOn (lines : Array Nat) : Method := { idle lines with lines? := some lines }

theorem instructionsForLines_exact_idle :
    (idle #[0, 1, 2]).LinesAscend ∧
      (idle #[0, 1, 2]).instructionsForLines 1 2 = (idle #[0, 1, 2]).code.toList.filter
        (fun i => 1 ≤ (idle #[0, 1, 2]).lineOf i ∧ (idle #[0, 1, 2]).lineOf i ≤ 2) ∧
      (idle #[0, 1, 2]).instructionsForLines 2 1 = [] ∧
      (idleOn #[3, 3, 4, 5, 5, 5]).instructionsForLines 4 5 <:+:
        (idleOn #[3, 3, 4, 5, 5, 5]).code.toList ∧
      ((idleOn #[3, 3, 4, 5, 5, 5]).instructionsForLines 4 5).map Instruction.index =
        [2, 3, 4, 5] := by
  have hnew : Method.new none "f" "()V" 0 0 .static = .ok (make none "f" "()V" 0 0 .static) := by
    unfold Method.new
    rw [show Signature.parse "()V" = .ok ⟨[], "V"⟩ from by decide +kernel]
  have hm : (idle #[0, 1, 2]).Obtained := (Obtained.new hnew).withCode _
  have hascend := (instructionsForLines_exact (idle #[0, 1, 2]) 0 0).1 hm rfl
  obtain ⟨-, hexact, -⟩ := instructionsForLines_exact (idle #[0, 1, 2]) 1 2
  obtain ⟨-, -, hempty, -⟩ := instructionsForLines_exact (idle #[0, 1, 2]) 2 1
  obtain ⟨-, hunbroken, -⟩ := instructionsForLines_exact (idleOn #[3, 3, 4, 5, 5, 5]) 4 5
  have htable : (idleOn #[3, 3, 4, 5, 5, 5]).LinesAscend := by
    unfold LinesAscend
    decide
  exact ⟨hascend, (hexact hascend).1, hempty (by decide), (hunbroken htable).2, by decide⟩

/-- Behind a line beyond the range nothing is found. -/
example : ((idleOn #[3, 9, 4]).instructionsForLines 3 5).map Instruction.index = [0] := by decide

end Method

end Interleave

import Interleave.Proofs.Loading
import Mathlib.Data.List.Induction

/-!
# Assembling code

Code is assembled by directives in any order: labels are made and bound, lines set, handlers
declared, instructions and branches emitted. What comes out is told from the directives alone: which
instructions are emitted and on which lines, where a label is bound for the last time, which handlers
are declared.

An assembly records labels by number and everything else by the index of an instruction, and a
method finds instructions, lines and the ranges of handlers by byte. The two agree, as instructions
take at least one byte, so that the bytes at which they start grow with the index.
-/

namespace Interleave

open Effect

/-! ## Rows of computations that may fail -/

namespace Effect

variable {ε α β : Type} {f : α → Except ε β} {as : List α} {bs : List β} {e : ε}

theorem mapM_eq_ok : as.mapM f = .ok bs ↔ List.Forall₂ (fun a b => f a = .ok b) as bs := by
  induction as generalizing bs with
  | nil => cases bs <;> simp [pure, Except.pure]
  | cons a as ih =>
    simp only [List.mapM_cons, except_bind_eq_ok, ih, pure, Except.pure, Except.ok.injEq]
    constructor
    · rintro ⟨b, hb, bs', hbs, rfl⟩
      exact .cons hb hbs
    · rintro (_ | ⟨hb, hbs⟩)
      exact ⟨_, hb, _, hbs, rfl⟩

theorem exists_of_mapM_eq_ok (h : as.mapM f = .ok bs) : ∀ a ∈ as, ∃ b, f a = .ok b := by
  have hbs := mapM_eq_ok.mp h
  clear h
  induction hbs with
  | nil => simp
  | cons hb _ ih => exact List.forall_mem_cons.mpr ⟨⟨_, hb⟩, ih⟩

theorem mapM_eq_error (h : as.mapM f = .error e) : ∃ a ∈ as, f a = .error e := by
  induction as with
  | nil => cases h
  | cons a as ih =>
    rw [List.mapM_cons] at h
    cases ha : f a with
    | error e' =>
      rw [ha] at h
      cases h
      exact ⟨a, List.mem_cons_self, ha⟩
    | ok b =>
      rw [ha] at h
      cases has : as.mapM f with
      | error e' =>
        rw [has] at h
        cases h
        obtain ⟨a', ha', he⟩ := ih has
        exact ⟨a', List.mem_cons_of_mem _ ha', he⟩
      | ok bs =>
        rw [has] at h
        cases h

end Effect

/-! ## Bytes and indices -/

namespace Assembly

variable {code : List Instruction} {i j : Nat}

theorem positionOf_succ (h : i < code.length) :
    positionOf code (i + 1) = positionOf code i + code[i].length := by
  simp only [positionOf, List.take_add_one, List.getElem?_eq_getElem h, List.map_append,
    sumOf_append]
  simp

/-- Instructions start at later bytes than those in front of them. -/
theorem positionOf_lt_of_lt (hij : i < j) (hj : j ≤ code.length) :
    positionOf code i < positionOf code j := by
  induction j with
  | zero => omega
  | succ j ih =>
    have hj' : j < code.length := by omega
    have hlength : 0 < code[j].length := Opcode.length_pos _
    rw [positionOf_succ hj']
    rcases Nat.lt_succ_iff_lt_or_eq.mp hij with hlt | rfl
    · have := ih hlt (by omega)
      omega
    · omega

theorem positionOf_lt_iff (hi : i ≤ code.length) (hj : j ≤ code.length) :
    positionOf code i < positionOf code j ↔ i < j := by
  rcases Nat.lt_trichotomy i j with hij | rfl | hij
  · exact iff_of_true (positionOf_lt_of_lt hij hj) hij
  · simp
  · have := positionOf_lt_of_lt hij hi
    omega

theorem positionOf_le_iff (hi : i ≤ code.length) (hj : j ≤ code.length) :
    positionOf code i ≤ positionOf code j ↔ i ≤ j := by
  rw [← Nat.not_lt, positionOf_lt_iff hj hi, Nat.not_lt]

theorem positionOf_inj (hi : i ≤ code.length) (hj : j ≤ code.length) :
    positionOf code i = positionOf code j ↔ i = j := by
  rw [Nat.le_antisymm_iff, positionOf_le_iff hi hj, positionOf_le_iff hj hi, ← Nat.le_antisymm_iff]

end Assembly

namespace Method

variable {m : Method} {k : Nat} {i : Instruction}

theorem lt_of_instruction? (h : m.instruction? k = some i) : k < m.code.toList.length := by
  obtain ⟨hk, -⟩ := Array.getElem?_eq_some_iff.mp h
  simpa using hk

/-- Only one instruction starts at a byte. -/
theorem LaidOut.eq_of_position (hm : m.LaidOut) (hi : m.instruction? k = some i) {l : Nat}
    {j : Instruction} (hj : m.instruction? l = some j) (h : j.position = i.position) : l = k := by
  rw [(hm k i hi).2.2, (hm l j hj).2.2] at h
  exact (Assembly.positionOf_inj (Nat.le_of_lt (lt_of_instruction? hj))
    (Nat.le_of_lt (lt_of_instruction? hi))).mp h

/-- An instruction is found at the byte at which it starts. -/
theorem LaidOut.instructionAt (hm : m.LaidOut) (hi : m.instruction? k = some i) :
    m.instructionAt i.position = .ok i := by
  obtain ⟨hk, hget⟩ := Array.getElem?_eq_some_iff.mp hi
  have hfound : m.code.find? (·.position == i.position) = some i := by
    refine Array.find?_eq_some_iff_getElem.mpr ⟨by simp, k, hk, hget, fun l hl => ?_⟩
    have hj : m.instruction? l = some m.code[l] := Array.getElem?_eq_getElem _
    simpa using fun he => Nat.ne_of_lt hl (hm.eq_of_position hi hj he)
  unfold Method.instructionAt
  rw [hfound]

/-- An entry of a line table may just as well name the byte at which the instruction starts. -/
theorem LaidOut.setLineAt (hm : m.LaidOut) (hi : m.instruction? k = some i) (line : Nat) :
    m.setLineAt i.position line = m.setLine k line := by
  obtain ⟨hk, hget⟩ := Array.getElem?_eq_some_iff.mp hi
  have hfound : m.code.findIdx? (·.position == i.position) = some k := by
    refine Array.findIdx?_eq_some_iff_getElem.mpr ⟨hk, by simp [hget], fun l hl => ?_⟩
    have hj : m.instruction? l = some m.code[l] := Array.getElem?_eq_getElem _
    simpa using fun he => Nat.ne_of_lt hl (hm.eq_of_position hi hj he)
  unfold Method.setLineAt
  rw [hfound]

/-- So may all entries of a table. -/
theorem LaidOut.foldl_setLineAt (hm : m.LaidOut) {xs : List (Nat × Nat)}
    (hxs : ∀ x ∈ xs, x.1 < m.code.size) :
    xs.foldl (fun m' x => m'.setLineAt (Assembly.positionOf m.code.toList x.1) x.2) m =
      xs.foldl (fun m' x => m'.setLine x.1 x.2) m := by
  -- the code in front of which the entries are set stays the same while they are
  suffices hall : ∀ (m' : Method), m'.LaidOut → m'.code = m.code →
      xs.foldl (fun m' x => m'.setLineAt (Assembly.positionOf m.code.toList x.1) x.2) m' =
        xs.foldl (fun m' x => m'.setLine x.1 x.2) m' from hall m hm rfl
  induction xs with
  | nil => exact fun _ _ _ => rfl
  | cons x xs ih =>
    intro m' hm' hcode
    obtain ⟨hx, hxs⟩ := List.forall_mem_cons.mp hxs
    have hat : m'.instruction? x.1 = some m.code[x.1] := by
      rw [instruction?, hcode]
      exact Array.getElem?_eq_getElem hx
    have hset : m'.setLineAt (Assembly.positionOf m.code.toList x.1) x.2 = m'.setLine x.1 x.2 := by
      rw [← hcode, ← (hm' x.1 _ hat).2.2]
      exact hm'.setLineAt hat x.2
    rw [List.foldl_cons, List.foldl_cons, hset]
    exact ih hxs _ (hm'.of_eq rfl rfl) hcode

/-! ## Line tables -/

/-- Filling leaves a table alone that has no gap behind an entry. -/
theorem fillLines_eq_self {last : Nat} {ls : List Nat} (hlast : last ≠ 0 → ∀ n ∈ ls, n ≠ 0)
    (hls : ls.Pairwise fun n n' => n ≠ 0 → n' ≠ 0) : fillLines last ls = ls := by
  induction ls generalizing last with
  | nil => rfl
  | cons n ls ih =>
    obtain ⟨hn, hrest⟩ := List.pairwise_cons.mp hls
    cases n with
    | zero =>
      obtain rfl : last = 0 := by
        by_contra h
        exact hlast h 0 List.mem_cons_self rfl
      rw [fillLines, ih (fun h => absurd rfl h) hrest]
    | succ n =>
      rw [fillLines, ih (fun h n' hn' => hn n' hn' h) hrest]
      exact Nat.succ_ne_zero n

theorem foldl_setLine (m : Method) (xs : List (Nat × Nat)) :
    xs.foldl (fun m x => m.setLine x.1 x.2) m = { m with
      lines? := m.lines?.map fun ls => xs.foldl (fun ls x => ls.setIfInBounds x.1 x.2) ls } := by
  induction xs generalizing m with
  | nil => cases hm : m.lines? <;> simp [← hm]
  | cons x xs ih =>
    rw [List.foldl_cons, ih]
    simp only [setLine, Option.map_map]
    rfl

theorem size_foldl_setIfInBounds (ls : Array Nat) (xs : List (Nat × Nat)) :
    (xs.foldl (fun ls x => ls.setIfInBounds x.1 x.2) ls).size = ls.size := by
  induction xs generalizing ls with
  | nil => rfl
  | cons x xs ih => rw [List.foldl_cons, ih, Array.size_setIfInBounds]

/-- Entries of a table that are not set stay as they are. -/
theorem getElem?_foldl_of_notMem {ls : Array Nat} {xs : List (Nat × Nat)} {k : Nat}
    (hk : ∀ n, (k, n) ∉ xs) :
    (xs.foldl (fun ls x => ls.setIfInBounds x.1 x.2) ls)[k]? = ls[k]? := by
  induction xs generalizing ls with
  | nil => rfl
  | cons x xs ih =>
    have hx : x.1 ≠ k := fun he => hk x.2 (he ▸ List.mem_cons_self)
    rw [List.foldl_cons, ih fun n hn => hk n (List.mem_cons_of_mem _ hn),
      Array.getElem?_setIfInBounds, if_neg hx]

/-- An entry that is set holds what it is set to. -/
theorem getElem?_foldl_of_mem {ls : Array Nat} {xs : List (Nat × Nat)} {k n : Nat}
    (hn : (k, n) ∈ xs) (hfun : ∀ n', (k, n') ∈ xs → n' = n) (hk : k < ls.size) :
    (xs.foldl (fun ls x => ls.setIfInBounds x.1 x.2) ls)[k]? = some n := by
  induction xs generalizing ls with
  | nil => cases hn
  | cons x xs ih =>
    rw [List.foldl_cons]
    by_cases hrest : (k, n) ∈ xs
    · exact ih hrest (fun n' hn' => hfun n' (List.mem_cons_of_mem _ hn')) (by simpa using hk)
    · obtain rfl : (k, n) = x := (List.mem_cons.mp hn).resolve_right hrest
      rw [getElem?_foldl_of_notMem, Array.getElem?_setIfInBounds, if_pos rfl, if_pos hk]
      intro n' hn'
      exact hrest (hfun n' (List.mem_cons_of_mem _ hn') ▸ hn')

end Method

namespace Assembly

/-! ## Directives -/

/-- A call by which code is assembled. -/
inductive Directive where
  | newLabel
  | bind (l : Label)
  | line (n : Nat)
  | emit (op : Opcode) (operand : Operand)
  | branch (op : Opcode) (l : Label)
  | handler (h : LabelledHandler)
deriving DecidableEq, Repr

/-- An instruction that is emitted: with its operand or a label to branch to, and on a line if one
has been set. -/
structure Emission where
  op : Opcode
  operand : Operand ⊕ Label
  line : Option Nat

namespace Directive

/-- What a directive does to an assembly. -/
def apply (a : Assembly) : Directive → Assembly
  | newLabel => a.newLabel.2
  | bind l => a.bind l
  | line n => a.line n
  | emit op operand => a.emit op operand
  | branch op l => a.branch op l
  | handler h => a.handler h

/-- Only labels that this assembly has made are bound, and lines are not zero. -/
def Allowed (a : Assembly) : Directive → Prop
  | bind l => l.number < a.labels.size
  | line n => n ≠ 0
  | _ => True

instance (a : Assembly) : DecidablePred (Allowed a)
  | bind l => inferInstanceAs (Decidable (l.number < a.labels.size))
  | line n => inferInstanceAs (Decidable (n ≠ 0))
  | newLabel | emit _ _ | branch _ _ | handler _ => isTrue trivial

/-- The line that is set. -/
def line? : Directive → Option Nat
  | line n => some n
  | _ => none

/-- The handler that is declared. -/
def handler? : Directive → Option LabelledHandler
  | handler h => some h
  | _ => none

/-- What is emitted if this line is in force. -/
def emission? (line : Option Nat) : Directive → Option Emission
  | emit op operand => some ⟨op, .inl operand, line⟩
  | branch op l => some ⟨op, .inr l, line⟩
  | _ => none

/-- Does the directive use a label? -/
def Uses (l : Label) : Directive → Prop
  | branch _ l' => l = l'
  | handler h => l = h.start ∨ l = h.stop ∨ l = h.handler
  | _ => False

end Directive

/-- An assembly that has followed directives. -/
def follow (a : Assembly) (ds : List Directive) : Assembly := ds.foldl Directive.apply a

/-- Each directive may be given when its turn comes. -/
def Follows (a : Assembly) : List Directive → Prop
  | [] => True
  | d :: ds => d.Allowed a ∧ (d.apply a).Follows ds

instance decidableFollows : (a : Assembly) → (ds : List Directive) → Decidable (a.Follows ds)
  | _, [] => isTrue trivial
  | a, d :: ds =>
    have := decidableFollows (d.apply a) ds
    inferInstanceAs (Decidable (d.Allowed a ∧ (d.apply a).Follows ds))

/-- The line in force after directives. -/
def lineAfter (ds : List Directive) : Option Nat := (ds.filterMap Directive.line?).getLast?

/-- What is emitted if this line is in force at first. -/
def emissionsFrom (line : Option Nat) : List Directive → List Emission
  | [] => []
  | d :: ds => (d.emission? line).toList ++ emissionsFrom (d.line?.or line) ds

/-- The instructions that directives emit, in order. -/
def emissions (ds : List Directive) : List Emission := emissionsFrom none ds

/-- The index of the instruction that a label is bound to for the last time. -/
def BoundTo (ds : List Directive) (l : Label) (i : Nat) : Prop :=
  ∃ before after, ds = before ++ .bind l :: after ∧ (∀ d ∈ after, d ≠ .bind l) ∧
    i = (emissions before).length

section Lists

variable {ds : List Directive} {d : Directive} {l : Label} {i : Nat} {a : Assembly}

theorem follow_concat (a : Assembly) (ds : List Directive) (d : Directive) :
    a.follow (ds ++ [d]) = d.apply (a.follow ds) := by
  simp [follow]

theorem follows_concat : a.Follows (ds ++ [d]) ↔ a.Follows ds ∧ d.Allowed (a.follow ds) := by
  induction ds generalizing a with
  | nil => simp [Follows, follow]
  | cons e ds ih =>
    rw [List.cons_append, Follows, Follows, ih, and_assoc]
    rfl

theorem lineAfter_cons (d : Directive) (ds : List Directive) :
    lineAfter (d :: ds) = (lineAfter ds).or d.line? := by
  unfold lineAfter
  cases hd : d.line? with
  | none => simp [hd]
  | some n =>
    rw [List.filterMap_cons_some hd, List.getLast?_cons]
    cases (List.filterMap Directive.line? ds).getLast? <;> rfl

theorem lineAfter_concat (ds : List Directive) (d : Directive) :
    lineAfter (ds ++ [d]) = d.line?.or (lineAfter ds) := by
  unfold lineAfter
  cases hd : d.line? with
  | none => simp [hd]
  | some n => simp [hd]

theorem emissionsFrom_concat (line : Option Nat) (ds : List Directive) (d : Directive) :
    emissionsFrom line (ds ++ [d]) =
      emissionsFrom line ds ++ (d.emission? ((lineAfter ds).or line)).toList := by
  induction ds generalizing line with
  | nil => simp [emissionsFrom, lineAfter]
  | cons e ds ih =>
    rw [List.cons_append, emissionsFrom, emissionsFrom, ih, lineAfter_cons, Option.or_assoc,
      List.append_assoc]

/-- A directive emits with the line that is in force. -/
theorem emissions_concat (ds : List Directive) (d : Directive) :
    emissions (ds ++ [d]) = emissions ds ++ (d.emission? (lineAfter ds)).toList := by
  rw [emissions, emissionsFrom_concat, Option.or_none]
  rfl

/-- What is emitted is emitted by some directive. -/
theorem exists_of_mem_emissionsFrom {line : Option Nat} {e : Emission}
    (h : e ∈ emissionsFrom line ds) : ∃ d ∈ ds, d.emission? e.line = some e := by
  induction ds generalizing line with
  | nil => cases h
  | cons d ds ih =>
    rw [emissionsFrom, List.mem_append, Option.mem_toList] at h
    rcases h with h | h
    · refine ⟨d, List.mem_cons_self, ?_⟩
      cases d <;> cases h <;> rfl
    · obtain ⟨d', hd', he⟩ := ih h
      exact ⟨d', List.mem_cons_of_mem _ hd', he⟩

theorem exists_mem_emissionsFrom (line : Option Nat) (hd : d ∈ ds) {f : Option Nat → Emission}
    (hf : ∀ line, d.emission? line = some (f line)) : ∃ line', f line' ∈ emissionsFrom line ds := by
  induction ds generalizing line with
  | nil => cases hd
  | cons e ds ih =>
    rw [emissionsFrom]
    rcases List.mem_cons.mp hd with rfl | hd
    · exact ⟨line, by simp [hf]⟩
    · obtain ⟨line', he⟩ := ih (e.line?.or line) hd
      exact ⟨line', List.mem_append_right _ he⟩

/-- The last binding of a label counts. -/
theorem boundTo_concat_self : BoundTo (ds ++ [.bind l]) l i ↔ i = (emissions ds).length := by
  constructor
  · rintro ⟨before, after, hds, hafter, rfl⟩
    rcases List.eq_nil_or_concat' after with rfl | ⟨after, d, rfl⟩
    · rw [(List.append_inj' hds rfl).1]
    · rw [← List.cons_append, ← List.append_assoc] at hds
      obtain ⟨-, hd⟩ := List.append_inj' hds rfl
      exact absurd (List.cons.inj hd).1.symm (hafter d (by simp))
  · rintro rfl
    exact ⟨ds, [], rfl, by simp, rfl⟩

theorem boundTo_concat_of_ne (h : d ≠ .bind l) : BoundTo (ds ++ [d]) l i ↔ BoundTo ds l i := by
  constructor
  · rintro ⟨before, after, hds, hafter, hi⟩
    rcases List.eq_nil_or_concat' after with rfl | ⟨after, e, rfl⟩
    · exact absurd (List.cons.inj (List.append_inj' hds rfl).2).1 h
    · rw [← List.cons_append, ← List.append_assoc] at hds
      exact ⟨before, after, (List.append_inj' hds rfl).1, fun e he => hafter e (by simp [he]), hi⟩
  · rintro ⟨before, after, rfl, hafter, hi⟩
    refine ⟨before, after ++ [d], by simp, fun e he => ?_, hi⟩
    rcases List.mem_append.mp he with he | he
    · exact hafter e he
    · exact List.mem_singleton.mp he ▸ h

/-- Labels are bound to instructions or to the end of the code. -/
theorem BoundTo.le_length (h : BoundTo ds l i) : i ≤ (emissions ds).length := by
  induction ds using List.reverseRecOn with
  | nil =>
    obtain ⟨before, after, hds, -⟩ := h
    simp at hds
  | append_singleton ds d ih =>
    rw [emissions_concat, List.length_append]
    by_cases hd : d = .bind l
    · subst hd
      have := boundTo_concat_self.mp h
      omega
    · have := ih ((boundTo_concat_of_ne hd).mp h)
      omega

/-- A label is bound to something exactly if it has been bound. -/
theorem exists_boundTo_iff : (∃ i, BoundTo ds l i) ↔ .bind l ∈ ds := by
  induction ds using List.reverseRecOn with
  | nil => simp [BoundTo]
  | append_singleton ds d ih =>
    by_cases hd : d = .bind l
    · subst hd
      simp [boundTo_concat_self]
    · simp [boundTo_concat_of_ne hd, ih, Ne.symm hd]

end Lists

/-! ## What an assembly records -/

/-- The instruction that is emitted as the one with an index. Branches have yet to be resolved. -/
def Emission.toInstruction (stamp : Stamp) (k : Nat) (e : Emission) : Instruction where
  op := e.op
  operand := e.operand.elim id fun _ => .target 0
  attachments := stamp.attach k

/-- An assembly has followed these directives from the start. -/
structure Records (stamp : Stamp) (ds : List Directive) (a : Assembly) : Prop where
  stamped : a.stamp = stamp
  code : a.code.toList = (emissions ds).mapIdx (Emission.toInstruction stamp)
  labels : ∀ l i, a.labels[l.number]? = some (some i) ↔ BoundTo ds l i
  branches : ∀ k l, (k, l) ∈ a.branches.toList ↔
    ∃ e, (emissions ds)[k]? = some e ∧ e.operand.getRight? = some l
  line : a.line? = lineAfter ds
  lines : ∀ k n, (k, n) ∈ a.lines.toList ↔ ∃ e, (emissions ds)[k]? = some e ∧ e.line = some n
  handlers : a.handlers = ds.filterMap Directive.handler?

/-- What is recorded of some instructions by their indices, when one more has been emitted. -/
theorem mem_recorded_concat {β : Type} {es : List Emission} {xs : List (Nat × β)}
    {g : Emission → Option β}
    (h : ∀ k b, (k, b) ∈ xs ↔ ∃ e, es[k]? = some e ∧ g e = some b) (e : Emission) (k : Nat) (b : β) :
    (k, b) ∈ xs ++ ((g e).map (es.length, ·)).toList ↔
      ∃ e', (es ++ [e])[k]? = some e' ∧ g e' = some b := by
  have hlast : ∀ e', (es ++ [e])[k]? = some e' ↔ es[k]? = some e' ∨ es.length = k ∧ e = e' := by
    intro e'
    rcases Nat.lt_trichotomy k es.length with hk | rfl | hk
    · simp [List.getElem?_append_left hk, Nat.ne_of_gt hk]
    · simp
    · simp [List.getElem?_eq_none (l := es ++ [e]) (i := k) (by simp; omega),
        List.getElem?_eq_none (Nat.le_of_lt hk), Nat.ne_of_lt hk]
  simp only [List.mem_append, h, hlast, Option.mem_toList, Option.map_eq_some_iff, Prod.mk.injEq,
    or_and_right, exists_or]
  refine or_congr_right ?_
  constructor
  · rintro ⟨b', hb, rfl, rfl⟩
    exact ⟨e, ⟨rfl, rfl⟩, hb⟩
  · rintro ⟨_, ⟨rfl, rfl⟩, hb⟩
    exact ⟨b, hb, rfl, rfl⟩

namespace Records

variable {stamp : Stamp} {ds : List Directive} {d : Directive} {a : Assembly}

theorem size (h : Records stamp ds a) : a.code.size = (emissions ds).length := by
  rw [← Array.length_toList, h.code, List.length_mapIdx]

theorem nil (stamp : Stamp) : Records stamp [] { stamp } where
  stamped := rfl
  code := rfl
  labels l i := by simp [BoundTo]
  branches k l := by simp [emissions, emissionsFrom]
  line := rfl
  lines k n := by simp [emissions, emissionsFrom]
  handlers := rfl

/-- Directives that emit nothing leave instructions, branches and their lines alone. -/
theorem silent (h : Records stamp ds a) {a' : Assembly} (hd : ∀ line, d.emission? line = none)
    (hsame : a'.stamp = a.stamp ∧ a'.code = a.code ∧ a'.branches = a.branches ∧ a'.lines = a.lines)
    (labels : ∀ l i, a'.labels[l.number]? = some (some i) ↔ BoundTo (ds ++ [d]) l i)
    (line : a'.line? = d.line?.or a.line?) (handlers : a'.handlers = a.handlers ++ d.handler?.toList) :
    Records stamp (ds ++ [d]) a' := by
  have hemissions : emissions (ds ++ [d]) = emissions ds := by simp [emissions_concat, hd]
  obtain ⟨hstamp, hcode, hbranches, hlines⟩ := hsame
  refine ⟨hstamp.trans h.stamped, ?_, labels, ?_, ?_, ?_, ?_⟩
  · rw [hcode, h.code, hemissions]
  · rw [hbranches, hemissions]
    exact h.branches
  · rw [line, h.line, lineAfter_concat]
  · rw [hlines, hemissions]
    exact h.lines
  · rw [handlers, h.handlers, List.filterMap_append]
    cases hh : d.handler? <;> simp [hh]

/-- An instruction that is emitted comes behind the others, with its line and its label. -/
theorem emitting (h : Records stamp ds a) {e : Emission} {a' : Assembly}
    (hd : d.emission? (lineAfter ds) = some e)
    (hother : d.line? = none ∧ d.handler? = none ∧ ∀ l, d ≠ .bind l)
    (code : a'.code = a.code.push (e.toInstruction stamp a.code.size))
    (branches : a'.branches.toList =
      a.branches.toList ++ (e.operand.getRight?.map (a.code.size, ·)).toList)
    (lines : a'.lines.toList = a.lines.toList ++ (e.line.map (a.code.size, ·)).toList)
    (hsame : a'.stamp = a.stamp ∧ a'.labels = a.labels ∧ a'.line? = a.line? ∧
      a'.handlers = a.handlers) : Records stamp (ds ++ [d]) a' := by
  have hemissions : emissions (ds ++ [d]) = emissions ds ++ [e] := by simp [emissions_concat, hd]
  obtain ⟨hstamp, hlabels, hline, hhandlers⟩ := hsame
  obtain ⟨hnoline, hnohandler, hnobind⟩ := hother
  refine ⟨hstamp.trans h.stamped, ?_, ?_, ?_, ?_, ?_, ?_⟩
  · rw [code, Array.toList_push, h.code, hemissions, List.mapIdx_concat, h.size]
  · intro l i
    rw [hlabels, h.labels, boundTo_concat_of_ne (hnobind l)]
  · rw [branches, hemissions, h.size]
    exact mem_recorded_concat h.branches e
  · rw [hline, h.line, lineAfter_concat, hnoline, Option.none_or]
  · rw [lines, hemissions, h.size]
    exact mem_recorded_concat h.lines e
  · rw [hhandlers, h.handlers, List.filterMap_append]
    simp [hnohandler]

theorem newLabel (h : Records stamp ds a) : Records stamp (ds ++ [.newLabel]) a.newLabel.2 := by
  refine h.silent (fun _ => rfl) ⟨rfl, rfl, rfl, rfl⟩ (fun l i => ?_) rfl (List.append_nil _).symm
  rw [boundTo_concat_of_ne (by simp), ← h.labels]
  show (a.labels.push none)[l.number]? = _ ↔ _
  rw [Array.getElem?_push]
  split
  · rename_i hnew
    simp [hnew]
  · rfl

theorem bind {l : Label} (h : Records stamp ds a) (hl : l.number < a.labels.size) :
    Records stamp (ds ++ [.bind l]) (a.bind l) := by
  refine h.silent (fun _ => rfl) ⟨rfl, rfl, rfl, rfl⟩ (fun l' i => ?_) rfl (List.append_nil _).symm
  show (a.labels.setIfInBounds l.number (some a.code.size))[l'.number]? = _ ↔ _
  rw [Array.getElem?_setIfInBounds]
  by_cases hll : l = l'
  · subst l'
    rw [boundTo_concat_self, if_pos rfl, if_pos hl, h.size, Option.some.injEq, Option.some.injEq,
      eq_comm]
  · have hnumber : l.number ≠ l'.number := fun he => hll (by cases l; cases l'; cases he; rfl)
    rw [boundTo_concat_of_ne (by simpa using hll), if_neg hnumber, h.labels]

/-- What is emitted by an instruction or by a branch. -/
theorem emit (h : Records stamp ds a) (op : Opcode) (operand : Operand ⊕ Label) {d : Directive}
    (hd : ∀ line, d.emission? line = some ⟨op, operand, line⟩)
    (hother : d.line? = none ∧ d.handler? = none ∧ ∀ l, d ≠ .bind l) {branches : Array (Nat × Label)}
    (hbranches : branches.toList =
      a.branches.toList ++ (operand.getRight?.map (a.code.size, ·)).toList) :
    Records stamp (ds ++ [d])
      { a.emit op (operand.elim id fun _ => .target 0) with branches := branches } := by
  refine h.emitting (hd _) hother ?_ hbranches ?_ ⟨rfl, rfl, rfl, rfl⟩
  · show a.code.push _ = _
    rw [h.stamped]
    rfl
  · simp only [Assembly.emit, Assembly.nextIndex, h.line]
    cases lineAfter ds <;> simp

/-- An assembly records what it is told. -/
theorem apply (h : Records stamp ds a) (hd : d.Allowed a) :
    Records stamp (ds ++ [d]) (d.apply a) := by
  cases d with
  | newLabel => exact h.newLabel
  | bind l => exact h.bind hd
  | line n =>
    refine h.silent (fun _ => rfl) ⟨rfl, rfl, rfl, rfl⟩ (fun l i => ?_) rfl (List.append_nil _).symm
    rw [boundTo_concat_of_ne (by simp), ← h.labels]
    rfl
  | emit op operand =>
    exact h.emit op (.inl operand) (fun _ => rfl) ⟨rfl, rfl, by simp⟩ (List.append_nil _).symm
  | branch op l =>
    exact h.emit op (.inr l) (fun _ => rfl) ⟨rfl, rfl, by simp⟩ Array.toList_push
  | handler x =>
    refine h.silent (fun _ => rfl) ⟨rfl, rfl, rfl, rfl⟩ (fun l i => ?_) rfl rfl
    rw [boundTo_concat_of_ne (by simp), ← h.labels]
    rfl

end Records

/-- What a fresh assembly has recorded when it has followed directives. -/
theorem records_follow {stamp : Stamp} {ds : List Directive} (h : Follows { stamp } ds) :
    Records stamp ds (follow { stamp } ds) := by
  induction ds using List.reverseRecOn with
  | nil => exact .nil stamp
  | append_singleton ds d ih =>
    obtain ⟨hds, hd⟩ := follows_concat.mp h
    rw [follow_concat]
    exact (ih hds).apply hd

/-! ## Resolving labels -/

/-- The instruction that is made of an emission takes this operand: the one it is emitted with, or
the index that its label is bound to for the last time. -/
def Emission.Takes (ds : List Directive) (e : Emission) (x : Operand) : Prop :=
  match e.operand with
  | .inl y => x = y
  | .inr l => ∃ t, BoundTo ds l t ∧ x = .target t

/-- Directives use a label that they never bind. -/
def LacksLabel (ds : List Directive) (e : Fault) : Prop :=
  ∃ l, (∃ d ∈ ds, d.Uses l) ∧ .bind l ∉ ds ∧ e = .unboundLabel l.number

section Branches

variable {a : Assembly} {bs : List (Nat × Label)} {code code' : Array Instruction} {e : Fault}

theorem resolveBranches_eq_error (h : a.resolveBranches bs code = .error e) :
    ∃ b ∈ bs, a.indexOf b.2 = .error e := by
  induction bs generalizing code with
  | nil => cases h
  | cons b bs ih =>
    rw [resolveBranches] at h
    split at h
    · rename_i e' he
      cases h
      exact ⟨b, List.mem_cons_self, he⟩
    · obtain ⟨b', hb', he⟩ := ih h
      exact ⟨b', List.mem_cons_of_mem _ hb', he⟩

theorem exists_indexOf_of_resolveBranches (h : a.resolveBranches bs code = .ok code') :
    ∀ b ∈ bs, ∃ t, a.indexOf b.2 = .ok t := by
  induction bs generalizing code with
  | nil => simp
  | cons b bs ih =>
    rw [resolveBranches] at h
    split at h
    · cases h
    · rename_i t ht
      exact List.forall_mem_cons.mpr ⟨⟨t, ht⟩, ih h⟩

theorem size_resolveBranches (h : a.resolveBranches bs code = .ok code') :
    code'.size = code.size := by
  induction bs generalizing code with
  | nil =>
    cases h
    rfl
  | cons b bs ih =>
    rw [resolveBranches] at h
    split at h
    · cases h
    · rw [ih h, Array.size_modify]

/-- Instructions that are no branches stay as they are. -/
theorem getElem?_resolveBranches_of_notMem (h : a.resolveBranches bs code = .ok code') {k : Nat}
    (hk : ∀ l, (k, l) ∉ bs) : code'[k]? = code[k]? := by
  induction bs generalizing code with
  | nil =>
    cases h
    rfl
  | cons b bs ih =>
    rw [resolveBranches] at h
    split at h
    · cases h
    · have hb : b.1 ≠ k := fun he => hk b.2 (he ▸ List.mem_cons_self)
      rw [ih h fun l hl => hk l (List.mem_cons_of_mem _ hl), Array.getElem?_modify, if_neg hb]

/-- A branch goes to where its label is. -/
theorem getElem?_resolveBranches (h : a.resolveBranches bs code = .ok code') {k t : Nat} {l : Label}
    (hl : (k, l) ∈ bs) (hfun : ∀ l', (k, l') ∈ bs → l' = l) (ht : a.indexOf l = .ok t) :
    code'[k]? = code[k]?.map fun i => { i with operand := .target t } := by
  induction bs generalizing code with
  | nil => cases hl
  | cons b bs ih =>
    rw [resolveBranches] at h
    split at h
    · cases h
    · rename_i t' ht'
      by_cases hrest : (k, l) ∈ bs
      · -- what the branches behind this one do to the instruction counts
        rw [ih h hrest fun l' hl' => hfun l' (List.mem_cons_of_mem _ hl'), Array.getElem?_modify]
        split
        · rw [Option.map_map]
          rfl
        · rfl
      · obtain rfl : (k, l) = b := (List.mem_cons.mp hl).resolve_right hrest
        cases ht.symm.trans ht'
        rw [getElem?_resolveBranches_of_notMem h, Array.getElem?_modify, if_pos rfl]
        intro l' hl'
        exact hrest (hfun l' (List.mem_cons_of_mem _ hl') ▸ hl')

end Branches

namespace Records

variable {stamp : Stamp} {ds : List Directive} {a : Assembly} {l : Label} {e : Fault}

theorem indexOf_eq_ok (h : Records stamp ds a) {i : Nat} : a.indexOf l = .ok i ↔ BoundTo ds l i := by
  rw [← h.labels]
  unfold indexOf
  split
  · rename_i j hj
    simp [hj]
  · rename_i hnone
    simp only [reduceCtorEq, false_iff]
    exact hnone i

theorem indexOf_eq_error (h : Records stamp ds a) (he : a.indexOf l = .error e) :
    .bind l ∉ ds ∧ e = .unboundLabel l.number := by
  constructor
  · rw [← exists_boundTo_iff]
    rintro ⟨i, hi⟩
    rw [h.indexOf_eq_ok.mpr hi] at he
    cases he
  · unfold indexOf at he
    split at he <;> cases he
    rfl

theorem uses_of_mem_branches (h : Records stamp ds a) {b : Nat × Label}
    (hb : b ∈ a.branches.toList) : ∃ d ∈ ds, d.Uses b.2 := by
  obtain ⟨e, he, hl⟩ := (h.branches b.1 b.2).mp hb
  obtain ⟨d, hd, hemits⟩ := exists_of_mem_emissionsFrom (List.mem_of_getElem? he)
  refine ⟨d, hd, ?_⟩
  cases d <;> simp only [Directive.emission?, Option.some.injEq, reduceCtorEq] at hemits
  · rw [← hemits] at hl
    cases hl
  · rw [← hemits] at hl
    exact (Option.some.inj hl).symm

theorem finish_eq_error (h : Records stamp ds a) (he : a.finish = .error e) : LacksLabel ds e := by
  unfold finish at he
  cases hr : a.resolveBranches a.branches.toList a.code with
  | ok code =>
    rw [hr] at he
    cases he
  | error e' =>
    rw [hr] at he
    cases he
    obtain ⟨b, hb, hlacks⟩ := resolveBranches_eq_error hr
    obtain ⟨hunbound, he⟩ := h.indexOf_eq_error hlacks
    exact ⟨b.2, h.uses_of_mem_branches hb, hunbound, he⟩

theorem finish_eq_ok_iff {code : List Instruction} : a.finish = .ok code ↔
    ∃ code', a.resolveBranches a.branches.toList a.code = .ok code' ∧ code'.toList = code := by
  unfold finish
  cases a.resolveBranches a.branches.toList a.code <;> simp [Except.map]

/-- All labels of branches are bound if the code can be finished. -/
theorem bound_of_finish (h : Records stamp ds a) {code : List Instruction}
    (hcode : a.finish = .ok code) {op : Opcode} (hd : .branch op l ∈ ds) : .bind l ∈ ds := by
  obtain ⟨code', hr, -⟩ := finish_eq_ok_iff.mp hcode
  obtain ⟨line, he⟩ : ∃ line, (⟨op, .inr l, line⟩ : Emission) ∈ emissions ds :=
    exists_mem_emissionsFrom none hd fun _ => rfl
  obtain ⟨k, hk⟩ := List.getElem?_of_mem he
  obtain ⟨t, ht⟩ := exists_indexOf_of_resolveBranches hr (k, l) ((h.branches k l).mpr ⟨_, hk, rfl⟩)
  exact exists_boundTo_iff.mp ⟨t, h.indexOf_eq_ok.mp ht⟩

/-- The instructions with their branches resolved are those that have been emitted. -/
theorem finish_eq_ok (h : Records stamp ds a) {code : List Instruction} (hcode : a.finish = .ok code)
    {k : Nat} {e : Emission} (he : (emissions ds)[k]? = some e) : ∃ x, e.Takes ds x ∧
      code[k]? = some { op := e.op, operand := x, attachments := stamp.attach k } := by
  obtain ⟨code', hr, rfl⟩ := finish_eq_ok_iff.mp hcode
  have hraw : a.code[k]? = some (e.toInstruction stamp k) := by
    rw [← Array.getElem?_toList, h.code, List.getElem?_mapIdx, he]
    rfl
  have honly : ∀ l, (k, l) ∈ a.branches.toList ↔ e.operand.getRight? = some l := by
    intro l
    rw [h.branches, he]
    simp
  rw [Array.getElem?_toList]
  unfold Emission.Takes
  unfold Emission.toInstruction at hraw
  cases hoperand : e.operand with
  | inl x =>
    rw [hoperand] at hraw
    refine ⟨x, rfl, ?_⟩
    rw [getElem?_resolveBranches_of_notMem hr fun l hl => ?_, hraw]
    · rfl
    · rw [honly, hoperand] at hl
      cases hl
  | inr l =>
    rw [hoperand] at hraw
    have hl : (k, l) ∈ a.branches.toList := (honly l).mpr (by rw [hoperand]; rfl)
    obtain ⟨t, ht⟩ := exists_indexOf_of_resolveBranches hr _ hl
    refine ⟨_, ⟨t, h.indexOf_eq_ok.mp ht, rfl⟩, ?_⟩
    rw [getElem?_resolveBranches hr hl (fun l' hl' => ?_) ht, hraw]
    · rfl
    · rw [honly, hoperand] at hl'
      exact (Option.some.inj hl').symm

theorem length_of_finish (h : Records stamp ds a) {code : List Instruction}
    (hcode : a.finish = .ok code) : code.length = (emissions ds).length := by
  obtain ⟨code', hr, rfl⟩ := finish_eq_ok_iff.mp hcode
  rw [Array.length_toList, size_resolveBranches hr, h.size]

/-- Resolving branches moves no instruction. -/
theorem positionOf_finish (h : Records stamp ds a) {code : List Instruction}
    (hcode : a.finish = .ok code) (k : Nat) :
    positionOf a.code.toList k = positionOf code k := by
  refine Method.positionOf_congr (List.ext_getElem? fun j => ?_) k
  rw [List.getElem?_map, List.getElem?_map, h.code, List.getElem?_mapIdx]
  cases he : (emissions ds)[j]? with
  | none =>
    rw [List.getElem?_eq_none_iff, ← h.length_of_finish hcode, ← List.getElem?_eq_none_iff] at he
    rw [he]
    rfl
  | some e =>
    obtain ⟨x, -, hx⟩ := h.finish_eq_ok hcode he
    rw [hx]
    rfl

/-! ### Handlers -/

theorem resolveHandler_eq_ok (h : Records stamp ds a) {f : Nat → Nat} {x : LabelledHandler}
    {y : ExceptionHandler} : a.resolveHandler f x = .ok y ↔ ∃ start stop handler,
      BoundTo ds x.start start ∧ BoundTo ds x.stop stop ∧ BoundTo ds x.handler handler ∧
      y = { startPc := f start, endPc := f stop, handlerPc := f handler,
            catchType := x.catchType } := by
  simp only [resolveHandler, except_bind_eq_ok, h.indexOf_eq_ok, pure, Except.pure,
    Except.ok.injEq]
  constructor
  · rintro ⟨start, hstart, stop, hstop, handler, hhandler, rfl⟩
    exact ⟨start, stop, handler, hstart, hstop, hhandler, rfl⟩
  · rintro ⟨start, stop, handler, hstart, hstop, hhandler, rfl⟩
    exact ⟨start, hstart, stop, hstop, handler, hhandler, rfl⟩

theorem resolveHandler_eq_error (h : Records stamp ds a) {f : Nat → Nat} {x : LabelledHandler}
    (hx : .handler x ∈ ds) (he : a.resolveHandler f x = .error e) : LacksLabel ds e := by
  have hlacks : ∀ {l e'}, (l = x.start ∨ l = x.stop ∨ l = x.handler) →
      a.indexOf l = .error e' → LacksLabel ds e' := fun hl hi =>
    ⟨_, ⟨_, hx, hl⟩, h.indexOf_eq_error hi⟩
  unfold resolveHandler at he
  cases hstart : a.indexOf x.start with
  | error e' =>
    rw [hstart] at he
    cases he
    exact hlacks (.inl rfl) hstart
  | ok start =>
    cases hstop : a.indexOf x.stop with
    | error e' =>
      rw [hstart, hstop] at he
      cases he
      exact hlacks (.inr (.inl rfl)) hstop
    | ok stop =>
      cases hhandler : a.indexOf x.handler with
      | error e' =>
        rw [hstart, hstop, hhandler] at he
        cases he
        exact hlacks (.inr (.inr rfl)) hhandler
      | ok handler =>
        rw [hstart, hstop, hhandler] at he
        cases he

theorem mem_handlers (h : Records stamp ds a) {x : LabelledHandler} :
    x ∈ a.handlers ↔ .handler x ∈ ds := by
  rw [h.handlers, List.mem_filterMap]
  constructor
  · rintro ⟨d, hd, hx⟩
    cases d <;> cases hx
    exact hd
  · exact fun hx => ⟨_, hx, rfl⟩

/-- An assembly can be installed unless it lacks a label. -/
theorem install_eq_error (h : Records stamp ds a) {m : Method} (he : a.install m = .error e) :
    LacksLabel ds e := by
  unfold install at he
  cases hhandlers : a.handlers.mapM (a.resolveHandler (positionOf a.code.toList)) with
  | error e' =>
    rw [hhandlers] at he
    cases he
    obtain ⟨x, hx, hx'⟩ := mapM_eq_error hhandlers
    exact h.resolveHandler_eq_error (h.mem_handlers.mp hx) hx'
  | ok handlers =>
    rw [hhandlers] at he
    cases hcode : a.finish with
    | error e' =>
      rw [hcode] at he
      cases he
      exact h.finish_eq_error hcode
    | ok code =>
      rw [hcode] at he
      cases he

/-- An assembly that has been installed lacks no label. -/
theorem bound_of_install (h : Records stamp ds a) {m m' : Method} (hm' : a.install m = .ok m')
    {d : Directive} (hd : d ∈ ds) (hl : d.Uses l) : .bind l ∈ ds := by
  simp only [install, except_bind_eq_ok] at hm'
  obtain ⟨handlers, hhandlers, code, hcode, -⟩ := hm'
  cases d with
  | branch op l' =>
    obtain rfl : l = l' := hl
    exact h.bound_of_finish hcode hd
  | handler x =>
    obtain ⟨y, hy⟩ := exists_of_mapM_eq_ok hhandlers x (h.mem_handlers.mpr hd)
    obtain ⟨start, stop, handler, hstart, hstop, hhandler, -⟩ := h.resolveHandler_eq_ok.mp hy
    rcases hl with rfl | rfl | rfl
    · exact exists_boundTo_iff.mp ⟨start, hstart⟩
    · exact exists_boundTo_iff.mp ⟨stop, hstop⟩
    · exact exists_boundTo_iff.mp ⟨handler, hhandler⟩
  | _ => cases hl

end Records

/-! ## Lines -/

section Lines

variable {ds : List Directive}

theorem ne_zero_of_follows {a : Assembly} (h : a.Follows ds) {n : Nat} (hn : .line n ∈ ds) :
    n ≠ 0 := by
  induction ds generalizing a with
  | nil => cases hn
  | cons d ds ih =>
    rcases List.mem_cons.mp hn with rfl | hn
    · exact h.1
    · exact ih h.2 hn

theorem line_of_mem_emissionsFrom {line : Option Nat} {e : Emission}
    (h : e ∈ emissionsFrom line ds) {n : Nat} (hn : e.line = some n) :
    line = some n ∨ .line n ∈ ds := by
  induction ds generalizing line with
  | nil => cases h
  | cons d ds ih =>
    rw [emissionsFrom, List.mem_append, Option.mem_toList] at h
    rcases h with h | h
    · cases d <;> cases h
      · exact .inl hn
      · exact .inl hn
    · rcases ih h with hline | hmem
      · cases d <;> first | exact .inl hline | skip
        cases hline
        exact .inr List.mem_cons_self
      · exact .inr (List.mem_cons_of_mem _ hmem)

/-- Once a line has been set, all instructions have one. -/
theorem isSome_line_of_mem_emissionsFrom {line : Option Nat} (hline : line.isSome) {e : Emission}
    (h : e ∈ emissionsFrom line ds) : e.line.isSome := by
  induction ds generalizing line with
  | nil => cases h
  | cons d ds ih =>
    rw [emissionsFrom, List.mem_append, Option.mem_toList] at h
    rcases h with h | h
    · cases d <;> cases h
      · exact hline
      · exact hline
    · refine ih ?_ h
      cases d <;> first | exact hline | rfl

theorem pairwise_emissionsFrom (line : Option Nat) (ds : List Directive) :
    (emissionsFrom line ds).Pairwise fun e e' => e.line.isSome → e'.line.isSome := by
  induction ds generalizing line with
  | nil => exact .nil
  | cons d ds ih =>
    rw [emissionsFrom]
    have hrest := ih (d.line?.or line)
    cases d with
    | emit op operand =>
      exact .cons (fun e' he' hline => isSome_line_of_mem_emissionsFrom hline he') hrest
    | branch op l =>
      exact .cons (fun e' he' hline => isSome_line_of_mem_emissionsFrom hline he') hrest
    | _ => exact hrest

/-- The lines of instructions; zero if none has been set. -/
def lineTable (ds : List Directive) : List Nat := (emissions ds).map fun e => e.line.getD 0

/-- There are no gaps behind the first line. -/
theorem fillLines_lineTable {a : Assembly} (h : a.Follows ds) :
    Method.fillLines ((lineTable ds).headD 0) (lineTable ds) = lineTable ds := by
  have hiff : ∀ e ∈ emissions ds, e.line.getD 0 ≠ 0 ↔ e.line.isSome := by
    intro e he
    cases hline : e.line with
    | none => simp
    | some n =>
      have hn := ne_zero_of_follows h
        ((line_of_mem_emissionsFrom he hline).resolve_left (by simp))
      simp [hn]
  have hpairwise : (lineTable ds).Pairwise fun n n' => n ≠ 0 → n' ≠ 0 := by
    refine List.pairwise_map.mpr ((pairwise_emissionsFrom none ds).imp_of_mem ?_)
    intro e e' he he' hline
    rw [hiff e he, hiff e' he']
    exact hline
  refine Method.fillLines_eq_self (fun hlast n hn => ?_) hpairwise
  cases htable : lineTable ds with
  | nil => simp [htable] at hn
  | cons n₀ ns =>
    rw [htable] at hlast hn hpairwise
    rcases List.mem_cons.mp hn with rfl | hn
    · exact hlast
    · exact (List.pairwise_cons.mp hpairwise).1 n hn hlast

end Lines

/-! ## Installing -/

section Installing

variable {stamp : Stamp} {ds : List Directive} {a : Assembly} {m m' : Method}

/-- The lines recorded are the ones that the table is told. -/
theorem Records.foldl_lines (h : Records stamp ds a) :
    a.lines.toList.foldl (fun ls x => ls.setIfInBounds x.1 x.2)
      (Array.replicate (emissions ds).length 0) = (lineTable ds).toArray := by
  refine Array.ext_getElem? fun k => ?_
  have htable : (lineTable ds).toArray[k]? = (emissions ds)[k]?.map fun e => e.line.getD 0 := by
    simp [lineTable]
  rw [htable]
  cases he : (emissions ds)[k]? with
  | none =>
    have hk : (emissions ds).length ≤ k := List.getElem?_eq_none_iff.mp he
    rw [Array.getElem?_eq_none]
    · rfl
    · rw [Method.size_foldl_setIfInBounds, Array.size_replicate]
      exact hk
  | some e =>
    obtain ⟨hk, -⟩ := List.getElem?_eq_some_iff.mp he
    have honly : ∀ n, (k, n) ∈ a.lines.toList ↔ e.line = some n := by
      intro n
      rw [h.lines, he]
      simp
    cases hline : e.line with
    | none =>
      rw [Method.getElem?_foldl_of_notMem fun n hn => ?_]
      · simp [hk, hline]
      · rw [honly, hline] at hn
        cases hn
    | some n =>
      rw [Method.getElem?_foldl_of_mem ((honly n).mpr hline) (fun n' hn' => ?_)
        (by simpa using hk)]
      · simp [hline]
      · rw [honly, hline] at hn'
        exact (Option.some.inj hn').symm

theorem Records.lines_eq_empty_iff (h : Records stamp ds a) :
    a.lines.isEmpty = true ↔ ∀ e ∈ emissions ds, e.line = none := by
  rw [Array.isEmpty_iff, ← Array.toList_eq_nil_iff, List.eq_nil_iff_forall_not_mem]
  constructor
  · intro hnone e he
    obtain ⟨k, hk⟩ := List.getElem?_of_mem he
    cases hline : e.line with
    | none => rfl
    | some n => exact absurd ((h.lines k n).mpr ⟨e, hk, hline⟩) (hnone _)
  · rintro hnone ⟨k, n⟩ hn
    obtain ⟨e, he, hline⟩ := (h.lines k n).mp hn
    rw [hnone e (List.mem_of_getElem? he)] at hline
    cases hline

/-- The table that is made of the lines recorded. -/
theorem Records.withFilledLines (h : Records stamp ds a) (hds : Follows { stamp } ds)
    (hm : m.LaidOut) (hsize : m.code.size = (emissions ds).length) :
    (a.lines.foldl (fun m' x => m'.setLineAt (positionOf m.code.toList x.1) x.2)
        m.withBlankLines).withFilledLines =
      { m with lines? := some (lineTable ds).toArray } := by
  have hblank : m.withBlankLines.LaidOut := hm.of_eq rfl rfl
  have hset : a.lines.toList.foldl
      (fun m' x => m'.setLineAt (positionOf m.code.toList x.1) x.2) m.withBlankLines =
      a.lines.toList.foldl (fun m' x => m'.setLine x.1 x.2) m.withBlankLines := by
    refine hblank.foldl_setLineAt fun x hx => ?_
    obtain ⟨e, he, -⟩ := (h.lines x.1 x.2).mp hx
    exact hsize ▸ (List.getElem?_eq_some_iff.mp he).1
  rw [← Array.foldl_toList, hset, Method.foldl_setLine]
  simp only [Method.withBlankLines, hsize, Option.map_some, h.foldl_lines, Method.withFilledLines]
  have hhead : (lineTable ds).toArray.getD 0 0 = (lineTable ds).headD 0 := by
    cases lineTable ds <;> rfl
  rw [hhead, fillLines_lineTable hds]

/-- What a method is made into. -/
theorem install_eq_ok (hds : Follows { stamp } ds) (h : Records stamp ds a)
    (hm' : a.install m = .ok m') : ∃ handlers code,
      a.handlers.mapM (a.resolveHandler (positionOf a.code.toList)) = .ok handlers ∧
      a.finish = .ok code ∧ m' = { m with
        code? := some (Method.place m.id code).toArray
        lines? := if a.lines.isEmpty then m.lines? else some (lineTable ds).toArray
        handlers? := if handlers.isEmpty then m.handlers? else some handlers } := by
  simp only [install, except_bind_eq_ok] at hm'
  obtain ⟨handlers, hhandlers, code, hcode, hm'⟩ := hm'
  refine ⟨handlers, code, hhandlers, hcode, ?_⟩
  have hsize : (m.withCode code).code.size = (emissions ds).length := by
    rw [← h.length_of_finish hcode]
    simpa [Method.withCode, Method.code] using
      congrArg List.length (Method.map_length_place m.id code)
  have hposition : positionOf code = positionOf (m.withCode code).code.toList := by
    refine funext fun k => (Method.positionOf_congr ?_ k).symm
    simpa [Method.withCode, Method.code] using Method.map_length_place m.id code
  rw [← Except.ok.inj hm', hposition,
    h.withFilledLines hds (Method.laidOut_withCode m code) hsize]
  by_cases hlines : a.lines.isEmpty
  · simp only [hlines, if_true]
    split <;> rfl
  · simp only [hlines, Bool.false_eq_true, if_false]
    split <;> rfl

/-- A handler of a method is what has been declared with labels: it covers the instructions between
the first two and leads to the third one. -/
structure Realizes (ds : List Directive) (m : Method) (x : LabelledHandler) (y : ExceptionHandler) :
    Prop where
  catchType : y.catchType = x.catchType
  labels : ∃ start stop handler, BoundTo ds x.start start ∧ BoundTo ds x.stop stop ∧
    BoundTo ds x.handler handler ∧
    (∀ k i, m.instruction? k = some i → (y.covers i.position = true ↔ start ≤ k ∧ k < stop)) ∧
    ∀ i, m.instruction? handler = some i → m.instructionAt y.handlerPc = .ok i

/-- A method has been made into what directives tell. -/
structure Realized (stamp : Stamp) (ds : List Directive) (m m' : Method) : Prop where
  size : m'.code.size = (emissions ds).length
  /-- The instructions are those that were emitted, one behind the other. -/
  instruction : ∀ k e, (emissions ds)[k]? = some e → ∃ x, e.Takes ds x ∧ m'.instruction? k = some
    { op := e.op, operand := x, index := k, position := positionOf m'.code.toList k, method := m.id,
      attachments := stamp.attach k }
  instructionAt : ∀ k i, m'.instruction? k = some i → m'.instructionAt i.position = .ok i
  /-- If a line was in force for any of them, each is on the line that was in force for it. -/
  lineOf : (∃ e ∈ emissions ds, e.line ≠ none) → ∀ k e i, (emissions ds)[k]? = some e →
    m'.instruction? k = some i → m'.lineOf i = e.line.getD 0
  handlers : List.Forall₂ (Realizes ds m') (ds.filterMap Directive.handler?) m'.handlers
  /-- Nothing else has changed. -/
  rest : m' = { m with code? := m'.code?, lines? := m'.lines?, handlers? := m'.handlers? }

theorem Records.instruction?_of_install (h : Records stamp ds a) {code : List Instruction}
    (hcode : a.finish = .ok code) (hm' : m'.code? = some (Method.place m.id code).toArray) {k : Nat}
    {e : Emission} (he : (emissions ds)[k]? = some e) : ∃ x, e.Takes ds x ∧ m'.instruction? k = some
      { op := e.op, operand := x, index := k, position := positionOf m'.code.toList k,
        method := m.id, attachments := stamp.attach k } := by
  obtain ⟨x, hx, hk⟩ := h.finish_eq_ok hcode he
  refine ⟨x, hx, ?_⟩
  have hplaced : m'.code.toList = Method.place m.id code := by simp [Method.code, hm']
  have hposition : positionOf m'.code.toList k = positionOf code k := by
    rw [hplaced]
    exact Method.positionOf_congr (Method.map_length_place m.id code) k
  rw [Method.instruction?, ← Array.getElem?_toList, hposition, hplaced, Method.getElem?_place, hk]
  rfl

/-- Handlers go by bytes where they were declared by labels. -/
theorem Records.realizes (h : Records stamp ds a) (hlaid : m.LaidOut)
    (hsize : m.code.size = (emissions ds).length) {f : Nat → Nat}
    (hf : ∀ k, f k = positionOf m.code.toList k) {x : LabelledHandler} {y : ExceptionHandler}
    (hy : a.resolveHandler f x = .ok y) : Realizes ds m x y := by
  obtain ⟨start, stop, handler, hstart, hstop, hhandler, rfl⟩ := h.resolveHandler_eq_ok.mp hy
  refine ⟨rfl, start, stop, handler, hstart, hstop, hhandler, fun k i hi => ?_, fun i hi => ?_⟩
  · have hk := Nat.le_of_lt (Method.lt_of_instruction? hi)
    have hle : ∀ {l n}, BoundTo ds l n → n ≤ m.code.toList.length := fun hl => by
      rw [Array.length_toList, hsize]
      exact hl.le_length
    simp only [ExceptionHandler.covers, hf, (hlaid k i hi).2.2, Bool.and_eq_true,
      decide_eq_true_eq, positionOf_le_iff (hle hstart) hk, positionOf_lt_iff hk (hle hstop)]
  · show m.instructionAt (f handler) = .ok i
    rw [hf, ← (hlaid handler i hi).2.2]
    exact hlaid.instructionAt hi

/-- **Installing is faithful.** Directives are given to a fresh assembly, and the outcome is installed
in a method that has no handlers yet. That fails exactly if a label that a branch or a handler uses
has never been bound; such a label is what the fault names, and a draft keeps its method. Otherwise
the method has the instructions that were emitted, each with its index, its byte and its line, where
branches lead to the instructions that their labels were bound to for the last time, and it has the
handlers that were declared. -/
theorem install_follow (hds : Follows { stamp } ds) (hm : m.handlers? = none) :
    ((∃ e, (follow { stamp } ds).install m = .error e) ↔ ∃ e, LacksLabel ds e) ∧
      (∀ e, (follow { stamp } ds).install m = .error e → LacksLabel ds e ∧
        ∀ d : Draft, d.method = m → Draft.install (follow { stamp } ds) d = .error e d) ∧
      ∀ m', (follow { stamp } ds).install m = .ok m' → Realized stamp ds m m' := by
  have h := records_follow hds
  refine ⟨⟨Exists.imp fun e => h.install_eq_error, ?_⟩, fun e he => ⟨h.install_eq_error he, ?_⟩,
    fun m' hm' => ?_⟩
  · rintro ⟨-, l, ⟨d, hd, huses⟩, hunbound, -⟩
    cases hinstall : (follow { stamp } ds).install m with
    | error e => exact ⟨e, rfl⟩
    | ok m' => exact absurd (h.bound_of_install hinstall hd huses) hunbound
  · rintro d rfl
    unfold Draft.install
    rw [get_bind, he]
    rfl
  · obtain ⟨handlers, code, hhandlers, hcode, hmade⟩ := install_eq_ok hds h hm'
    have hcode' : m'.code? = some (Method.place m.id code).toArray := by rw [hmade]
    have hplaced : m'.code.toList = Method.place m.id code := by simp [Method.code, hcode']
    have hlengths := Method.map_length_place m.id code
    have hsize : m'.code.size = (emissions ds).length := by
      rw [← Array.length_toList, hplaced, ← h.length_of_finish hcode]
      simpa using congrArg List.length hlengths
    have hlaid : m'.LaidOut := by
      refine (Method.laidOut_withCode m code).of_eq ?_ ?_ <;> rw [hmade] <;> rfl
    refine ⟨hsize, fun k e he => h.instruction?_of_install hcode hcode' he,
      fun k i => hlaid.instructionAt, ?_, ?_, ?_⟩
    · rintro ⟨e₀, he₀, hline₀⟩ k e i he hi
      have hlines : m'.lines? = some (lineTable ds).toArray := by
        have hsome : (follow { stamp } ds).lines.isEmpty = false := by
          rw [← Bool.not_eq_true, h.lines_eq_empty_iff]
          exact fun hnone => hline₀ (hnone e₀ he₀)
        rw [hmade, hsome]
        rfl
      simp [Method.lineOf, hlines, (hlaid k i hi).2.1, lineTable, he]
    · have hmade' : m'.handlers = handlers := by
        rw [hmade]
        cases handlers <;> simp [Method.handlers, hm]
      rw [hmade', ← h.handlers]
      refine (mapM_eq_ok.mp hhandlers).imp fun x y => h.realizes hlaid hsize fun k => ?_
      rw [h.positionOf_finish hcode, hplaced]
      exact (Method.positionOf_congr hlengths k).symm
    · rw [hmade]

end Installing

/-! ## An example -/

/-- A branch leads forwards and another one back, to a label that is bound twice. A handler covers
what lies between, up to the end of the code, and leads there. -/
def countdown : List Directive :=
  [.newLabel, .newLabel, .bind ⟨0⟩, .emit .nop .none, .branch .goto ⟨1⟩, .line 3, .bind ⟨0⟩,
    .emit .iConst (.int 1), .bind ⟨1⟩, .branch .ifEq ⟨0⟩, .line 5, .emit .voidReturn .none,
    .newLabel, .bind ⟨2⟩, .handler { start := ⟨0⟩, stop := ⟨2⟩, handler := ⟨2⟩ }]

/-- The method `countdown()` has no body yet. -/
def bareCountdown : Method := { name := "countdown", signature := "()V" }

theorem install_follow_countdown : Follows { stamp := .plain } countdown ∧
    ∃ m', (follow { stamp := .plain } countdown).install bareCountdown = .ok m' ∧
      Realized .plain countdown bareCountdown m' ∧
      (m'.instruction? 1).map Instruction.operand = some (.target 3) ∧
      (m'.instruction? 3).map Instruction.operand = some (.target 2) ∧
      (m'.code.toList.map m'.lineOf) = [0, 0, 3, 3, 5] := by
  have hds : Follows { stamp := .plain } countdown := by decide
  obtain ⟨-, -, hrealized⟩ := install_follow (m := bareCountdown) hds rfl
  refine ⟨hds, _, rfl, hrealized _ rfl, ?_, ?_, ?_⟩ <;> decide +kernel

end Assembly

end Interleave

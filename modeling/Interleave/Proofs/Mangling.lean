import Interleave.Method.Basic
import Interleave.Proofs.Descriptors
import Mathlib.Algebra.Group.Nat.Defs
import Mathlib.Data.List.Infix

/-!
# Native names can be read back

A mangled name is cut into the forms of its characters from left to right. An underscore that is
followed by one of the digits `0` to `3` begins an escape, and every other underscore stands for a
slash. So a slash must not be followed by such a digit, and a dot, which becomes an underscore too,
must not occur at all. Characters beyond U+FFFF take more than four digits and are left out.

Where no slash occurs in the name of a method, every underscore in its mangled form begins an
escape. Then the first two underscores in a row end the name, and the arguments begin.
-/

namespace Interleave

/-! ## Hexadecimal digits -/

/-- The value of a hexadecimal digit. -/
def hexDigitValue (c : Char) : Nat :=
  if c.isDigit then c.toNat - '0'.toNat else c.toNat - 'a'.toNat + 10

/-- The number that some hexadecimal digits stand for. -/
def hexValue (cs : List Char) : Nat := cs.foldl (fun v c => 16 * v + hexDigitValue c) 0

theorem hexDigitValue_digitChar : ∀ d < 16, hexDigitValue d.digitChar = d := by decide

theorem digitChar_ne_underscore : ∀ d < 16, d.digitChar ≠ '_' := by decide

theorem hexValue_concat (cs : List Char) (c : Char) :
    hexValue (cs ++ [c]) = 16 * hexValue cs + hexDigitValue c := by
  simp [hexValue]

theorem hexValue_toDigits (n : Nat) : hexValue (Nat.toDigits 16 n) = n := by
  induction n using Nat.strongRecOn with
  | ind n ih =>
    rw [Nat.toDigits_eq_if (by decide)]
    split
    · rename_i hn
      simpa [hexValue] using hexDigitValue_digitChar n hn
    · rename_i hn
      have hd : n % 16 < 16 := Nat.mod_lt n (by decide)
      rw [hexValue_concat, ih (n / 16) (by omega), hexDigitValue_digitChar _ hd]
      omega

/-- Zeros in front of a number do not change it. -/
theorem hexValue_hexDigits (width n : Nat) : hexValue (hexDigits width n) = n := by
  have hzeros : ∀ k, (List.replicate k '0').foldl (fun v c => 16 * v + hexDigitValue c) 0 = 0 := by
    intro k
    induction k with
    | zero => rfl
    | succ k ih => exact ih
  have hdigits := hexValue_toDigits n
  unfold hexValue at hdigits ⊢
  rw [hexDigits, List.foldl_append, hzeros, hdigits]

theorem length_hexDigits {width n : Nat} (hwidth : 0 < width) (hn : n < 16 ^ width) :
    (hexDigits width n).length = width := by
  have hlength := (Nat.length_toDigits_le_iff (by decide : 1 < 16) hwidth).mpr hn
  rw [hexDigits, List.length_append, List.length_replicate]
  omega

theorem underscore_notMem_hexDigits (width n : Nat) : '_' ∉ hexDigits width n := by
  have hdigits : ∀ n, '_' ∉ Nat.toDigits 16 n := by
    intro n
    induction n using Nat.strongRecOn with
    | ind n ih =>
      rw [Nat.toDigits_eq_if (by decide)]
      split
      · rename_i hn
        exact fun h => digitChar_ne_underscore n hn (List.mem_singleton.mp h).symm
      · rename_i hn
        have hd : n % 16 < 16 := Nat.mod_lt n (by decide)
        rw [List.mem_append, List.mem_singleton, not_or]
        exact ⟨ih (n / 16) (by omega), (digitChar_ne_underscore _ hd).symm⟩
  simp [hexDigits, hdigits n]

namespace Mangling

/-! ## Reading a name back -/

/-- The digits that begin an escape behind an underscore. -/
def escapeDigits : List Char := ['0', '1', '2', '3']

/-- The characters that a mangled form stands for. -/
def unmangleChars : List Char → List Char
  | [] => []
  | '_' :: '0' :: a :: b :: c :: d :: cs => Char.ofNat (hexValue [a, b, c, d]) :: unmangleChars cs
  | '_' :: '1' :: cs => '_' :: unmangleChars cs
  | '_' :: '2' :: cs => ';' :: unmangleChars cs
  | '_' :: '3' :: cs => '[' :: unmangleChars cs
  | '_' :: cs => '/' :: unmangleChars cs
  | c :: cs => c :: unmangleChars cs

/-- The name that a mangled name stands for. -/
def unmangle (name : String) : String := String.ofList (unmangleChars name.toList)

/-- A text that can be read back from its mangled form. -/
structure Readable (cs : List Char) : Prop where
  narrow : ∀ c ∈ cs, c.toNat ≤ 0xffff
  undotted : '.' ∉ cs
  /-- No slash looks like the beginning of an escape. -/
  slashes : ∀ d ∈ escapeDigits, ¬ ['/', d] <:+: cs

instance (cs : List Char) : Decidable (Readable cs) :=
  -- written with `all`, so that not every character there is is gone through
  decidable_of_iff (cs.all (fun c => decide (c.toNat ≤ 0xffff)) = true ∧ '.' ∉ cs ∧
    escapeDigits.all (fun d => decide (¬ ['/', d] <:+: cs)) = true) <| by
      simp only [List.all_eq_true, decide_eq_true_eq]
      exact ⟨fun ⟨hnarrow, hundotted, hslashes⟩ => ⟨hnarrow, hundotted, hslashes⟩,
        fun h => ⟨h.narrow, h.undotted, h.slashes⟩⟩

theorem Readable.tail {c : Char} {cs : List Char} (h : Readable (c :: cs)) : Readable cs where
  narrow d hd := h.narrow d (List.mem_cons_of_mem _ hd)
  undotted hd := h.undotted (List.mem_cons_of_mem _ hd)
  slashes d hd hsub := h.slashes d hd (hsub.trans (List.suffix_cons c cs).isInfix)

/-- The ways in which a character is mangled. -/
theorem mangleChar_cases (c : Char) :
    (c.isAlphanum = true ∧ mangleChar c = [c]) ∨
      ((c = '/' ∨ c = '.') ∧ mangleChar c = ['_']) ∨
      (c = '_' ∧ mangleChar c = ['_', '1']) ∨
      (c = ';' ∧ mangleChar c = ['_', '2']) ∨
      (c = '[' ∧ mangleChar c = ['_', '3']) ∨
      mangleChar c = '_' :: '0' :: hexDigits 4 c.toNat := by
  unfold mangleChar
  split
  · exact .inl ⟨‹_›, rfl⟩
  · split
    · exact .inr (.inl ⟨‹_›, rfl⟩)
    · split
      · exact .inr (.inr (.inl ⟨‹_›, rfl⟩))
      · split
        · exact .inr (.inr (.inr (.inl ⟨‹_›, rfl⟩)))
        · split
          · exact .inr (.inr (.inr (.inr (.inl ⟨‹_›, rfl⟩))))
          · exact .inr (.inr (.inr (.inr (.inr rfl))))

theorem ne_underscore_of_isAlphanum {c : Char} (h : c.isAlphanum = true) : c ≠ '_' := by
  rintro rfl
  revert h
  decide

/-- A character that is not an underscore stands for itself. -/
theorem unmangleChars_cons {c : Char} (h : c ≠ '_') (cs : List Char) :
    unmangleChars (c :: cs) = c :: unmangleChars cs := by
  rw [unmangleChars]
  all_goals
    intros
    exact h ‹_›

/-- An underscore that does not begin an escape stands for a slash. -/
theorem unmangleChars_slash {cs : List Char} (h : ∀ d ∈ escapeDigits, cs.head? ≠ some d) :
    unmangleChars ('_' :: cs) = '/' :: unmangleChars cs := by
  have hne : ∀ d ∈ escapeDigits, ∀ rest, cs ≠ d :: rest := by
    rintro d hd rest rfl
    exact h d hd rfl
  rw [unmangleChars]
  · rintro a b c d rest
    exact hne '0' (by decide) _
  · exact hne '1' (by decide)
  · exact hne '2' (by decide)
  · exact hne '3' (by decide)

/-- An escape of four digits stands for the character that has this number. -/
theorem unmangleChars_escape {c : Char} (h : c.toNat ≤ 0xffff) (cs : List Char) :
    unmangleChars ('_' :: '0' :: hexDigits 4 c.toNat ++ cs) = c :: unmangleChars cs := by
  have hlength : (hexDigits 4 c.toNat).length = 4 := length_hexDigits (by decide) (by omega)
  have hvalue := hexValue_hexDigits 4 c.toNat
  obtain ⟨a, b, d, e, hdigits⟩ : ∃ a b d e, hexDigits 4 c.toNat = [a, b, d, e] := by
    match hexDigits 4 c.toNat, hlength with
    | [a, b, d, e], _ => exact ⟨a, b, d, e, rfl⟩
  rw [hdigits] at hvalue ⊢
  simp only [List.cons_append, List.nil_append]
  rw [unmangleChars, hvalue, Char.ofNat_toNat]

/-- A mangled form begins with an underscore, or with the letter or digit that is mangled. -/
theorem head?_mangleChars (c : Char) (cs : List Char) :
    (mangleChars (c :: cs)).head? = some '_' ∨ (mangleChars (c :: cs)).head? = some c := by
  rw [mangleChars, List.flatMap_cons]
  rcases mangleChar_cases c with ⟨-, h⟩ | ⟨-, h⟩ | ⟨-, h⟩ | ⟨-, h⟩ | ⟨-, h⟩ | h <;> rw [h] <;> simp

/-- What follows a slash does not look like the rest of an escape. -/
theorem Readable.head?_mangleChars {cs : List Char} (h : Readable ('/' :: cs)) {d : Char}
    (hd : d ∈ escapeDigits) : (mangleChars cs).head? ≠ some d := by
  cases cs with
  | nil => simp [mangleChars]
  | cons c cs =>
    rcases Mangling.head?_mangleChars c cs with hhead | hhead
    · rw [hhead]
      rintro ⟨⟩
      exact absurd hd (by decide)
    · rw [hhead]
      intro hc
      obtain rfl := Option.some.inj hc
      exact h.slashes c hd ⟨[], cs, rfl⟩

/-- **Mangled forms can be read back.** -/
theorem unmangleChars_mangleChars {cs : List Char} (h : Readable cs) :
    unmangleChars (mangleChars cs) = cs := by
  induction cs with
  | nil => rfl
  | cons c cs ih =>
    have hrest := ih h.tail
    have hnarrow := h.narrow c List.mem_cons_self
    rw [mangleChars, List.flatMap_cons]
    change unmangleChars (mangleChar c ++ mangleChars cs) = c :: cs
    rcases mangleChar_cases c with
      ⟨halnum, hc⟩ | ⟨hslash | hdot, hc⟩ | ⟨rfl, hc⟩ | ⟨rfl, hc⟩ | ⟨rfl, hc⟩ | hc
    · rw [hc, List.singleton_append, unmangleChars_cons (ne_underscore_of_isAlphanum halnum), hrest]
    · subst hslash
      have hstart : ∀ d ∈ escapeDigits, (mangleChars cs).head? ≠ some d :=
        fun d hd => h.head?_mangleChars hd
      rw [hc, List.singleton_append, unmangleChars_slash hstart, hrest]
    · exact absurd (hdot ▸ List.mem_cons_self) h.undotted
    · rw [hc]
      exact congrArg _ hrest
    · rw [hc]
      exact congrArg _ hrest
    · rw [hc]
      exact congrArg _ hrest
    · rw [hc, unmangleChars_escape hnarrow, hrest]

theorem unmangle_mangle {s : String} (h : Readable s.toList) : unmangle (mangle s) = s := by
  rw [unmangle, mangle, String.toList_ofList, unmangleChars_mangleChars h, String.ofList_toList]

/-! ## Reading the name of a method back -/

/-- A text cut at the first two underscores in a row, which are dropped. -/
def cutDouble : List Char → List Char × List Char
  | '_' :: '_' :: cs => ([], cs)
  | c :: cs => (c :: (cutDouble cs).1, (cutDouble cs).2)
  | [] => ([], [])

theorem cutDouble_cons {c : Char} {cs : List Char} (h : c ≠ '_' ∨ cs.head? ≠ some '_') :
    cutDouble (c :: cs) = (c :: (cutDouble cs).1, (cutDouble cs).2) := by
  rw [cutDouble]
  rintro rest rfl rfl
  simp at h

/-- There are no two underscores in a row where there are none. -/
theorem cutDouble_append {xs : List Char} (h : '_' ∉ xs) (cs : List Char) :
    cutDouble (xs ++ cs) = (xs ++ (cutDouble cs).1, (cutDouble cs).2) := by
  induction xs with
  | nil => rfl
  | cons x xs ih =>
    obtain ⟨hx, hxs⟩ := not_or.mp (mt List.mem_cons.mpr h)
    rw [List.cons_append, cutDouble_cons (.inl (Ne.symm hx)), ih hxs]
    rfl

/-- Nor are there in the mangled form of a character that is no separator. -/
theorem cutDouble_mangleChar {c : Char} (h : c ≠ '/' ∧ c ≠ '.') (cs : List Char) :
    cutDouble (mangleChar c ++ cs) = (mangleChar c ++ (cutDouble cs).1, (cutDouble cs).2) := by
  have hescape : ∀ xs : List Char, '_' ∉ xs → xs ≠ [] →
      cutDouble ('_' :: xs ++ cs) = ('_' :: xs ++ (cutDouble cs).1, (cutDouble cs).2) := by
    intro xs hxs hne
    obtain ⟨x, xs, rfl⟩ := List.exists_cons_of_ne_nil hne
    have hx : (x :: xs ++ cs).head? ≠ some '_' := by
      rintro ⟨⟩
      exact hxs List.mem_cons_self
    rw [List.cons_append, cutDouble_cons (.inr hx), cutDouble_append hxs]
    rfl
  rcases mangleChar_cases c with
    ⟨halnum, hc⟩ | ⟨hslash, -⟩ | ⟨-, hc⟩ | ⟨-, hc⟩ | ⟨-, hc⟩ | hc
  · rw [hc]
    exact cutDouble_append (by simpa using (ne_underscore_of_isAlphanum halnum).symm) cs
  · exact absurd hslash (not_or.mpr h)
  · rw [hc]
    exact hescape ['1'] (by decide) (by decide)
  · rw [hc]
    exact hescape ['2'] (by decide) (by decide)
  · rw [hc]
    exact hescape ['3'] (by decide) (by decide)
  · rw [hc]
    refine hescape _ (fun hmem => ?_) (List.cons_ne_nil _ _)
    rcases List.mem_cons.mp hmem with h0 | hmem
    · exact absurd h0 (by decide)
    · exact underscore_notMem_hexDigits 4 c.toNat hmem

theorem cutDouble_mangleChars {cs : List Char} (h : ∀ c ∈ cs, c ≠ '/' ∧ c ≠ '.')
    (rest : List Char) :
    cutDouble (mangleChars cs ++ '_' :: '_' :: rest) = (mangleChars cs, rest) := by
  induction cs with
  | nil => rfl
  | cons c cs ih =>
    obtain ⟨hc, hcs⟩ := List.forall_mem_cons.mp h
    change cutDouble ((mangleChar c ++ mangleChars cs) ++ _) = (mangleChar c ++ mangleChars cs, _)
    rw [List.append_assoc, cutDouble_mangleChar hc, ih hcs]

/-- The arguments of a signature stand between its parentheses. -/
theorem argumentPart_of_parse {text : String} {s : Signature} (h : Signature.parse text = .ok s) :
    argumentPart text.toList = s.args.flatMap String.toList := by
  obtain ⟨args, result⟩ := s
  obtain ⟨htext, hargs, -⟩ := Signature.parse_eq_ok_iff.mp h
  have hopen : ∀ c ∈ args.flatMap String.toList, (c != ')') = true := by
    intro c hc
    obtain ⟨a, ha, hca⟩ := List.mem_flatMap.mp hc
    simpa using fun he : c = ')' => (hargs a ha).2 (he ▸ hca)
  rw [htext, argumentPart, if_pos (by simp), List.takeWhile_append_of_pos hopen]
  simp

/-- Two signatures with the same text between the parentheses have the same arguments. -/
theorem args_eq_of_argumentPart {text text' : String} {s s' : Signature}
    (h : Signature.parse text = .ok s) (h' : Signature.parse text' = .ok s')
    (hpart : argumentPart text.toList = argumentPart text'.toList) : s.args = s'.args := by
  rw [argumentPart_of_parse h, argumentPart_of_parse h'] at hpart
  obtain ⟨args, result⟩ := s
  obtain ⟨args', result'⟩ := s'
  obtain ⟨-, hargs, hresult⟩ := Signature.parse_eq_ok_iff.mp h
  obtain ⟨htext', -, -⟩ := Signature.parse_eq_ok_iff.mp h'
  -- the second text is also that of the first arguments with the second result
  have hmixed : Signature.parse text' = .ok ⟨args, result'⟩ :=
    Signature.parse_eq_ok_iff.mpr ⟨by rw [htext', hpart], hargs,
      (Signature.parse_eq_ok_iff.mp h').2.2⟩
  rw [h'] at hmixed
  cases hmixed
  rfl

/-- The names and the arguments of a method can be read back. -/
structure ReadableMethod (m : Method) : Prop where
  name : Readable m.name.toList
  unslashed : '/' ∉ m.name.toList
  args : Readable (argumentPart m.signature.toList)

instance (m : Method) : Decidable (ReadableMethod m) :=
  decidable_of_iff (Readable m.name.toList ∧ '/' ∉ m.name.toList ∧
    Readable (argumentPart m.signature.toList))
    ⟨fun ⟨hname, hunslashed, hargs⟩ => ⟨hname, hunslashed, hargs⟩,
      fun h => ⟨h.name, h.unslashed, h.args⟩⟩

theorem toList_nativeName (m : Method) : m.nativeName.toList =
    mangleChars m.name.toList ++ '_' :: '_' :: mangleChars (argumentPart m.signature.toList) := by
  simp [Method.nativeName, methodName, mangle]

/-- The native name of a method, cut after its name. -/
theorem cutDouble_nativeName {m : Method} (h : ReadableMethod m) :
    cutDouble m.nativeName.toList =
      (mangleChars m.name.toList, mangleChars (argumentPart m.signature.toList)) := by
  have hname : ∀ c ∈ m.name.toList, c ≠ '/' ∧ c ≠ '.' := by
    intro c hc
    exact ⟨fun he => h.unslashed (he ▸ hc), fun he => h.name.undotted (he ▸ hc)⟩
  rw [toList_nativeName, cutDouble_mangleChars hname]

/-- **Mangling tells names and methods apart.** What it makes of a readable text can be read back,
so it takes different texts to different ones. And the native name of a readable method determines
its name and the descriptors of its arguments, so that overloads never share a native name. -/
theorem mangling_tells_apart :
    (∀ s : String, Readable s.toList → unmangle (mangle s) = s) ∧
      (∀ s t : String, Readable s.toList → Readable t.toList → mangle s = mangle t → s = t) ∧
      ∀ (m m' : Method) (s s' : Signature), Signature.parse m.signature = .ok s →
        Signature.parse m'.signature = .ok s' → ReadableMethod m → ReadableMethod m' →
        m.nativeName = m'.nativeName → m.name = m'.name ∧ s.args = s'.args := by
  refine ⟨fun s hs => unmangle_mangle hs, fun s t hs ht hst => ?_,
    fun m m' s s' hs hs' hm hm' hnative => ?_⟩
  · rw [← unmangle_mangle hs, hst, unmangle_mangle ht]
  · have hcut := cutDouble_nativeName hm
    rw [hnative, cutDouble_nativeName hm', Prod.mk.injEq] at hcut
    obtain ⟨hname, hargs⟩ := hcut
    have hnames : m'.name.toList = m.name.toList := by
      rw [← unmangleChars_mangleChars hm'.name, hname, unmangleChars_mangleChars hm.name]
    have hparts : argumentPart m'.signature.toList = argumentPart m.signature.toList := by
      rw [← unmangleChars_mangleChars hm'.args, hargs, unmangleChars_mangleChars hm.args]
    exact ⟨(String.toList_inj.mp hnames).symm, args_eq_of_argumentPart hs hs' hparts.symm⟩

/-- Methods that differ in their results only share a native name, and it gives back what they have
in common: underscores, a letter beyond ASCII, and the descriptors of a class and of an array. -/
theorem mangling_tells_apart_example :
    ∃ m m' : Method, ∃ s s' : Signature,
      Signature.parse m.signature = .ok s ∧ Signature.parse m'.signature = .ok s' ∧
        m.nativeName = "_000e9_1_1x__Ljava_lang_String_2_3I" ∧ m.signature ≠ m'.signature ∧
        m.name = m'.name ∧ s.args = s'.args ∧ unmangle (mangle "a/b_[;é") = "a/b_[;é" := by
  let m : Method := { name := "é__x", signature := "(Ljava/lang/String;[I)V" }
  let m' : Method := { name := "é__x", signature := "(Ljava/lang/String;[I)I" }
  have hs : Signature.parse m.signature = .ok ⟨["Ljava/lang/String;", "[I"], "V"⟩ :=
    by decide +kernel
  have hs' : Signature.parse m'.signature = .ok ⟨["Ljava/lang/String;", "[I"], "I"⟩ := by
    decide +kernel
  obtain ⟨hread, -, happart⟩ := mangling_tells_apart
  have hsame := happart m m' _ _ hs hs' (by decide +kernel) (by decide +kernel) (by decide +kernel)
  exact ⟨m, m', _, _, hs, hs', by decide +kernel, by decide, hsame.1, hsame.2,
    hread _ (by decide +kernel)⟩

end Mangling
end Interleave

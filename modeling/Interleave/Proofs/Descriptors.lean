import Interleave.Descriptor
import Mathlib.Tactic.Common

/-!
# What the readers of descriptors accept

The grammar is given beside the readers: an element is a letter of a primitive kind or a class name
between `L` and `;`, and a field descriptor is an element behind any number of opening brackets.
Where a descriptor ends can be told from its own characters, whatever comes after it. Hence a run of
descriptors can be cut in one way only, and a reader that takes one descriptor after another finds
the cuts. The parenthesis that ends the arguments needs more care, because a class name may hold
one: the arguments end at the first parenthesis of all, so no argument may hold any.

The main result says that a signature is read into parts exactly if it is these parts put together
and they are descriptors.
-/

namespace Interleave

namespace TypeCode

theorem ofLetter?_eq_some_iff {c : Char} {code : TypeCode} :
    ofLetter? c = some code ↔ c = code.letter := by
  constructor
  · intro h
    unfold ofLetter? at h
    split at h <;> simp at h <;> subst h <;> rfl
  · rintro rfl
    exact ofLetter?_letter code

theorem letter_inj {code code' : TypeCode} : code.letter = code'.letter ↔ code = code' := by
  rw [← ofLetter?_eq_some_iff, ofLetter?_letter, Option.some_inj]

end TypeCode

namespace Descriptor

/-- The letters of the primitive kinds of value. -/
def primitives : List Char := ['Z', 'C', 'F', 'D', 'B', 'S', 'I', 'J']

/-- The descriptor of a value that is not an array. -/
inductive IsElement : List Char → Prop where
  | primitive {c : Char} (known : c ∈ primitives) : IsElement [c]
  | reference {name : List Char} (named : name ≠ []) (unclosed : ';' ∉ name) :
      IsElement ('L' :: (name ++ [';']))

/-- The descriptor of a value. -/
inductive IsField : List Char → Prop where
  | element {cs : List Char} (element : IsElement cs) : IsField cs
  | array {cs : List Char} (dims : Nat) (element : IsElement cs) :
      IsField (List.replicate (dims + 1) '[' ++ cs)

/-- The descriptor of a value, or the letter of no value. -/
def IsResult (cs : List Char) : Prop := IsField cs ∨ cs = ['V']

/-! ### How descriptors begin -/

theorem exists_code_of_mem_primitives {c : Char} (hc : c ∈ primitives) :
    ∃ code : TypeCode, c = code.letter ∧ code ≠ .void ∧ code ≠ .array := by
  simp only [primitives, List.mem_cons, List.not_mem_nil, or_false] at hc
  rcases hc with rfl | rfl | rfl | rfl | rfl | rfl | rfl | rfl
  · exact ⟨.boolean, rfl, by decide, by decide⟩
  · exact ⟨.char, rfl, by decide, by decide⟩
  · exact ⟨.float, rfl, by decide, by decide⟩
  · exact ⟨.double, rfl, by decide, by decide⟩
  · exact ⟨.byte, rfl, by decide, by decide⟩
  · exact ⟨.short, rfl, by decide, by decide⟩
  · exact ⟨.int, rfl, by decide, by decide⟩
  · exact ⟨.long, rfl, by decide, by decide⟩

theorem IsElement.head? {cs : List Char} (h : IsElement cs) :
    ∃ code : TypeCode, cs.head? = some code.letter ∧ code ≠ .void ∧ code ≠ .array := by
  cases h with
  | primitive known =>
    obtain ⟨code, rfl, hvoid, harray⟩ := exists_code_of_mem_primitives known
    exact ⟨code, rfl, hvoid, harray⟩
  | reference named unclosed => exact ⟨.reference, rfl, by decide, by decide⟩

theorem IsElement.head?_ne {cs : List Char} (h : IsElement cs) : cs.head? ≠ some '[' := by
  obtain ⟨code, hhead, -, harray⟩ := h.head?
  intro h'
  rw [hhead] at h'
  exact harray (TypeCode.letter_inj.1 (Option.some.inj h' : code.letter = TypeCode.array.letter))

theorem IsField.head? {cs : List Char} (h : IsField cs) :
    ∃ code : TypeCode, cs.head? = some code.letter ∧ code ≠ .void := by
  cases h with
  | element h =>
    obtain ⟨code, hhead, hvoid, -⟩ := h.head?
    exact ⟨code, hhead, hvoid⟩
  | array dims h => exact ⟨.array, rfl, by decide⟩

theorem IsResult.head? {cs : List Char} (h : IsResult cs) :
    ∃ code : TypeCode, cs.head? = some code.letter := by
  rcases h with h | rfl
  · obtain ⟨code, hhead, -⟩ := h.head?
    exact ⟨code, hhead⟩
  · exact ⟨.void, rfl⟩

/-- Whether a descriptor stands for a value can be told from its first letter. -/
theorem IsResult.isField_iff {cs : List Char} {code : TypeCode} (h : IsResult cs)
    (hhead : cs.head? = some code.letter) : IsField cs ↔ code ≠ .void := by
  constructor
  · intro hfield
    obtain ⟨code', hhead', hvoid⟩ := hfield.head?
    rw [hhead', Option.some_inj, TypeCode.letter_inj] at hhead
    exact hhead ▸ hvoid
  · intro hvoid
    refine h.resolve_right fun hV => hvoid ?_
    subst hV
    exact (TypeCode.letter_inj.1 (Option.some.inj hhead : TypeCode.void.letter = code.letter)).symm

/-! ### Where descriptors end -/

/-- A text is cut at the first place where a character occurs. -/
theorem span_at {c : Char} {front : List Char} (back : List Char) (h : c ∉ front) :
    (front ++ c :: back).takeWhile (· != c) = front ∧
      (front ++ c :: back).dropWhile (· != c) = c :: back := by
  have hfront : ∀ d ∈ front, (d != c) = true := by
    intro d hd
    simpa using fun h' : d = c => h (h' ▸ hd)
  rw [List.takeWhile_append_of_pos hfront, List.dropWhile_append_of_pos hfront]
  simp

/-- If something is left of a text from where a character occurs first, it begins with it. -/
theorem cut_of_dropWhile {c d : Char} {cs back : List Char}
    (h : cs.dropWhile (· != c) = d :: back) :
    d = c ∧ cs = cs.takeWhile (· != c) ++ c :: back ∧ c ∉ cs.takeWhile (· != c) := by
  have hhead := List.head?_dropWhile_not (· != c) cs
  rw [h] at hhead
  obtain rfl : d = c := by simpa using hhead
  refine ⟨rfl, ?_, fun hmem => ?_⟩
  · rw [← h, List.takeWhile_append_dropWhile]
  · have := List.all_eq_true.1 (List.all_takeWhile (p := (· != d)) (l := cs)) _ hmem
    simp at this

theorem scanElement_reference {n : Nat} {name rest : List Char} (named : name ≠ [])
    (unclosed : ';' ∉ name) :
    scanElement n ('L' :: (name ++ ';' :: rest)) =
      .ok ⟨.reference, 'L' :: (name ++ [';']), rest⟩ := by
  obtain ⟨htake, hdrop⟩ := span_at rest unclosed
  simp only [scanElement]
  split
  · rename_i heq
    exact absurd (htake.symm.trans heq) named
  · rename_i hnil _
    exact absurd (hdrop.symm.trans hnil) (List.cons_ne_nil _ _)
  · rename_i hcons _
    obtain ⟨rfl, rfl⟩ := List.cons.inj (hdrop.symm.trans hcons)
    rw [htake, List.cons_append]

/-- What comes after an element makes no difference to how it is read. -/
theorem scanElement_append {n : Nat} {cs rest : List Char} {code : TypeCode}
    (h : IsElement cs) (hhead : cs.head? = some code.letter) :
    scanElement n (cs ++ rest) = .ok ⟨code, cs, rest⟩ := by
  cases h with
  | primitive known =>
    obtain rfl : _ = code.letter := Option.some.inj hhead
    cases code <;> first | rfl | exact absurd known (by decide)
  | reference named unclosed =>
    obtain rfl := TypeCode.letter_inj.1 (Option.some.inj hhead : TypeCode.reference.letter = _)
    rw [List.cons_append, List.append_assoc]
    exact scanElement_reference named unclosed

theorem isElement_of_scanElement {n : Nat} {cs : List Char} {t : Token}
    (hcs : cs.head? ≠ some '[') (h : scanElement n cs = .ok t) :
    (IsElement t.lexeme ∨ t.lexeme = ['V']) ∧ t.lexeme.head? = some t.code.letter := by
  unfold scanElement at h
  split at h
  · cases h
  · rename_i cs
    split at h
    · cases h
    · cases h
    · rename_i semi rest hdrop named
      cases h
      -- the name stops before a semicolon, which is the one that closes it
      obtain ⟨rfl, -, unclosed⟩ := cut_of_dropWhile hdrop
      exact ⟨.inl (.reference (fun h => named h) unclosed), rfl⟩
  · rename_i c cs hL
    split at h
    · cases h
    · rename_i code hcode
      cases h
      obtain rfl := TypeCode.ofLetter?_eq_some_iff.1 hcode
      refine ⟨?_, rfl⟩
      cases code
      case void => exact .inr rfl
      case array => exact absurd rfl hcs
      case reference => exact (hL rfl).elim
      all_goals exact .inl (.primitive (by decide))

/-- The brackets before an element are told from it. -/
theorem span_brackets {cs : List Char} (dims : Nat) (h : cs.head? ≠ some '[') :
    (List.replicate dims '[' ++ cs).takeWhile (· == '[') = List.replicate dims '[' ∧
      (List.replicate dims '[' ++ cs).dropWhile (· == '[') = cs := by
  have hdims : ∀ c ∈ List.replicate dims '[', (c == '[') = true := by
    intro c hc
    simpa using List.eq_of_mem_replicate hc
  rw [List.takeWhile_append_of_pos hdims, List.dropWhile_append_of_pos hdims]
  cases cs with
  | nil => simp
  | cons c cs =>
    have hc : (c == '[') = false := by simpa using h
    simp [hc]

/-- Cutting a text behind its first brackets. -/
theorem exists_brackets (cs : List Char) :
    ∃ dims, cs.takeWhile (· == '[') = List.replicate dims '[' ∧
      (cs.dropWhile (· == '[')).head? ≠ some '[' := by
  refine ⟨_, List.eq_replicate_iff.2 ⟨rfl, fun c hc => ?_⟩, fun hhead => ?_⟩
  · simpa using List.all_eq_true.1 (List.all_takeWhile (p := (· == '[')) (l := cs)) c hc
  · have := List.head?_dropWhile_not (· == '[') cs
    rw [hhead] at this
    simp at this

/-- What comes after a descriptor makes no difference to how it is read. -/
theorem scan_append {n : Nat} {cs rest : List Char} {code : TypeCode} (h : IsResult cs)
    (hhead : cs.head? = some code.letter) : scan n (cs ++ rest) = .ok ⟨code, cs, rest⟩ := by
  rcases h with (helement | ⟨dims, helement⟩) | rfl
  · have hne : (cs ++ rest).head? ≠ some '[' := by
      rw [List.head?_append, hhead, Option.some_or, ← hhead]
      exact helement.head?_ne
    obtain ⟨htake, -⟩ := span_brackets 0 hne
    simp only [List.replicate_zero, List.nil_append] at htake
    rw [scan, htake]
    exact scanElement_append helement hhead
  · rename_i cs
    obtain rfl := TypeCode.letter_inj.1 (Option.some.inj hhead : TypeCode.array.letter = _)
    obtain ⟨code, hcode, hvoid, -⟩ := helement.head?
    have hne : (cs ++ rest).head? ≠ some '[' := by
      rw [List.head?_append, hcode, Option.some_or, ← hcode]
      exact helement.head?_ne
    obtain ⟨htake, hdrop⟩ := span_brackets (dims + 1) hne
    rw [List.append_assoc, scan, htake, hdrop]
    simp only [List.replicate_succ, scanElement_append helement hcode, hvoid, if_false]
  · obtain rfl := TypeCode.letter_inj.1 (Option.some.inj hhead : TypeCode.void.letter = _)
    rfl

theorem isResult_of_scan {n : Nat} {cs : List Char} {t : Token} (h : scan n cs = .ok t) :
    IsResult t.lexeme ∧ t.lexeme.head? = some t.code.letter := by
  obtain ⟨dims, htake, hne⟩ := exists_brackets cs
  cases dims with
  | zero =>
    have hcs := List.takeWhile_append_dropWhile (p := (· == '[')) (l := cs)
    rw [htake, List.replicate_zero, List.nil_append] at hcs
    rw [hcs] at hne
    rw [scan, htake] at h
    obtain ⟨helement | hV, hhead⟩ := isElement_of_scanElement hne h
    · exact ⟨.inl (.element helement), hhead⟩
    · exact ⟨.inr hV, hhead⟩
  | succ dims =>
    rw [scan, htake] at h
    simp only [List.replicate_succ] at h
    split at h
    · cases h
    · rename_i u hu
      split at h
      · cases h
      · rename_i hvoid
        cases h
        -- `V` is no element of an array
        obtain ⟨helement | hV, hhead⟩ := isElement_of_scanElement hne hu
        · exact ⟨.inl (.array dims helement), rfl⟩
        · rw [hV] at hhead
          exact absurd (TypeCode.letter_inj.1
            (Option.some.inj hhead : TypeCode.void.letter = u.code.letter)).symm hvoid

/-- A descriptor is read at the beginning of a text exactly if the text begins with it. -/
theorem scan_eq_ok_iff {n : Nat} {cs : List Char} {t : Token} :
    scan n cs = .ok t ↔
      cs = t.lexeme ++ t.rest ∧ IsResult t.lexeme ∧ t.lexeme.head? = some t.code.letter := by
  constructor
  · intro h
    exact ⟨(lexeme_append_rest_of_scan h).1.symm, isResult_of_scan h⟩
  · rintro ⟨rfl, hresult, hhead⟩
    exact scan_append hresult hhead

theorem check_eq_ok_iff {text : String} {code : TypeCode} :
    check text = .ok code ↔ IsField text.toList ∧ text.toList.head? = some code.letter := by
  constructor
  · intro h
    unfold check at h
    split at h
    · cases h
    · rename_i t ht
      obtain ⟨hcs, hresult, hhead⟩ := scan_eq_ok_iff.1 ht
      split at h
      · cases h
      · rename_i hrest
        split at h
        · cases h
        · rename_i hvoid
          cases h
          rw [Decidable.not_not.1 hrest, List.append_nil] at hcs
          rw [hcs]
          exact ⟨(hresult.isField_iff hhead).2 hvoid, hhead⟩
  · rintro ⟨hfield, hhead⟩
    have hscan : scan 0 text.toList = .ok ⟨code, text.toList, []⟩ :=
      scan_eq_ok_iff.2 ⟨(List.append_nil _).symm, .inl hfield, hhead⟩
    have hvoid := (IsResult.isField_iff (.inl hfield) hhead).1 hfield
    simp [check, hscan, hvoid]

end Descriptor

namespace Signature

open Descriptor

/-! ### The arguments and the result -/

/-- The descriptor of an argument holds no closing parenthesis. -/
def IsArg (cs : List Char) : Prop := IsField cs ∧ ')' ∉ cs

/-- Of two beginnings of a text, the one that takes fewer bytes is a beginning of the other one. -/
theorem exists_of_byteLength_le {as bs cs ds : List Char} (h : as ++ bs = cs ++ ds)
    (hle : byteLength as ≤ byteLength cs) : ∃ es, cs = as ++ es ∧ bs = es ++ ds := by
  rcases List.append_eq_append_iff.1 h with ⟨es, hcs, hbs⟩ | ⟨es, has, hds⟩
  · exact ⟨es, hcs, hbs⟩
  · have hnil : es = [] := by
      rw [has, byteLength_append] at hle
      exact byteLength_eq_zero.1 (by omega)
    subst hnil
    exact ⟨[], by simpa using has.symm, by simpa using hds.symm⟩

/-- Descriptors are found in front of where they end, whatever comes after them. -/
theorem scanArgs_append {text : String} {n : Nat} {args : List (List Char)} {rest : List Char}
    (h : ∀ a ∈ args, IsField a) :
    scanArgs text (n + byteLength args.flatten) n (args.flatten ++ rest) = .ok args := by
  induction args generalizing n with
  | nil =>
    rw [scanArgs, if_neg (by simp)]
  | cons a args ih =>
    have hfield := h a (List.mem_cons_self ..)
    obtain ⟨code, hhead, hvoid⟩ := hfield.head?
    have hrest := ih (n := n + byteLength a) fun b hb => h b (List.mem_cons_of_mem _ hb)
    have hscan : scan n (a ++ (args.flatten ++ rest)) = .ok ⟨code, a, args.flatten ++ rest⟩ :=
      scan_append (.inl hfield) hhead
    have hpos : byteLength a ≠ 0 := by
      rw [ne_eq, byteLength_eq_zero]
      rintro rfl
      cases hhead
    rw [List.flatten_cons, List.append_assoc, byteLength_append, ← Nat.add_assoc, scanArgs,
      if_pos (by omega)]
    split
    · rename_i heq
      simp [hscan] at heq
    · rename_i t heq
      rw [hscan] at heq
      cases heq
      have hstop : ¬n + byteLength a + byteLength args.flatten < n + byteLength a := by omega
      simp only [hvoid, hstop, if_false, hrest]

/-- What is read in front of an end are descriptors that make up all of the text in front of it. -/
theorem isField_of_scanArgs {text : String} {close n : Nat} {cs front back : List Char}
    {args : List (List Char)} (h : scanArgs text close n cs = .ok args) (hcs : cs = front ++ back)
    (hclose : close = n + byteLength front) : front = args.flatten ∧ ∀ a ∈ args, IsField a := by
  fun_induction scanArgs text close n cs generalizing args front with
  | case1 | case2 | case3 | case4 => cases h
  | case5 n cs hn t ht hvoid hstop args' hrest ih =>
    cases h
    obtain ⟨htoken, hresult, hhead⟩ := scan_eq_ok_iff.1 ht
    obtain ⟨front, rfl, hback⟩ := exists_of_byteLength_le (htoken.symm.trans hcs) (by omega)
    rw [byteLength_append] at hclose
    obtain ⟨hfront, hargs⟩ := ih hrest hback (by omega)
    refine ⟨by rw [List.flatten_cons, hfront], fun a ha => ?_⟩
    rcases List.mem_cons.1 ha with rfl | ha
    · exact (hresult.isField_iff hhead).2 hvoid
    · exact hargs a ha
  | case6 n cs hn =>
    cases h
    exact ⟨byteLength_eq_zero.1 (by omega), by simp⟩

theorem parse_eq_ok_iff {text : String} {args : List String} {result : String} :
    parse text = .ok ⟨args, result⟩ ↔
      text.toList = '(' :: (args.flatMap String.toList ++ ')' :: result.toList) ∧
        (∀ a ∈ args, IsArg a.toList) ∧ IsResult result.toList := by
  constructor
  · intro h
    unfold parse at h
    split at h
    case h_2 => cases h
    rename_i cs htext
    split at h
    · cases h
    · rename_i c rest hdrop
      obtain ⟨-, hcs, hparen⟩ := cut_of_dropWhile hdrop
      dsimp only at h
      split at h
      · cases h
      · rename_i lexemes hscan
        obtain ⟨hfront, hfields⟩ := isField_of_scanArgs hscan hcs rfl
        rw [hfront] at hcs hparen
        split at h
        · cases h
        · rename_i t ht
          split at h
          · cases h
          · rename_i htrailing
            cases h
            obtain ⟨hrest, hresult, -⟩ := scan_eq_ok_iff.1 ht
            rw [Decidable.not_not.1 htrailing, List.append_nil] at hrest
            refine ⟨?_, ?_, ?_⟩
            · rw [htext, hcs, List.flatMap_map]
              simp [String.toList_ofList, List.flatMap_id']
            · -- no argument holds what does not occur in front of the parenthesis
              have hargs : ∀ l ∈ lexemes, IsArg l := fun l hl =>
                ⟨hfields l hl, fun hmem => hparen (List.mem_flatten.2 ⟨l, hl, hmem⟩)⟩
              simpa [String.toList_ofList] using hargs
            · rw [String.toList_ofList, hrest]
              exact hresult
  · rintro ⟨htext, hargs, hresult⟩
    obtain ⟨code, hhead⟩ := hresult.head?
    have hparen : ')' ∉ args.flatMap String.toList := fun hmem => by
      obtain ⟨a, ha, hmem⟩ := List.mem_flatMap.1 hmem
      exact (hargs a ha).2 hmem
    obtain ⟨htake, hdrop⟩ := span_at result.toList hparen
    have hread : scanArgs text (1 + byteLength (args.flatMap String.toList)) 1
        (args.flatMap String.toList ++ ')' :: result.toList) = .ok (args.map String.toList) := by
      rw [List.flatMap_def]
      exact scanArgs_append (by simpa using fun a ha => (hargs a ha).1)
    have hscan (n : Nat) : Descriptor.scan n result.toList = .ok ⟨code, result.toList, []⟩ :=
      scan_eq_ok_iff.2 ⟨(List.append_nil _).symm, hresult, hhead⟩
    simp [parse, htext, htake, hdrop, hread, hscan, Function.comp_def]

/-- No argument of a signature that was read is of the kind of no value. -/
theorem void_notMem_argCodes {text : String} {s : Signature} (h : parse text = .ok s) :
    TypeCode.void ∉ s.argCodes := by
  obtain ⟨args, result⟩ := s
  obtain ⟨-, hargs, -⟩ := parse_eq_ok_iff.1 h
  intro hmem
  obtain ⟨a, ha, hcode⟩ := List.mem_map.1 hmem
  obtain ⟨code, hhead, hvoid⟩ := (hargs a ha).1.head?
  unfold codeOf at hcode
  rw [hhead, Option.bind_some, TypeCode.ofLetter?_letter, Option.getD_some] at hcode
  exact hvoid hcode

/-- **Signatures and descriptors are read exactly if they follow the grammar.** A signature splits
into parts if and only if it is their descriptors put together, with parentheses around those of the
arguments, none of which holds a closing one; so it splits in one way at most. A field descriptor is
accepted alone if and only if it is one, and its kind is that of its first letter. -/
theorem read_iff_grammar :
    (∀ (text : String) (args : List String) (result : String),
      parse text = .ok ⟨args, result⟩ ↔
        text = "(" ++ String.join args ++ ")" ++ result ∧
          (∀ a ∈ args, IsField a.toList ∧ ')' ∉ a.toList) ∧
          (IsField result.toList ∨ result = "V")) ∧
    (∀ text : String, (∃ code, check text = .ok code) ↔ IsField text.toList) ∧
    (∀ (text : String) (code : TypeCode), check text = .ok code ↔
      IsField text.toList ∧ text.toList.head? = some code.letter) := by
  refine ⟨fun text args result => ?_, fun text => ?_, fun text code => check_eq_ok_iff⟩
  · have htext : text = "(" ++ String.join args ++ ")" ++ result ↔
        text.toList = '(' :: (args.flatMap String.toList ++ ')' :: result.toList) := by
      rw [← String.toList_inj]
      simp [String.toList_append, String.toList_join]
    have hresult : result = "V" ↔ result.toList = ['V'] := by
      rw [← String.toList_inj]
      rfl
    rw [parse_eq_ok_iff, htext, hresult]
    rfl
  · constructor
    · rintro ⟨code, hcode⟩
      exact (check_eq_ok_iff.1 hcode).1
    · intro hfield
      obtain ⟨code, hhead, -⟩ := hfield.head?
      exact ⟨code, check_eq_ok_iff.2 ⟨hfield, hhead⟩⟩

/-- Class names may hold brackets and letters of other kinds, and the result's a parenthesis. -/
example : parse "([[La[b;JI)Lπ);" = .ok ⟨["[[La[b;", "J", "I"], "Lπ);"⟩ := by cbv

end Signature

end Interleave

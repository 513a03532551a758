import Interleave.Sum
import Interleave.TypeCode

/-!
# Descriptors and method signatures

A field descriptor is one letter for a primitive kind, `L` *name* `;` for a class, or one or more
`[` before the descriptor of the elements. A method signature is a parenthesised run of field
descriptors followed by the descriptor of the result, where `V` stands for no result.

Reading goes from left to right over the characters. Faults name the byte at which the descriptor
that could not be read begins, so the readers carry the offset of the text they look at.
-/

namespace Interleave

/-- Why a text is not a signature or a field descriptor. -/
inductive SignatureFault where
  /-- A signature does not begin with an opening parenthesis. -/
  | missingOpenParen (text : String)
  /-- No closing parenthesis ends the arguments. -/
  | unterminatedArgs (text : String)
  /-- There is no descriptor at this byte. -/
  | invalidDescriptor (text : String) (offset : Nat)
  /-- Characters follow the last descriptor. -/
  | trailingInput (text : String)
  /-- `V` stands where a value is needed. -/
  | voidArgument (text : String)
deriving DecidableEq, Repr, Inhabited

/-- The wording of a fault. -/
def SignatureFault.message : SignatureFault → String
  | missingOpenParen s => "method signature must start with '(': " ++ s
  | unterminatedArgs s => "unterminated argument list in signature: " ++ s
  | invalidDescriptor s n =>
    "invalid type descriptor in '" ++ s ++ "' at offset " ++ toString n
  | trailingInput s => "trailing characters after return type in signature: " ++ s
  | voidArgument s => "void is only valid as a return type: " ++ s

/-- The bytes that a run of characters takes. -/
def byteLength (cs : List Char) : Nat := sumOf (cs.map Char.utf8Size)

@[simp] theorem byteLength_nil : byteLength [] = 0 := rfl

@[simp] theorem byteLength_append (cs ds : List Char) :
    byteLength (cs ++ ds) = byteLength cs + byteLength ds := by
  simp [byteLength]

@[simp] theorem byteLength_eq_zero {cs : List Char} : byteLength cs = 0 ↔ cs = [] := by
  cases cs with
  | nil => simp
  | cons c cs => simp [byteLength, Nat.ne_of_gt c.utf8Size_pos]

namespace Descriptor

/-- A descriptor that was read, and what follows it. -/
structure Token where
  /-- The kind of the descriptor. -/
  code : TypeCode
  /-- The characters of the descriptor. -/
  lexeme : List Char
  /-- The characters after it. -/
  rest : List Char
deriving DecidableEq, Repr

/-- Reads a descriptor that is not an array's. A class name must be closed and non-empty. The
offset is the one of the first character, and is the error. -/
def scanElement (offset : Nat) : List Char → Except Nat Token
  | [] => .error offset
  | 'L' :: cs =>
    match cs.takeWhile (· != ';'), cs.dropWhile (· != ';') with
    | [], _ => .error offset
    | _, [] => .error offset
    | name, semi :: rest => .ok ⟨.reference, 'L' :: name ++ [semi], rest⟩
  | c :: cs =>
    match TypeCode.ofLetter? c with
    | none => .error offset
    | some code => .ok ⟨code, [c], cs⟩

/-- Reads one descriptor, which may be `V` alone. A fault in the element of an array is at the
element, except that an array of `V` is faulty as a whole. -/
def scan (offset : Nat) (cs : List Char) : Except Nat Token :=
  match cs.takeWhile (· == '[') with
  | [] => scanElement offset cs
  | dims =>
    match scanElement (offset + dims.length) (cs.dropWhile (· == '[')) with
    | .error e => .error e
    | .ok t => if t.code = .void then .error offset else .ok ⟨.array, dims ++ t.lexeme, t.rest⟩

theorem lexeme_append_rest_of_scanElement {n : Nat} {cs : List Char} {t : Token}
    (h : scanElement n cs = .ok t) : t.lexeme ++ t.rest = cs ∧ t.lexeme ≠ [] := by
  unfold scanElement at h
  split at h
  · cases h
  · rename_i cs'
    split at h
    · cases h
    · cases h
    · rename_i semi rest hdrop hne
      cases h
      refine ⟨?_, by simp⟩
      have := List.takeWhile_append_dropWhile (p := (· != ';')) (l := cs')
      rw [hdrop] at this
      simpa using this
  · split at h
    · cases h
    · cases h
      exact ⟨rfl, by simp⟩

theorem lexeme_append_rest_of_scan {n : Nat} {cs : List Char} {t : Token}
    (h : scan n cs = .ok t) : t.lexeme ++ t.rest = cs ∧ t.lexeme ≠ [] := by
  unfold scan at h
  split at h
  · exact lexeme_append_rest_of_scanElement h
  · split at h
    · cases h
    · rename_i u hu
      obtain ⟨happ, hne⟩ := lexeme_append_rest_of_scanElement hu
      split at h
      · cases h
      · cases h
        refine ⟨?_, by simp [hne]⟩
        have := List.takeWhile_append_dropWhile (p := (· == '[')) (l := cs)
        rw [List.append_assoc, happ, this]

theorem length_rest_lt_of_scan {n : Nat} {cs : List Char} {t : Token}
    (h : scan n cs = .ok t) : t.rest.length < cs.length := by
  obtain ⟨happ, hne⟩ := lexeme_append_rest_of_scan h
  have := congrArg List.length happ
  have := List.length_pos_iff.mpr hne
  simp at *
  omega

/-- The kind of a well-formed field descriptor. -/
def check (text : String) : Except SignatureFault TypeCode :=
  match scan 0 text.toList with
  | .error n => .error (.invalidDescriptor text n)
  | .ok t =>
    if t.rest ≠ [] then .error (.trailingInput text)
    else if t.code = .void then .error (.voidArgument text)
    else .ok t.code

/-- The kind of a descriptor that is known to be well formed; anything else counts as a class. -/
def codeOf (text : String) : TypeCode :=
  (text.toList.head?.bind TypeCode.ofLetter?).getD .reference

/-- A run of characters with every slash made a dot. -/
def dots (cs : List Char) : String := String.ofList (cs.map fun c => if c = '/' then '.' else c)

/-- A class name with dots, from a class descriptor or a name with slashes. -/
def dottedName (text : String) : String :=
  let cs := text.toList
  dots (if cs.head? = some 'L' ∧ cs.getLast? = some ';' then (cs.drop 1).dropLast else cs)

/-- The name of a type in source text: `[Ljava/lang/String;` is `java.lang.String[]`. -/
def sourceName (text : String) : String :=
  let cs := text.toList
  let dims := cs.takeWhile (· == '[')
  let element := String.ofList (cs.dropWhile (· == '['))
  let name :=
    match element.toList.head?.bind TypeCode.ofLetter? with
    | some .reference => dottedName element
    | some code => code.keyword?.getD element
    | none => element
  name ++ String.join (dims.map fun _ => "[]")

end Descriptor

/-- The parts of a method signature. -/
structure Signature where
  /-- The descriptors of the arguments, in order. -/
  args : List String
  result : String
deriving DecidableEq, Repr

namespace Signature

/-- Reads argument descriptors as long as the offset is in front of `close`, where the arguments
end. A descriptor that runs past that is faulty at its own start. -/
def scanArgs (text : String) (close offset : Nat) (cs : List Char) :
    Except SignatureFault (List (List Char)) :=
  if offset < close then
    match _h : Descriptor.scan offset cs with
    | .error n => .error (.invalidDescriptor text n)
    | .ok t =>
      if t.code = .void then .error (.voidArgument text)
      else if close < offset + byteLength t.lexeme then .error (.invalidDescriptor text offset)
      else
        match scanArgs text close (offset + byteLength t.lexeme) t.rest with
        | .error e => .error e
        | .ok args => .ok (t.lexeme :: args)
  else .ok []
termination_by cs.length
decreasing_by exact Descriptor.length_rest_lt_of_scan _h

/-- Splits a signature into its parts. The arguments end at the first closing parenthesis. -/
def parse (text : String) : Except SignatureFault Signature :=
  match text.toList with
  | '(' :: cs =>
    match cs.dropWhile (· != ')') with
    | [] => .error (.unterminatedArgs text)
    | _ :: result =>
      let close := 1 + byteLength (cs.takeWhile (· != ')'))
      match scanArgs text close 1 cs with
      | .error e => .error e
      | .ok args =>
        match Descriptor.scan (close + 1) result with
        | .error n => .error (.invalidDescriptor text n)
        | .ok t =>
          if t.rest ≠ [] then .error (.trailingInput text)
          else .ok ⟨args.map String.ofList, String.ofList result⟩
  | _ => .error (.missingOpenParen text)

/-- The kinds of the arguments. -/
def argCodes (s : Signature) : List TypeCode := s.args.map Descriptor.codeOf

/-- The slots that the declared arguments take, without a receiver. -/
def argSlots (s : Signature) : Nat := sumOf (s.argCodes.map TypeCode.slotSize)

/-- The names of the argument types in source text. -/
def argNames (s : Signature) : List String := s.args.map Descriptor.sourceName

/-- The kind of the result. -/
def resultCode (s : Signature) : TypeCode := Descriptor.codeOf s.result

/-- The name of the result type in source text. -/
def resultName (s : Signature) : String := Descriptor.sourceName s.result

/-- The slots a caller needs to set up a call and to receive its result: the larger of the two. -/
def callerSlots (s : Signature) (isStatic : Bool) : Nat :=
  max (s.argSlots + if isStatic then 0 else 1) s.resultCode.slotSize

end Signature

end Interleave

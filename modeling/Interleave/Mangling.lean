import Interleave.Hex

/-!
# Native names

The name under which a native method is looked up is the mangled form of its own name. Letters and
digits stand for themselves, the two separators become an underscore, and every other character
becomes an escape that begins with an underscore and a digit.
-/

namespace Interleave.Mangling

/-- The mangled form of one character. -/
def mangleChar (c : Char) : List Char :=
  if c.isAlphanum then [c]
  else if c = '/' ∨ c = '.' then ['_']
  else if c = '_' then ['_', '1']
  else if c = ';' then ['_', '2']
  else if c = '[' then ['_', '3']
  else '_' :: '0' :: hexDigits 4 c.toNat

/-- The mangled form of a run of characters. -/
def mangleChars (cs : List Char) : List Char := cs.flatMap mangleChar

/-- The mangled form of a name. -/
def mangle (name : String) : String := String.ofList (mangleChars name.toList)

/-- The characters between the parentheses of a signature; none if there is no such part. -/
def argumentPart : List Char → List Char
  | '(' :: cs => if ')' ∈ cs then cs.takeWhile (· != ')') else []
  | _ => []

/-- The mangled name of a method, with its class before and its arguments behind, if given. -/
def methodName (className : Option String) (name : String) (signature : Option String) : String :=
  let owner := match className with
    | some c => "Java_" ++ mangle c ++ "_"
    | none => ""
  let args := match signature with
    | some s => "__" ++ String.ofList (mangleChars (argumentPart s.toList))
    | none => ""
  owner ++ mangle name ++ args

end Interleave.Mangling

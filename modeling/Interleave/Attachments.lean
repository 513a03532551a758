import Interleave.Choice

/-!
# Attachments

Extra data on instructions and methods. There is a fixed set of kinds of data, and an instruction
or a method carries at most one value of each kind, so a value is found by its kind alone.
-/

namespace Interleave

/-- The kinds of data that can be attached. -/
inductive AttachmentKind where
  | serial
  | quantity
  | note
  /-- The possible results of a native method. -/
  | source
deriving DecidableEq, Repr

/-- The values of a kind of attachment. -/
def AttachmentKind.Value : AttachmentKind → Type
  | serial => UInt32
  | quantity => Int64
  | note => String
  | source => ValueSource

/-- At most one value of each kind. -/
structure Attachments where
  serial : Option UInt32 := none
  quantity : Option Int64 := none
  note : Option String := none
  /-- The possible results. -/
  source : Option ValueSource := none
deriving DecidableEq, Repr, Inhabited

namespace Attachments

/-- The value of a kind, if there is one. -/
def get? (a : Attachments) : (k : AttachmentKind) → Option k.Value
  | .serial => a.serial
  | .quantity => a.quantity
  | .note => a.note
  | .source => a.source

/-- The attachments with the value of one kind set or cleared. -/
def set (a : Attachments) : (k : AttachmentKind) → Option k.Value → Attachments
  | .serial, v => { a with serial := v }
  | .quantity, v => { a with quantity := v }
  | .note, v => { a with note := v }
  | .source, v => { a with source := v }

/-- Is there a value of this kind? -/
def contains (a : Attachments) (k : AttachmentKind) : Bool := (a.get? k).isSome

/-- Attaches a value, in place of one of its kind. -/
def insert (a : Attachments) (k : AttachmentKind) (v : k.Value) : Attachments := a.set k (some v)

/-- Takes the value of a kind away. -/
def remove (a : Attachments) (k : AttachmentKind) : Attachments := a.set k none

/-- The number of values. -/
def size (a : Attachments) : Nat :=
  a.serial.isSome.toNat + a.quantity.isSome.toNat + a.note.isSome.toNat + a.source.isSome.toNat

/-- A short description. -/
def text (a : Attachments) : String := "Extensions(" ++ toString a.size ++ ")"

@[simp] theorem get?_set_self (a : Attachments) (k : AttachmentKind) (v : Option k.Value) :
    (a.set k v).get? k = v := by
  cases k <;> rfl

theorem get?_set_of_ne (a : Attachments) {j k : AttachmentKind} (v : Option k.Value) (h : j ≠ k) :
    (a.set k v).get? j = a.get? j := by
  cases j <;> cases k <;> first | rfl | exact absurd rfl h

end Attachments

end Interleave

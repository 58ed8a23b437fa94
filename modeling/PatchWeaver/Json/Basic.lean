/-
  PatchWeaver.Json.Basic
  ──────────────────────
  **JSON VALUES.**

  An object keeps its members in the order written, repeated keys included,
  because whether a repetition is an error is for the reader of a record to
  say.  A number keeps the form in which it was written, because whether it
  fits is for the reader of a field to say.

  A text may hold what no value can.  Such a part of it is unreadable:
  nothing is decoded from it, but where a decoder does not look at a value,
  it may stand as well as any other.
-/
import PatchWeaver.Numeral.Scaled

namespace PatchWeaver

/-- A JSON value. -/
inductive Json where
  | null
  | bool (value : Bool)
  | number (literal : NumberLiteral)
  | string (value : String)
  | array (items : List Json)
  | object (members : List (String × Json))
  /-- What stands in a text for a value, but is none. -/
  | unreadable
  deriving Repr, Inhabited

namespace Json

/-- An integer. -/
def int (i : Int) : Json := .number (.integer i)

/-- A natural number. -/
def nat (n : Nat) : Json := .int n

/-- `null` for `none`. -/
def ofOption {α : Type} (f : α → Json) : Option α → Json
  | none => .null
  | some a => f a

/-- An array of encoded items. -/
def ofList {α : Type} (f : α → Json) (items : List α) : Json := .array (items.map f)

/-- The value of the last member with a key. -/
def get? (key : String) : Json → Option Json
  | .object members => (members.reverse.find? (·.1 == key)).map (·.2)
  | _ => none

mutual

/-- Whether no part of a value is unreadable. -/
def isReadable : Json → Bool
  | .unreadable => false
  | .array items => areReadable items
  | .object members => areMembersReadable members
  | _ => true

/-- Whether no part of some items is unreadable. -/
def areReadable : List Json → Bool
  | [] => true
  | item :: rest => isReadable item && areReadable rest

/-- Whether no part of some members is unreadable. -/
def areMembersReadable : List (String × Json) → Bool
  | [] => true
  | (_, value) :: rest => isReadable value && areMembersReadable rest

end

end Json

end PatchWeaver

/-
  PatchWeaver.Json.Record
  ───────────────────────
  **READING RECORDS AND ALTERNATIVES.**

  A decoder takes a value to what it stands for, or to nothing.

  A record is an object, whose members of other names are passed over, or
  an array of its fields in order, which may stop early.  An alternative is

      a choice     a string, or an object with one member: the name and the payload
      a tagged     record with one more field, `type`, which names the alternative

  A field that is left out stands for its default, if it has one.

  Nothing is read from what is unreadable, and a tagged record has to be
  readable in all its parts, also in those that are passed over, because its
  parts are collected before the alternative is known.
-/
import PatchWeaver.Json.Basic

namespace PatchWeaver

namespace Json

/-! ## §1. Plain values. -/

/-- A truth value. -/
def bool? : Json → Option Bool
  | .bool value => some value
  | _ => none

/-- A string. -/
def string? : Json → Option String
  | .string value => some value
  | _ => none

/-- An integer of the given bounds, both included. -/
def intWithin? (least most : Int) : Json → Option Int
  | .number literal => literal.toInt?.filter fun i => least ≤ i ∧ i ≤ most
  | _ => none

/-- A natural number of at most so many bits. -/
def natOfBits? (bits : Nat) (j : Json) : Option Nat :=
  (j.intWithin? 0 (Nat.pow 2 bits - 1)).map Int.toNat

/-- An integer of 32 bits, with sign. -/
def int32? (j : Json) : Option Int32 :=
  (j.intWithin? (-0x80000000) 0x7fffffff).map Int32.ofInt

/-- An integer of 64 bits, with sign. -/
def int64? (j : Json) : Option Int64 :=
  (j.intWithin? (-0x8000000000000000) 0x7fffffffffffffff).map Int64.ofInt

/-- A natural number of 64 bits. -/
def word? (j : Json) : Option Nat := j.natOfBits? 64

/-- An array, all of whose items stand for something. -/
def list? {α : Type} (decode : Json → Option α) : Json → Option (List α)
  | .array items => items.mapM decode
  | _ => none

/-- `null` for `none`. -/
def nullable? {α : Type} (decode : Json → Option α) : Json → Option (Option α)
  | .null => some none
  | j => (decode j).map some

/-! ## §2. Records. -/

/-- The fields of a record that are given. -/
abbrev Record := List (String × Json)

/-- The members of an object that are fields of the given names; none may be repeated. -/
def Record.ofMembers? (names : List String) (members : List (String × Json)) : Option Record :=
  let known := members.filter (·.1 ∈ names)
  if (known.map (·.1)).Nodup then some known else none

/-- Fields given in order. -/
def Record.ofItems? (names : List String) (items : List Json) : Option Record :=
  if items.length ≤ names.length then some (names.zip items) else none

/-- The fields of a record with fields of the given names. -/
def record? (names : List String) : Json → Option Record
  | .object members => Record.ofMembers? names members
  | .array items => Record.ofItems? names items
  | _ => none

namespace Record

/-- What is given for a field. -/
def get? (r : Record) (name : String) : Option Json := (r.find? (·.1 = name)).map (·.2)

/-- A field that has to be given. -/
def field? {α : Type} (r : Record) (name : String) (decode : Json → Option α) : Option α :=
  (r.get? name).bind decode

/-- A field with a default. -/
def fieldD? {α : Type} (r : Record) (name : String) (decode : Json → Option α) (standard : α) :
    Option α :=
  match r.get? name with
  | none => some standard
  | some j => decode j

/-- A field that may be left out or `null`. -/
def optional? {α : Type} (r : Record) (name : String) (decode : Json → Option α) :
    Option (Option α) :=
  r.fieldD? name (nullable? decode) none

/-- A list that may be left out. -/
def listD? {α : Type} (r : Record) (name : String) (decode : Json → Option α) :
    Option (List α) :=
  r.fieldD? name (list? decode) []

end Record

/-! ## §3. Alternatives. -/

/-- Name and payload of a choice; a string has no payload. -/
def choice? : Json → Option (String × Option Json)
  | .string name => some (name, none)
  | .object [(name, payload)] => some (name, some payload)
  | _ => none

/-- Whether a value is `null`. -/
def isNull : Json → Bool
  | .null => true
  | _ => false

/-- `null` or an object without members. -/
def isVoid : Json → Bool
  | .null | .object [] => true
  | _ => false

/-- A choice among named items; some payloads count as none. -/
def namedIf? {α : Type} (isNone : Json → Bool) (items : List α) (name : α → String) (j : Json) :
    Option α := do
  let (chosen, payload) ← j.choice?
  if payload.all isNone then items.find? (name · = chosen) else none

/-- A choice without payload, among named items; `null` counts as no payload. -/
def named? {α : Type} (items : List α) (name : α → String) (j : Json) : Option α :=
  j.namedIf? isNull items name

/-- A choice without payload inside a tagged record, where an object without members counts as
no payload too. -/
def taggedNamed? {α : Type} (items : List α) (name : α → String) (j : Json) : Option α :=
  j.namedIf? isVoid items name

/-- Two items in an array. -/
def pair? : Json → Option (Json × Json)
  | .array [a, b] => some (a, b)
  | _ => none

/-- The name of the alternative and the rest of a tagged record. -/
def tagged? : Json → Option (String × Json)
  | .object members =>
    match members.filter (·.1 = "type"), areMembersReadable members with
    | [(_, .string tag)], true => some (tag, .object (members.filter (·.1 ≠ "type")))
    | _, _ => none
  | .array (.string tag :: items) => if areReadable items then some (tag, .array items) else none
  | _ => none

/-- The rest of a tagged record without fields of its own. -/
def noFields? (rest : Json) : Option Unit :=
  match rest with
  | .object _ | .array [] => some ()
  | _ => none

/-- A tagged record. -/
def tagged (tag : String) (fields : List (String × Json)) : Json :=
  .object (("type", .string tag) :: fields)

/-- A choice with a payload. -/
def chosen (name : String) (payload : Json) : Json := .object [(name, payload)]

end Json

end PatchWeaver

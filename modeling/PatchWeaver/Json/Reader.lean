/-
  PatchWeaver.Json.Reader
  ───────────────────────
  **READING JSON TEXT.**

  The grammar is the strict one: blanks are space, tab, line feed and
  carriage return; numbers have no leading zeros or signs of plus; strings
  hold no raw control characters; nothing but blanks may follow the value.

  What obeys the grammar is read, but not all of it stands for a value.
  Unreadable are

      a string     with an escaped surrogate that is not half of a pair
      an object    with such a key
      a number     beyond the numbers of 64 bits
      a container  with 127 others around it

  Values nest, so the readers are given as many steps as the text has
  characters; every step takes at least one.
-/
import PatchWeaver.Json.Basic

namespace PatchWeaver

namespace Json

/-! ## §1. Blanks, digits and numbers. -/

/-- Whether a character separates tokens. -/
def isBlank (c : Char) : Bool := c = ' ' || c = '\n' || c = '\t' || c = '\r'

/-- Drop the blanks in front. -/
def skipBlanks (cs : List Char) : List Char := cs.dropWhile isBlank

/-- The digit that a character stands for. -/
def digit? (c : Char) : Option Digit :=
  if h : '0'.toNat ≤ c.toNat ∧ c.toNat < '0'.toNat + 10 then
    some ⟨c.toNat - '0'.toNat, by omega⟩
  else none

/-- The run of digits in front, and what follows it. -/
def readDigits : List Char → List Digit → List Digit × List Char
  | [], digits => (digits.reverse, [])
  | c :: cs, digits =>
    match digit? c with
    | some d => readDigits cs (d :: digits)
    | none => (digits.reverse, c :: cs)

/-- The number that digits stand for. -/
def ofDigits (digits : List Digit) : Nat := digits.foldl (fun n d => n * 10 + d.val) 0

/-- A whole part: `0`, or digits that do not start with `0`. -/
def readWhole? (cs : List Char) : Option (Nat × List Char) :=
  match readDigits cs [] with
  | ([], _) => none
  | (d :: ds, rest) => if d.val = 0 ∧ !ds.isEmpty then none else some (ofDigits (d :: ds), rest)

/-- The digits behind a point, if there is one. -/
def readFraction? : List Char → Option (List Digit × List Char)
  | '.' :: cs =>
    match readDigits cs [] with
    | ([], _) => none
    | (ds, rest) => some (ds, rest)
  | cs => some ([], cs)

/-- The digits of a power of ten, behind its sign. -/
def readPower? (negative : Bool) (cs : List Char) : Option (Option Int × List Char) :=
  match readDigits cs [] with
  | ([], _) => none
  | (ds, rest) => some (some (if negative then -(ofDigits ds : Int) else ofDigits ds), rest)

/-- The power of ten of a number, if it has one. -/
def readExponent? : List Char → Option (Option Int × List Char)
  | 'e' :: '-' :: cs | 'E' :: '-' :: cs => readPower? true cs
  | 'e' :: '+' :: cs | 'E' :: '+' :: cs => readPower? false cs
  | 'e' :: cs | 'E' :: cs => readPower? false cs
  | cs => some (none, cs)

/-- A number, its sign read already. -/
def readUnsigned? (negative : Bool) (cs : List Char) : Option (NumberLiteral × List Char) := do
  let (whole, cs) ← readWhole? cs
  let (fraction, cs) ← readFraction? cs
  let (exponent, cs) ← readExponent? cs
  if fraction.isEmpty ∧ exponent.isNone ∧ ¬(negative ∧ whole = 0) then
    return (.integer (if negative then -(whole : Int) else whole), cs)
  else return (.decimal negative whole fraction exponent, cs)

/-- A number. -/
def readNumber? : List Char → Option (NumberLiteral × List Char)
  | '-' :: cs => readUnsigned? true cs
  | cs => readUnsigned? false cs

/-! ## §2. Strings. -/

/-- The value of a hexadecimal digit. -/
def hexDigit? (c : Char) : Option Nat :=
  if '0' ≤ c ∧ c ≤ '9' then some (c.toNat - '0'.toNat)
  else if 'a' ≤ c ∧ c ≤ 'f' then some (c.toNat - 'a'.toNat + 10)
  else if 'A' ≤ c ∧ c ≤ 'F' then some (c.toNat - 'A'.toNat + 10)
  else none

/-- Four hexadecimal digits. -/
def readUnit? : List Char → Option (Nat × List Char)
  | a :: b :: c :: d :: cs => do
    let a ← hexDigit? a
    let b ← hexDigit? b
    let c ← hexDigit? c
    let d ← hexDigit? d
    return (((a * 16 + b) * 16 + c) * 16 + d, cs)
  | _ => none

/-- The low half of a surrogate pair. -/
def readLowHalf? : List Char → Option (Nat × List Char)
  | '\\' :: 'u' :: cs => do
    let (unit, cs) ← readUnit? cs
    if 0xDC00 ≤ unit ∧ unit ≤ 0xDFFF then return (unit, cs) else none
  | _ => none

/-- The character behind `\u`: one unit, or the two halves of a surrogate pair.  A half alone is
no character. -/
def readEscapedUnit? (cs : List Char) : Option (Option Char × List Char) := do
  let (unit, cs) ← readUnit? cs
  if unit < 0xD800 ∨ 0xDFFF < unit then return (some (Char.ofNat unit), cs)
  else if 0xDBFF < unit then return (none, cs)
  else
    match readLowHalf? cs with
    | some (low, cs) =>
      return (some (Char.ofNat (0x10000 + (unit - 0xD800) * 0x400 + (low - 0xDC00))), cs)
    | none => return (none, cs)

/-- The character behind a backslash, if it is one. -/
def readEscape? : List Char → Option (Option Char × List Char)
  | '"' :: cs => some ('"', cs)
  | '\\' :: cs => some ('\\', cs)
  | '/' :: cs => some ('/', cs)
  | 'b' :: cs => some ('\x08', cs)
  | 'f' :: cs => some ('\x0c', cs)
  | 'n' :: cs => some ('\n', cs)
  | 'r' :: cs => some ('\r', cs)
  | 't' :: cs => some ('\t', cs)
  | 'u' :: cs => readEscapedUnit? cs
  | _ => none

/-- The string of some characters, none of which may be missing. -/
def ofChars? (chars : List (Option Char)) : Option String := (chars.mapM id).map String.ofList

/-- The rest of a string, its opening quote read already and its characters so far reversed.  With
half of a surrogate pair in it, it is no string, but ends where a string would. -/
def readChars? : Nat → List Char → List (Option Char) → Option (Option String × List Char)
  | 0, _, _ => none
  | _ + 1, [], _ => none
  | steps + 1, c :: cs, read =>
    if c = '"' then some (ofChars? read.reverse, cs)
    else if c = '\\' then
      match readEscape? cs with
      | none => none
      | some (c, cs) => readChars? steps cs (c :: read)
    else if c.toNat < 0x20 then none
    else readChars? steps cs (some c :: read)

/-! ## §3. Values. -/

/-- Take a fixed word off the front. -/
def readWord? (word : List Char) (value : Json) (cs : List Char) : Option (Json × List Char) :=
  if cs.take word.length = word then some (value, cs.drop word.length) else none

/-- The number of containers that may lie in one another. -/
def maxLevels : Nat := 127

/-- What a text between quotes stands for; it is a string unless it is broken. -/
def ofText : Option String → Json
  | some s => .string s
  | none => .unreadable

/-- What a number stands for; it has to be within the numbers of 64 bits. -/
def ofLiteral (literal : NumberLiteral) : Json :=
  if literal.toDouble?.isSome then .number literal else .unreadable

/-- What an array stands for when so many levels are left for it. -/
def ofItems (levels : Nat) (items : List Json) : Json :=
  if levels = 0 then .unreadable else .array items

/-- What an object stands for when so many levels are left for it; its keys have to be strings. -/
def ofMembers (levels : Nat) (members : List (Option String × Json)) : Json :=
  match levels, members.mapM fun (key, value) => key.map (·, value) with
  | _ + 1, some members => .object members
  | _, _ => .unreadable

mutual

/-- A value, with no blanks in front, for which so many levels are left. -/
def readValue? : Nat → Nat → List Char → Option (Json × List Char)
  | 0, _, _ => none
  | _ + 1, _, [] => none
  | steps + 1, levels, c :: cs =>
    if c = '"' then (readChars? steps cs []).map fun (s, cs) => (ofText s, cs)
    else if c = '[' then
      match skipBlanks cs with
      | ']' :: cs => some (ofItems levels [], cs)
      | cs => readItems? steps levels cs []
    else if c = '\x7b' then
      match skipBlanks cs with
      | '\x7d' :: cs => some (ofMembers levels [], cs)
      | cs => readMembers? steps levels cs []
    else if c = 't' then readWord? ['r', 'u', 'e'] (.bool true) cs
    else if c = 'f' then readWord? ['a', 'l', 's', 'e'] (.bool false) cs
    else if c = 'n' then readWord? ['u', 'l', 'l'] .null cs
    else (readNumber? (c :: cs)).map fun (n, cs) => (ofLiteral n, cs)

/-- The items of an array from one item on, the items before it reversed. -/
def readItems? : Nat → Nat → List Char → List Json → Option (Json × List Char)
  | 0, _, _, _ => none
  | steps + 1, levels, cs, read => do
    let (item, cs) ← readValue? steps (levels - 1) cs
    match skipBlanks cs with
    | ',' :: cs => readItems? steps levels (skipBlanks cs) (item :: read)
    | ']' :: cs => return (ofItems levels (item :: read).reverse, cs)
    | _ => none

/-- The members of an object from one member on, the members before it reversed. -/
def readMembers? : Nat → Nat → List Char → List (Option String × Json) →
    Option (Json × List Char)
  | 0, _, _, _ => none
  | steps + 1, levels, cs, read =>
    match cs with
    | '"' :: cs => do
      let (key, cs) ← readChars? steps cs []
      match skipBlanks cs with
      | ':' :: cs =>
        let (value, cs) ← readValue? steps (levels - 1) (skipBlanks cs)
        match skipBlanks cs with
        | ',' :: cs => readMembers? steps levels (skipBlanks cs) ((key, value) :: read)
        | '\x7d' :: cs => return (ofMembers levels ((key, value) :: read).reverse, cs)
        | _ => none
      | _ => none
    | _ => none

end

/-- The value that a whole text stands for, unreadable where it stands for none. -/
def parse? (text : String) : Option Json := do
  let cs := text.toList
  let (value, rest) ← readValue? (cs.length + 1) maxLevels (skipBlanks cs)
  if (skipBlanks rest).isEmpty then return value else none

end Json

end PatchWeaver

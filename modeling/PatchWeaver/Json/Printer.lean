/-
  PatchWeaver.Json.Printer
  ────────────────────────
  **WRITING JSON TEXT.**

  `compact` writes a value on one line without blanks.  `pretty` indents
  every item and member by two spaces more than its container, and writes
  empty containers as `[]` and as a pair of braces.  A power of ten carries
  its sign.  What is unreadable is written as a text that is read as such.
-/
import PatchWeaver.Json.Basic

namespace PatchWeaver

namespace Json

/-- One hexadecimal digit. -/
def hexDigitChar (n : Nat) : Char := Nat.digitChar (n % 16)

/-- One character of a JSON string. -/
def escapedChar (c : Char) : String :=
  match c with
  | '"' => "\\\""
  | '\\' => "\\\\"
  | '\x08' => "\\b"
  | '\x0c' => "\\f"
  | '\n' => "\\n"
  | '\r' => "\\r"
  | '\t' => "\\t"
  | c =>
    if c.toNat < 0x20 then
      "\\u00" ++ String.ofList [hexDigitChar (c.toNat / 16), hexDigitChar c.toNat]
    else c.toString

/-- A JSON string with its quotes. -/
def stringText (s : String) : String :=
  "\"" ++ s.foldl (fun text c => text ++ escapedChar c) "" ++ "\""

/-- Text of a number. -/
def numberText (literal : NumberLiteral) : String := literal.render true

/-- A string that no value stands for: half of a surrogate pair. -/
def unreadableText : String := "\"\\ud800\""

mutual

/-- A value on one line. -/
def compact : Json → String
  | .null => "null"
  | .bool true => "true"
  | .bool false => "false"
  | .number literal => numberText literal
  | .string value => stringText value
  | .array items => "[" ++ compactItems items ++ "]"
  | .object members => "\x7b" ++ compactMembers members ++ "\x7d"
  | .unreadable => unreadableText

/-- Items on one line, with commas between them. -/
def compactItems : List Json → String
  | [] => ""
  | [item] => compact item
  | item :: rest => compact item ++ "," ++ compactItems rest

/-- Members on one line, with commas between them. -/
def compactMembers : List (String × Json) → String
  | [] => ""
  | [(key, value)] => stringText key ++ ":" ++ compact value
  | (key, value) :: rest => stringText key ++ ":" ++ compact value ++ "," ++ compactMembers rest

end

/-- A line break and the indentation of a level. -/
def newLine (level : Nat) : String := "\n" ++ String.ofList (List.replicate (2 * level) ' ')

mutual

/-- A value over several lines, inside containers of the given level. -/
def prettyAt (level : Nat) : Json → String
  | .array [] => "[]"
  | .object [] => "\x7b\x7d"
  | .array (item :: rest) =>
    "[" ++ newLine (level + 1) ++ prettyAt (level + 1) item ++ prettyItems (level + 1) rest
      ++ newLine level ++ "]"
  | .object ((key, value) :: rest) =>
    "\x7b" ++ newLine (level + 1) ++ stringText key ++ ": " ++ prettyAt (level + 1) value
      ++ prettyMembers (level + 1) rest ++ newLine level ++ "\x7d"
  | .null => "null"
  | .bool true => "true"
  | .bool false => "false"
  | .number literal => numberText literal
  | .string value => stringText value
  | .unreadable => unreadableText

/-- Items that follow another one, each on a line of its own. -/
def prettyItems (level : Nat) : List Json → String
  | [] => ""
  | item :: rest => "," ++ newLine level ++ prettyAt level item ++ prettyItems level rest

/-- Members that follow another one, each on a line of its own. -/
def prettyMembers (level : Nat) : List (String × Json) → String
  | [] => ""
  | (key, value) :: rest =>
    "," ++ newLine level ++ stringText key ++ ": " ++ prettyAt level value
      ++ prettyMembers level rest

end

/-- A value over several lines. -/
def pretty (value : Json) : String := prettyAt 0 value

end Json

end PatchWeaver

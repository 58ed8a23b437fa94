/-
  PatchWeaver.Text.Quoted
  ───────────────────────
  **QUOTED TEXT IN LISTINGS.**

  Listings show a string between double quotes.  Quotes, backslashes and the
  common control characters are escaped by a letter; every other character
  that does not show is escaped by its code point in hexadecimal, with no
  zeros in front.
-/
import PatchWeaver.Text.Concealed

namespace PatchWeaver

/-- A number in lowercase hexadecimal, with no zeros in front. -/
def hexText (n : Nat) : String := String.ofList (Nat.toDigits 16 n)

/-- Whether a character is shown as it is. -/
def showsAsIs (c : Char) : Bool :=
  if c.toNat < 0x80 then 0x20 ≤ c.toNat && c.toNat < 0x7f else !isConcealed c

/-- One character between quotes. -/
def quotedChar (c : Char) : String :=
  match c with
  | '"' => "\\\""
  | '\\' => "\\\\"
  | '\n' => "\\n"
  | '\r' => "\\r"
  | '\t' => "\\t"
  | '\x00' => "\\0"
  | c => if showsAsIs c then c.toString else "\\u\x7b" ++ hexText c.toNat ++ "\x7d"

/-- A string between double quotes, everything that does not show escaped. -/
def quoted (s : String) : String :=
  "\"" ++ String.join (s.toList.map quotedChar) ++ "\""

end PatchWeaver

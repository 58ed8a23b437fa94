/-
  PatchWeaver.Numeral.Literal
  ───────────────────────────
  **NUMBERS AS THEY ARE WRITTEN.**

  A number in a document is an integer, or a decimal: a sign, a whole part,
  digits after the point, and possibly a power of ten.  `-0` is a decimal,
  because no integer keeps that sign.

  Written for a binary number are the fewest digits that read back, laid
  out positionally when the leading digit is not too far from the point and
  with a power of ten otherwise; a `DecimalLayout` says how far is too far.
-/
import PatchWeaver.Numeral.Shortest

namespace PatchWeaver

/-- A decimal digit. -/
abbrev Digit := Fin 10

/-- A number as it is written. -/
inductive NumberLiteral where
  | integer (value : Int)
  | decimal (negative : Bool) (whole : Nat) (fraction : List Digit) (exponent : Option Int)
  deriving Repr, DecidableEq

/-! ## §1. Text of a literal. -/

/-- The character of a digit. -/
def Digit.toChar (d : Digit) : Char := Char.ofNat ('0'.toNat + d.val)

/-- Text of a literal; `plus` says whether a power of ten that is not negative carries a sign. -/
def NumberLiteral.render (plus : Bool) : NumberLiteral → String
  | .integer value => toString value
  | .decimal negative whole fraction exponent =>
    (if negative then "-" else "") ++ toString whole
      ++ (if fraction.isEmpty then "" else "." ++ String.ofList (fraction.map Digit.toChar))
      ++ (match exponent with
        | none => ""
        | some e => "e" ++ (if plus ∧ 0 ≤ e then "+" else "") ++ toString e)

/-! ## §2. Laying out a decimal number. -/

/-- How decimal numbers are laid out. -/
structure DecimalLayout where
  /-- Which of two equally near decimals is written. -/
  tie : Tie
  /-- Least power of ten of a leading digit in positional form. -/
  leastPositional : Int
  /-- Largest power of ten of a leading digit in positional form. -/
  mostPositional : Int
  deriving Repr, DecidableEq

/-- The last `count` decimal digits of a number, zeros in front included. -/
def lastDigits : Nat → Nat → List Digit
  | 0, _ => []
  | count + 1, n => lastDigits count (n / 10) ++ [⟨n % 10, Nat.mod_lt n (by decide)⟩]

theorem length_lastDigits : ∀ count n, (lastDigits count n).length = count
  | 0, _ => rfl
  | count + 1, n => by simp [lastDigits, length_lastDigits count]

/-- Number of decimal digits. -/
def digitCount (n : Nat) : Nat :=
  if n < 10 then 1 else digitCount (n / 10) + 1
termination_by n
decreasing_by omega

/-- The literal of a positive decimal number, or of its negation. -/
def DecimalLayout.literal (layout : DecimalLayout) (negative : Bool) (d : Decimal) :
    NumberLiteral :=
  let count := digitCount d.digits
  let leading := (count : Int) - 1 + d.exponent
  if layout.leastPositional ≤ leading ∧ leading ≤ layout.mostPositional then
    let places := (-d.exponent).toNat
    .decimal negative (d.digits * Nat.pow 10 d.exponent.toNat / Nat.pow 10 places)
      (if places = 0 then [0] else lastDigits places d.digits) none
  else
    .decimal negative (d.digits / Nat.pow 10 (count - 1)) (lastDigits (count - 1) d.digits)
      (some leading)

/-- The literal of a binary number; an infinite one has none. -/
def BinaryFloat.literal? {format : FloatFormat} (layout : DecimalLayout) :
    BinaryFloat format → Option NumberLiteral
  | .infinite _ => none
  | .finite negative mantissa exponent =>
    if mantissa = 0 then some (.decimal negative 0 [0] none)
    else some (layout.literal negative (format.shortest layout.tie mantissa exponent))

end PatchWeaver

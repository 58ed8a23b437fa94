/-
  PatchWeaver.Numeral.Scaled
  ──────────────────────────
  **READING A LITERAL AS A BINARY NUMBER.**

  A decimal literal is read in two roundings.  Its digits are collected
  into a significand of at most 64 bits, each digit that does not fit any
  more being dropped; the significand is rounded to a 64-bit number; and
  that number is multiplied or divided by a rounded power of ten.  A result
  that is too large has no reading; one that is too small reads as zero.

  Integers of 64 bits, with or without a sign, are rounded once, straight to
  the format asked for.  Other integers are read like decimals.
-/
import PatchWeaver.Numeral.Literal

namespace PatchWeaver

/-! ## §1. Significands. -/

/-- The largest significand. -/
def significandLimit : Nat := 0xffffffffffffffff

/-- A significand and the power of ten that it is multiplied with. -/
structure Significand where
  value : Nat
  exponent : Int
  deriving Repr, DecidableEq

/-- The leading digits of a number that fit into a significand. -/
def Significand.ofWhole (n : Nat) : Significand :=
  if n ≤ significandLimit then ⟨n, 0⟩
  else
    let s := ofWhole (n / 10)
    ⟨s.value, s.exponent + 1⟩
termination_by n
decreasing_by simp only [significandLimit] at *; omega

/-- Append digits from behind the point while they fit; the first that does not ends the reading. -/
def Significand.append (s : Significand) : List Digit → Significand
  | [] => s
  | d :: rest =>
    if s.value * 10 + d.val ≤ significandLimit
    then Significand.append ⟨s.value * 10 + d.val, s.exponent - 1⟩ rest
    else s

/-! ## §2. Scaling. -/

namespace BinaryFloat

/-- Whether a number is zero, of either sign. -/
def isZero {format : FloatFormat} : BinaryFloat format → Bool
  | .finite _ mantissa _ => mantissa == 0
  | .infinite _ => false

/-- A number with its sign replaced. -/
def withSign {format : FloatFormat} (negative : Bool) : BinaryFloat format → BinaryFloat format
  | .finite _ mantissa exponent => .finite negative mantissa exponent
  | .infinite _ => .infinite negative

/-- The largest power of ten that a 64-bit number can hold. -/
def maxPower : Nat := 308

/-- The 64-bit number nearest to a power of ten. -/
def powerOfTen (power : Nat) : Double := ofNat false (Nat.pow 10 power)

/-- A number multiplied with a power of ten. Divisors beyond the largest power are applied one
largest power at a time, until nothing is left to divide. -/
def scale (x : Double) (exponent : Int) : Option Double :=
  if 0 ≤ exponent then
    if exponent ≤ maxPower then
      match x.times (powerOfTen exponent.toNat) with
      | .infinite _ => none
      | y => some y
    else if x.isZero then some x else none
  else if -exponent ≤ maxPower then
    some (x.dividedBy (powerOfTen (-exponent).toNat))
  else if x.isZero then some x
  else scale (x.dividedBy (powerOfTen maxPower)) (exponent + maxPower)
termination_by (-exponent).toNat
decreasing_by have hmax : maxPower = 308 := rfl; omega

end BinaryFloat

/-- The 64-bit number that a significand stands for. -/
def Significand.toDouble? (negative : Bool) (s : Significand) : Option Double :=
  ((BinaryFloat.ofNat false s.value : Double).scale s.exponent).map (·.withSign negative)

/-! ## §3. Literals. -/

/-- The integers of 64 bits, with or without a sign. -/
def isWord (i : Int) : Bool := -0x8000000000000000 ≤ i && i ≤ 0xffffffffffffffff

namespace NumberLiteral

/-- The 64-bit number that a literal stands for; `none` when it is too large. -/
def toDouble? : NumberLiteral → Option Double
  | .integer value =>
    if isWord value then some (BinaryFloat.ofInt value)
    else (Significand.ofWhole value.natAbs).toDouble? (value < 0)
  | .decimal negative whole fraction exponent =>
    let s := (Significand.ofWhole whole).append fraction
    { s with exponent := s.exponent + exponent.getD 0 : Significand }.toDouble? negative

/-- The 32-bit number that a literal stands for: decimals are rounded to 64 bits first. -/
def toSingle? : NumberLiteral → Option Single
  | .integer value =>
    if isWord value then some (BinaryFloat.ofInt value)
    else (toDouble? (.integer value)).map BinaryFloat.convert
  | literal => literal.toDouble?.map BinaryFloat.convert

/-- The integer that a literal stands for; a decimal stands for none. -/
def toInt? : NumberLiteral → Option Int
  | .integer value => some value
  | .decimal .. => none

end NumberLiteral

end PatchWeaver

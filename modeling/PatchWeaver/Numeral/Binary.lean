/-
  PatchWeaver.Numeral.Binary
  ──────────────────────────
  **BINARY FLOATING-POINT NUMBERS.**

  A format fixes a precision `p` and a range of exponents.  Its finite
  numbers are `± m · 2^e` with `m < 2^p`, in the form with the least
  exponent that the format allows; beyond the largest of them there is only
  infinity.  A ratio of natural numbers is rounded to the nearest number of
  the format, a tie going to the even mantissa:

      ofRatio false 1 3 = m · 2^e    with    |m · 2^e - 1/3| least

  There is no "not a number": no constant of a program is one.
-/

namespace PatchWeaver

/-! ## §1. Formats and numbers. -/

/-- A binary floating-point format. -/
structure FloatFormat where
  /-- Number of bits of a mantissa. -/
  precision : Nat
  /-- Exponent of the least positive number. -/
  minExponent : Int
  /-- Exponent of the largest finite numbers. -/
  maxExponent : Int
  deriving Repr, DecidableEq

/-- The 32-bit format. -/
def FloatFormat.single : FloatFormat := ⟨24, -149, 104⟩

/-- The 64-bit format. -/
def FloatFormat.double : FloatFormat := ⟨53, -1074, 971⟩

/-- A number of a binary format. -/
inductive BinaryFloat (format : FloatFormat) where
  /-- `mantissa · 2^exponent`, or its negation. -/
  | finite (negative : Bool) (mantissa : Nat) (exponent : Int)
  | infinite (negative : Bool)
  deriving Repr, DecidableEq

/-- A 32-bit number. -/
abbrev Single := BinaryFloat .single

/-- A 64-bit number. -/
abbrev Double := BinaryFloat .double

/-! ## §2. Rounding. -/

/-- The quotient rounded to the nearest natural number, a tie to the even one. -/
def roundHalfEven (num den : Nat) : Nat :=
  let quotient := num / den
  let rest := num % den
  if 2 * rest < den ∨ (2 * rest = den ∧ quotient % 2 = 0) then quotient else quotient + 1

namespace BinaryFloat

variable {format : FloatFormat}

/-- Zero, with a sign. -/
def zero (negative : Bool) : BinaryFloat format := .finite negative 0 format.minExponent

/-- `num / den` in units of `2^exponent`, as a ratio. -/
def scaledRatio (num den : Nat) (exponent : Int) : Nat × Nat :=
  (num * Nat.pow 2 (-exponent).toNat, den * Nat.pow 2 exponent.toNat)

/-- The number nearest to `num / den`, where `den` is positive. -/
def ofRatio (negative : Bool) (num den : Nat) : BinaryFloat format :=
  if num = 0 then zero negative
  else
    let estimate := max ((num.log2 : Int) - den.log2 - format.precision) format.minExponent
    let (n, d) := scaledRatio num den estimate
    let limit := Nat.pow 2 format.precision
    let exponent := if n / d < limit then estimate else estimate + 1
    let (n, d) := scaledRatio num den exponent
    let mantissa := roundHalfEven n d
    let (mantissa, exponent) :=
      if mantissa = limit then (mantissa / 2, exponent + 1) else (mantissa, exponent)
    if format.maxExponent < exponent then .infinite negative
    else .finite negative mantissa exponent

/-- The number nearest to a natural number, or to its negation. -/
def ofNat (negative : Bool) (n : Nat) : BinaryFloat format := ofRatio negative n 1

/-- The number nearest to an integer. -/
def ofInt (i : Int) : BinaryFloat format := ofNat (i < 0) i.natAbs

/-- The magnitude of `mantissa · 2^exponent` as a ratio. -/
def magnitude (mantissa : Nat) (exponent : Int) : Nat × Nat :=
  (mantissa * Nat.pow 2 exponent.toNat, Nat.pow 2 (-exponent).toNat)

/-- The number of another format that is nearest. -/
def convert {target : FloatFormat} : BinaryFloat format → BinaryFloat target
  | .finite negative mantissa exponent =>
    let (n, d) := magnitude mantissa exponent
    ofRatio negative n d
  | .infinite negative => .infinite negative

/-! ## §3. Arithmetic. -/

/-- The product of two magnitudes, rounded, with the sign of the first. -/
def times : BinaryFloat format → BinaryFloat format → BinaryFloat format
  | .finite negative m e, .finite _ m' e' =>
    let (n, d) := magnitude m e
    let (n', d') := magnitude m' e'
    ofRatio negative (n * n') (d * d')
  | .finite negative .., .infinite _ => .infinite negative
  | .infinite negative, _ => .infinite negative

/-- The quotient of two magnitudes, rounded, with the sign of the first; the divisor is positive. -/
def dividedBy : BinaryFloat format → BinaryFloat format → BinaryFloat format
  | .finite negative m e, .finite _ m' e' =>
    let (n, d) := magnitude m e
    let (n', d') := magnitude m' e'
    ofRatio negative (n * d') (d * n')
  | .finite negative .., .infinite _ => zero negative
  | .infinite negative, _ => .infinite negative

/-- Whether two numbers have the same value: the two zeros do. -/
def same : BinaryFloat format → BinaryFloat format → Bool
  | .finite s m e, .finite s' m' e' => (m == 0 && m' == 0) || (s == s' && m == m' && e == e')
  | .infinite s, .infinite s' => s == s'
  | _, _ => false

/-- Every number has its own value. -/
theorem same_self (x : BinaryFloat format) : x.same x = true := by
  cases x <;> simp [same]

end BinaryFloat

end PatchWeaver

/-
  PatchWeaver.Numeral.Shortest
  ────────────────────────────
  **THE FEWEST DIGITS THAT READ BACK.**

  The reals that round to `m · 2^e` form an interval; its ends belong to it
  exactly when `m` is even.  Powers of ten are tried from coarse to fine:
  on each grid only the two neighbours of the number can lie in the
  interval, and the first grid with such a neighbour wins.  Of two hits the
  nearer is taken; `Tie` says which one when both are equally near.
-/
import PatchWeaver.Numeral.Binary

namespace PatchWeaver

/-- A positive decimal number, `digits · 10^exponent`. -/
structure Decimal where
  digits : Nat
  exponent : Int
  deriving Repr, DecidableEq

/-- Which of two equally near neighbours is taken. -/
inductive Tie where
  /-- The one whose last digit is even. -/
  | even
  /-- The larger one. -/
  | up
  deriving Repr, DecidableEq

/-! ## §1. The interval of a number. -/

/-- The reals that round to a number, in quarters of `2^exponent`. -/
structure Interval where
  /-- Lower end. -/
  low : Nat
  /-- The number itself. -/
  value : Nat
  /-- Upper end. -/
  high : Nat
  /-- Whether the ends belong to the interval. -/
  closed : Bool
  deriving Repr, DecidableEq

/-- The interval of `mantissa · 2^exponent`. Below a power of two the neighbour is only half as
far, except at the least exponent. -/
def FloatFormat.interval (format : FloatFormat) (mantissa : Nat) (exponent : Int) : Interval where
  low := if mantissa = Nat.pow 2 (format.precision - 1) ∧ format.minExponent < exponent
    then 4 * mantissa - 1 else 4 * mantissa - 2
  value := 4 * mantissa
  high := 4 * mantissa + 2
  closed := mantissa % 2 = 0

/-- Whether the ratio `num / den` lies in the interval. -/
def Interval.contains (i : Interval) (num den : Nat) : Bool :=
  if i.closed then decide (i.low * den ≤ num ∧ num ≤ i.high * den)
  else decide (i.low * den < num ∧ num < i.high * den)

/-! ## §2. Searching the grids. -/

/-- Distance of two natural numbers. -/
def distance (a b : Nat) : Nat := (a - b) + (b - a)

/-- The better of two neighbouring digit counts, of which at least one lies in the interval. The
number `k` stands for the ratio `k * num / den`. -/
def pickNeighbour (i : Interval) (tie : Tie) (num den k : Nat) : Option Nat :=
  match i.contains (k * num) den, i.contains ((k + 1) * num) den with
  | false, false => none
  | true, false => some k
  | false, true => some (k + 1)
  | true, true =>
    let below := distance (k * num) (i.value * den)
    let above := distance ((k + 1) * num) (i.value * den)
    if below < above then some k
    else if above < below then some (k + 1)
    else match tie with
      | .even => if k % 2 = 0 then some k else some (k + 1)
      | .up => some (k + 1)

/-- Try the grid of `10^power`, then up to `steps` finer ones. -/
def searchGrids (i : Interval) (tie : Tie) (exponent : Int) : Nat → Int → Decimal
  | 0, power => ⟨0, power⟩
  | steps + 1, power =>
    -- one grid step, in quarters of `2^exponent`, is `num / den`
    let num := Nat.pow 10 power.toNat * Nat.pow 2 (2 - exponent).toNat
    let den := Nat.pow 10 (-power).toNat * Nat.pow 2 (exponent - 2).toNat
    match pickNeighbour i tie num den (i.value * den / num) with
    | some digits => ⟨digits, power⟩
    | none => searchGrids i tie exponent steps (power - 1)

/-- A power of ten above `mantissa · 2^exponent`, found from the length in bits. -/
def powerAbove (mantissa : Nat) (exponent : Int) : Int :=
  let bits := (mantissa.log2 : Int) + 1 + exponent
  if 0 ≤ bits then bits * 30103 / 100000 + 1 else -((-bits) * 30102 / 100000) + 1

/-- Drop the zeros at the end of the digits, at most `steps` of them. -/
def dropZeros : Nat → Decimal → Decimal
  | 0, d => d
  | steps + 1, d =>
    if d.digits ≠ 0 ∧ d.digits % 10 = 0 then dropZeros steps ⟨d.digits / 10, d.exponent + 1⟩ else d

/-- The decimal number with the fewest digits that reads back as `mantissa · 2^exponent`, where
the mantissa is positive; of several, the nearest. -/
def FloatFormat.shortest (format : FloatFormat) (tie : Tie) (mantissa : Nat) (exponent : Int) :
    Decimal :=
  -- 20 grids always hold one that separates neighbouring numbers
  dropZeros 20
    (searchGrids (format.interval mantissa exponent) tie exponent 20 (powerAbove mantissa exponent))

end PatchWeaver

/-
  PatchWeaver.Proofs.Decimals
  ───────────────────────────
  **A FINITE NUMBER IS WRITTEN AS A DECIMAL THAT HAS A READING.**

  The decimal that is written for a number lies in the interval of the reals
  that round to that number, so it is no larger than the upper end.  What is
  read of it, a significand and a power of ten, is no larger than the
  decimal, because digits are only dropped.  So a reading can fail near the
  end of the format only, where two roundings up might lead beyond it:

      number          upper end of its interval      reading
      most numbers    at most `scalingBound`         `isSome_scale_ofNat`
      the two last    beyond it                      computed

  That a number is read at all does not mean that it is read as itself: the
  product of two roundings is not the nearest number to the decimal.

  Main results:
    * `FloatFormat.value_shortest_le` — the decimal is in the interval.
    * `NumberLiteral.isSome_toDouble?_decimal` — which decimals have a reading.
    * `isSome_reading_single`, `isSome_reading_double` — every finite number.
-/
import PatchWeaver.Codec.Body
import PatchWeaver.Json.Reader
import PatchWeaver.Proofs.Rounding

namespace PatchWeaver

open Json

/-! ## §1. The decimal that is written. -/

/-- The value of a decimal. -/
def Decimal.value (d : Decimal) : ℚ := d.digits * 10 ^ d.exponent

/-- Zeros at the end of the digits make no difference. -/
theorem value_dropZeros (steps : ℕ) (d : Decimal) : (dropZeros steps d).value = d.value := by
  induction steps generalizing d with
  | zero => rfl
  | succ steps ih =>
    unfold dropZeros
    split
    · next hzero =>
      have hdigits : d.digits = d.digits / 10 * 10 := by omega
      rw [ih]
      unfold Decimal.value
      dsimp only
      rw [zpow_add_one₀ (by norm_num), mul_comm _ (10 : ℚ), ← mul_assoc]
      congr 1
      exact_mod_cast hdigits.symm
    · rfl

theorem Interval.contains_le {i : Interval} {num den : ℕ} (h : i.contains num den = true) :
    num ≤ i.high * den := by
  unfold contains at h
  split at h
  · exact (of_decide_eq_true h).2
  · exact (of_decide_eq_true h).2.le

/-- A neighbour that is picked lies in the interval. -/
theorem pickNeighbour_le {i : Interval} {tie : Tie} {num den k digits : ℕ}
    (h : pickNeighbour i tie num den k = some digits) : digits * num ≤ i.high * den := by
  unfold pickNeighbour at h
  cases hbelow : i.contains (k * num) den with
  | false =>
    cases habove : i.contains ((k + 1) * num) den with
    | false => simp [hbelow, habove] at h
    | true =>
      simp only [hbelow, habove, Option.some.injEq] at h
      exact h ▸ Interval.contains_le habove
  | true =>
    cases habove : i.contains ((k + 1) * num) den with
    | false =>
      simp only [hbelow, habove, Option.some.injEq] at h
      exact h ▸ Interval.contains_le hbelow
    | true =>
      -- whichever is the nearer one, both lie in the interval
      have heither : digits = k ∨ digits = k + 1 := by
        simp only [hbelow, habove] at h
        cases tie <;> grind
      rcases heither with rfl | rfl
      · exact Interval.contains_le hbelow
      · exact Interval.contains_le habove

/-- Whatever grid is found, the decimal does not leave the interval. -/
theorem value_searchGrids_le (i : Interval) (tie : Tie) (exponent : ℤ) (steps : ℕ) (power : ℤ) :
    (searchGrids i tie exponent steps power).value ≤ i.high * 2 ^ (exponent - 2) := by
  induction steps generalizing power with
  | zero =>
    show ((0 : ℕ) : ℚ) * 10 ^ power ≤ _
    rw [Nat.cast_zero, zero_mul]
    positivity
  | succ steps ih =>
    unfold searchGrids
    dsimp only
    split
    · next digits hpick =>
      have hcast : ((digits * (10 ^ power.toNat * 2 ^ (2 - exponent).toNat) : ℕ) : ℚ)
          ≤ (i.high * (10 ^ (-power).toNat * 2 ^ (exponent - 2).toNat) : ℕ) :=
        Nat.cast_le.mpr (pickNeighbour_le hpick)
      have htwo := pow_toNat_div_pow_toNat (two_ne_zero' ℚ) (exponent - 2)
      rw [neg_sub] at htwo
      have hten := pow_toNat_div_pow_toNat (show (10 : ℚ) ≠ 0 by norm_num) power
      show (digits : ℚ) * 10 ^ power ≤ _
      rw [← hten, ← htwo, ← mul_div_assoc, ← mul_div_assoc, div_le_div_iff₀ (by positivity)
        (by positivity)]
      push_cast at hcast
      linarith
    · exact ih (power - 1)

/-- **The decimal that is written is no larger than the upper end of the interval.** -/
theorem FloatFormat.value_shortest_le (format : FloatFormat) (tie : Tie) (m : ℕ) (e : ℤ) :
    (format.shortest tie m e).value ≤ (4 * m + 2) * 2 ^ (e - 2) := by
  unfold shortest
  rw [value_dropZeros]
  have hle := value_searchGrids_le (format.interval m e) tie e 20 (powerAbove m e)
  have hhigh : ((format.interval m e).high : ℚ) = 4 * m + 2 := by simp [interval]
  rwa [hhigh] at hle

/-! ## §2. Digits. -/

theorem lt_pow_digitCount (n : ℕ) : n < 10 ^ digitCount n := by
  induction n using digitCount.induct with
  | case1 n hsmall =>
    rw [digitCount, if_pos hsmall, pow_one]
    exact hsmall
  | case2 n hlarge ih =>
    rw [digitCount, if_neg hlarge, pow_succ]
    omega

theorem digitCount_pos (n : ℕ) : 0 < digitCount n := by
  unfold digitCount
  split <;> omega

theorem ofDigits_append_singleton (ds : List Digit) (d : Digit) :
    ofDigits (ds ++ [d]) = ofDigits ds * 10 + d.val := by
  unfold ofDigits
  rw [List.foldl_append]
  rfl

theorem ofDigits_cons (d : Digit) (ds : List Digit) :
    ofDigits (d :: ds) = d.val * 10 ^ ds.length + ofDigits ds := by
  induction ds using List.reverseRecOn with
  | nil => simp [ofDigits]
  | append_singleton ds last ih =>
    rw [← List.cons_append, ofDigits_append_singleton, ih, ofDigits_append_singleton,
      List.length_append, List.length_singleton, pow_succ]
    ring

/-- The last digits of a number stand for what is left of it. -/
theorem ofDigits_lastDigits (count n : ℕ) : ofDigits (lastDigits count n) = n % 10 ^ count := by
  induction count generalizing n with
  | zero => simp [lastDigits, ofDigits, Nat.mod_one]
  | succ count ih =>
    rw [lastDigits, ofDigits_append_singleton, ih, pow_succ', Nat.mod_mul]
    dsimp only
    omega

/-! ## §3. The reading of a decimal. -/

namespace Significand

/-- The value of a significand with its power of ten. -/
def amount (s : Significand) : ℚ := s.value * 10 ^ s.exponent

/-- **Digits that are read add no more than they stand for**, because those that do not fit are
dropped. -/
theorem amount_append_le (s : Significand) (ds : List Digit) :
    (s.append ds).amount ≤ s.amount + ofDigits ds * 10 ^ (s.exponent - ds.length) := by
  induction ds generalizing s with
  | nil => simp [append, ofDigits]
  | cons d ds ih =>
    unfold append
    split
    · refine le_trans (ih _) (le_of_eq ?_)
      have hshift : s.exponent - (ds.length + 1 : ℕ) = s.exponent - 1 - ds.length := by omega
      have hten (k : ℤ) : (10 : ℚ) ^ (k - 1) * 10 = 10 ^ k := by
        rw [← zpow_add_one₀ (by norm_num), sub_add_cancel]
      rw [ofDigits_cons, List.length_cons, hshift, zpow_sub₀ (by norm_num) (s.exponent - 1)]
      unfold amount
      dsimp only
      rw [← hten s.exponent, zpow_natCast]
      push_cast
      field_simp
      ring
    · have hnonneg : (0 : ℚ) ≤ ofDigits (d :: ds) * 10 ^ (s.exponent - (d :: ds).length : ℤ) := by
        positivity
      linarith

end Significand

/-- **A decimal has a reading, unless it is nearly too large.** -/
theorem NumberLiteral.isSome_toDouble?_decimal (negative : Bool) {whole : ℕ}
    {fraction : List Digit} {exponent : Option ℤ} (hwhole : whole ≤ significandLimit)
    (h : ((whole * 10 ^ fraction.length + ofDigits fraction : ℕ) : ℚ)
      * 10 ^ (exponent.getD 0 - fraction.length) ≤ BinaryFloat.scalingBound) :
    (NumberLiteral.decimal negative whole fraction exponent).toDouble?.isSome := by
  have hread : Significand.ofWhole whole = ⟨whole, 0⟩ := by
    rw [Significand.ofWhole, if_pos hwhole]
  have hamount := Significand.amount_append_le ⟨whole, 0⟩ fraction
  unfold toDouble?
  dsimp only
  rw [hread]
  generalize Significand.append ⟨whole, 0⟩ fraction = s at *
  unfold Significand.toDouble?
  dsimp only
  rw [Option.isSome_map]
  refine BinaryFloat.isSome_scale_ofNat (le_trans ?_ h)
  have hten : (0 : ℚ) < 10 ^ exponent.getD 0 := by positivity
  rw [zpow_add₀ (by norm_num), ← mul_assoc, zpow_sub₀ (by norm_num), zpow_natCast]
  unfold Significand.amount at hamount
  dsimp only at hamount
  rw [zero_sub, zpow_neg, zpow_natCast, zpow_zero, mul_one] at hamount
  calc (s.value : ℚ) * 10 ^ s.exponent * 10 ^ exponent.getD 0
      ≤ (whole + ofDigits fraction * (10 ^ fraction.length)⁻¹) * 10 ^ exponent.getD 0 := by gcongr
    _ = _ := by
        push_cast
        field_simp

/-- Digits behind the point change nothing. -/
theorem NumberLiteral.isSome_toDouble?_split (negative : Bool) (digits places : ℕ)
    {exponent : Option ℤ} (hwhole : digits / 10 ^ places ≤ significandLimit)
    (h : (digits : ℚ) * 10 ^ (exponent.getD 0 - places) ≤ BinaryFloat.scalingBound) :
    (NumberLiteral.decimal negative (digits / 10 ^ places) (lastDigits places digits)
      exponent).toDouble?.isSome := by
  refine isSome_toDouble?_decimal negative hwhole ?_
  rwa [length_lastDigits, ofDigits_lastDigits, Nat.div_add_mod']

/-- **The literal of a decimal has a reading, unless the decimal is nearly too large.** -/
theorem DecimalLayout.isSome_toDouble?_literal {layout : DecimalLayout} (negative : Bool)
    {d : Decimal} (hlayout : layout.mostPositional ≤ 15) (h : d.value ≤ BinaryFloat.scalingBound) :
    (layout.literal negative d).toDouble?.isSome := by
  have hlimit : 10 ^ 16 ≤ significandLimit := by decide
  have hdigits := lt_pow_digitCount d.digits
  have hcount := digitCount_pos d.digits
  unfold Decimal.value at h
  unfold literal
  dsimp only
  simp only [Nat.pow_eq]
  split
  · next hpositional =>
    split
    · next hwhole =>
      -- all digits are in front of the point, with zeros behind them
      obtain ⟨k, hk⟩ : ∃ k : ℕ, d.exponent = k := ⟨d.exponent.toNat, by omega⟩
      rw [hk, zpow_natCast] at h
      rw [hk] at hpositional
      rw [hwhole, hk, Int.toNat_natCast, pow_zero, Nat.div_one]
      refine NumberLiteral.isSome_toDouble?_decimal negative ?_ ?_
      · refine Nat.le_trans (Nat.mul_le_mul_right _ hdigits.le) (Nat.le_trans ?_ hlimit)
        rw [← pow_add]
        exact Nat.pow_le_pow_right (by decide) (by omega)
      · refine le_trans (le_of_eq ?_) h
        simp [ofDigits]
    · next hplaces =>
      -- the point stands in the digits, or in front of them
      obtain ⟨k, hk⟩ : ∃ k : ℕ, d.exponent = -k := ⟨(-d.exponent).toNat, by omega⟩
      rw [hk] at h hpositional
      have hzero : (-(k : ℤ)).toNat = 0 := by omega
      rw [hk, neg_neg, Int.toNat_natCast, hzero, pow_zero, mul_one]
      refine NumberLiteral.isSome_toDouble?_split negative d.digits k ?_ ?_
      · refine Nat.le_trans (Nat.div_le_of_le_mul ?_) hlimit
        rw [← pow_add]
        exact Nat.le_trans hdigits.le (Nat.pow_le_pow_right (by decide) (by omega))
      · rwa [Option.getD_none, zero_sub]
  · refine NumberLiteral.isSome_toDouble?_split negative d.digits (digitCount d.digits - 1) ?_ ?_
    · refine Nat.le_trans (Nat.div_le_of_le_mul ?_) hlimit
      rw [← pow_add]
      exact Nat.le_trans hdigits.le (Nat.pow_le_pow_right (by decide) (by omega))
    · have hshift : (digitCount d.digits : ℤ) - 1 + d.exponent - (digitCount d.digits - 1 : ℕ)
          = d.exponent := by omega
      rwa [Option.getD_some, hshift]

/-! ## §4. Numbers of both formats. -/

theorem literal?_finite {format : FloatFormat} (layout : DecimalLayout) (negative : Bool) (m : ℕ)
    (e : ℤ) : (.finite negative m e : BinaryFloat format).literal? layout
      = if m = 0 then some (.decimal negative 0 [0] none)
        else some (layout.literal negative (format.shortest layout.tie m e)) := rfl

/-- A number whose interval does not reach too far is written with a reading. -/
theorem isSome_reading {format : FloatFormat} {layout : DecimalLayout} (negative : Bool)
    {m : ℕ} {e : ℤ} (hlayout : layout.mostPositional ≤ 15)
    (h : (4 * m + 2 : ℚ) * 2 ^ (e - 2) ≤ BinaryFloat.scalingBound) :
    (((.finite negative m e : BinaryFloat format).literal? layout).bind
      NumberLiteral.toDouble?).isSome := by
  rw [literal?_finite]
  by_cases hm : m = 0
  · rw [if_pos hm]
    refine NumberLiteral.isSome_toDouble?_decimal negative (Nat.zero_le _) ?_
    refine le_trans ?_ h
    rw [show ofDigits [0] = 0 from rfl, zero_mul, Nat.add_zero, Nat.cast_zero, zero_mul]
    positivity
  · rw [if_neg hm]
    exact DecimalLayout.isSome_toDouble?_literal negative hlayout
      (le_trans (format.value_shortest_le layout.tie m e) h)

/-- An interval does not reach too far if its mantissa and its exponent do not; the larger the one
may be, the smaller is the other. -/
theorem upperEnd_le {m most : ℕ} (k : ℕ) {e : ℤ} (hm : m ≤ most) (he : e ≤ 972 - k)
    (hmost : (4 * most + 2 : ℚ) ≤ (2 ^ 54 - 5) * 2 ^ k) :
    (4 * m + 2 : ℚ) * 2 ^ (e - 2) ≤ BinaryFloat.scalingBound := by
  have hpow : (2 : ℚ) ^ (e - 2) ≤ 2 ^ (970 - k : ℤ) := zpow_le_zpow_right₀ one_le_two (by omega)
  have hunit : (0 : ℚ) < 2 ^ (970 - k : ℤ) := by positivity
  have hsplit : (2 : ℚ) ^ k * 2 ^ (970 - k : ℤ) = 2 ^ 970 := by
    rw [← zpow_natCast, ← zpow_add₀ two_ne_zero, add_sub_cancel]
    exact zpow_natCast 2 970
  unfold BinaryFloat.scalingBound
  rw [← hsplit]
  clear hsplit
  generalize (2 : ℚ) ^ (970 - k : ℤ) = unit at *
  calc (4 * m + 2 : ℚ) * 2 ^ (e - 2)
      ≤ (4 * most + 2) * unit := by gcongr
    _ ≤ (2 ^ 54 - 5) * 2 ^ k * unit := by gcongr
    _ = (2 ^ 54 - 5) * (2 ^ k * unit) := mul_assoc _ _ _

/-- Every finite 32-bit number is written with a reading: the bound is far away. -/
theorem isSome_reading_single {x : Single} (hfits : x.Fits) (hfinite : x.IsFinite) :
    ((x.literal? singleLayout).bind NumberLiteral.toDouble?).isSome := by
  cases x with
  | infinite negative => exact hfinite.elim
  | finite negative m e =>
    obtain ⟨hm, he⟩ : m < 2 ^ 24 ∧ e ≤ 104 := hfits
    exact isSome_reading negative (by decide) (upperEnd_le 0 hm.le (by omega) (by norm_num))

/-- The two largest numbers of 64 bits, whose intervals reach beyond the bound. -/
theorem isSome_reading_largest (negative : Bool) {m : ℕ} (h : m = 2 ^ 53 - 2 ∨ m = 2 ^ 53 - 1) :
    (((.finite negative m 971 : Double).literal? doubleLayout).bind
      NumberLiteral.toDouble?).isSome := by
  rcases h with rfl | rfl <;> cases negative <;> decide +kernel

/-- **Every finite 64-bit number is written with a reading.** -/
theorem isSome_reading_double {x : Double} (hfits : x.Fits) (hfinite : x.IsFinite) :
    ((x.literal? doubleLayout).bind NumberLiteral.toDouble?).isSome := by
  cases x with
  | infinite negative => exact hfinite.elim
  | finite negative m e =>
    obtain ⟨hm, he⟩ : m < 2 ^ 53 ∧ e ≤ 971 := hfits
    by_cases hlast : e = 971
    · subst hlast
      by_cases hlargest : m ≤ 2 ^ 53 - 3
      · exact isSome_reading negative (by decide)
          (upperEnd_le 1 hlargest (by omega) (by norm_num))
      · exact isSome_reading_largest negative (by omega)
    · exact isSome_reading negative (by decide)
        (upperEnd_le 2 hm.le (by omega) (by norm_num))

/-! ## §5. What is read. -/

/-- A word of 64 bits is rounded to a finite number. -/
theorem isFinite_ofNat {n : ℕ} (h : n ≤ significandLimit) (negative : Bool) :
    (BinaryFloat.ofNat negative n : Double).IsFinite := by
  refine BinaryFloat.isFinite_ofRatio BinaryFloat.regular_double negative Nat.one_pos ?_
  have hlimit : n ≤ 10 ^ 20 := Nat.le_trans h (by decide)
  have hpow : (10 : ℚ) ^ 20 ≤ 10 ^ BinaryFloat.maxPower :=
    pow_le_pow_right₀ (by norm_num) (by decide)
  rw [Nat.cast_one, div_one]
  refine lt_of_le_of_lt (le_trans ?_ hpow) BinaryFloat.pow_maxPower_lt
  exact_mod_cast hlimit

theorem natAbs_le_of_isWord {i : ℤ} (h : isWord i = true) : i.natAbs ≤ significandLimit := by
  simp only [isWord, Bool.and_eq_true, decide_eq_true_iff] at h
  unfold significandLimit
  omega

namespace Significand

theorem value_ofWhole_le (n : ℕ) : (ofWhole n).value ≤ significandLimit := by
  induction n using ofWhole.induct with
  | case1 n hfits =>
    rw [ofWhole, if_pos hfits]
    exact hfits
  | case2 n hlong ih =>
    rw [ofWhole, if_neg hlong]
    exact ih

theorem value_append_le {s : Significand} (h : s.value ≤ significandLimit) (ds : List Digit) :
    (s.append ds).value ≤ significandLimit := by
  induction ds generalizing s with
  | nil => exact h
  | cons d ds ih =>
    unfold append
    split
    · next hfits => exact ih hfits
    · exact h

/-- The number that a significand stands for fits into 64 bits, and is finite. -/
theorem fits_of_toDouble? {negative : Bool} {s : Significand} {x : Double}
    (hvalue : s.value ≤ significandLimit) (h : s.toDouble? negative = some x) :
    x.Fits ∧ x.IsFinite := by
  obtain ⟨y, hy, rfl⟩ := Option.map_eq_some_iff.mp h
  have hfits := BinaryFloat.fits_ofRatio BinaryFloat.regular_double false s.value 1
  have hfinite := (isFinite_ofNat hvalue false).scale hfits hy
  refine ⟨(hfits.scale hy).withSign negative, ?_⟩
  cases y with
  | finite _ m e => trivial
  | infinite _ => exact hfinite.elim

end Significand

namespace NumberLiteral

variable {literal : NumberLiteral}

/-- **A number that is read fits into 64 bits, and is finite.** -/
theorem fits_of_toDouble? {x : Double} (h : literal.toDouble? = some x) :
    x.Fits ∧ x.IsFinite := by
  cases literal with
  | integer value =>
    unfold toDouble? at h
    dsimp only at h
    split at h
    · next hword =>
      obtain rfl := Option.some_inj.mp h
      exact ⟨BinaryFloat.fits_ofRatio BinaryFloat.regular_double _ _ _,
        isFinite_ofNat (natAbs_le_of_isWord hword) _⟩
    · exact Significand.fits_of_toDouble? (Significand.value_ofWhole_le _) h
  | decimal negative whole fraction exponent =>
    refine Significand.fits_of_toDouble? ?_ h
    exact Significand.value_append_le (Significand.value_ofWhole_le whole) fraction

/-- **A number that is read as one of 32 bits fits into them**; it may be infinite. -/
theorem fits_of_toSingle? {x : Single} (h : literal.toSingle? = some x) : x.Fits := by
  have hconvert {o : Option Double} (ho : o.map BinaryFloat.convert = some x) : x.Fits := by
    obtain ⟨y, -, rfl⟩ := Option.map_eq_some_iff.mp ho
    exact BinaryFloat.fits_convert BinaryFloat.regular_single y
  cases literal with
  | integer value =>
    unfold toSingle? at h
    dsimp only at h
    split at h
    · obtain rfl := Option.some_inj.mp h
      exact BinaryFloat.fits_ofRatio BinaryFloat.regular_single _ _ _
    · exact hconvert h
  | decimal negative whole fraction exponent => exact hconvert h

/-- What has a reading as a number of 64 bits has one of 32 bits. -/
theorem isSome_toSingle? (h : literal.toDouble?.isSome) : literal.toSingle?.isSome := by
  cases literal with
  | integer value =>
    unfold toSingle?
    dsimp only
    split
    · rfl
    · rwa [Option.isSome_map]
  | decimal negative whole fraction exponent =>
    unfold toSingle?
    rwa [Option.isSome_map]

end NumberLiteral

end PatchWeaver

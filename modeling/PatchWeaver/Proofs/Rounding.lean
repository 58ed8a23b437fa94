/-
  PatchWeaver.Proofs.Rounding
  ───────────────────────────
  **HOW FAR ROUNDING GOES.**

  A ratio is rounded to a number of units, where a unit is a power of two
  that is chosen such that

      2^(precision - 1)  ≤  ratio / unit  <  2^precision

  unless it is the least unit.  Half a unit is then no more than a part of
  `2^precision` of the ratio, which bounds what rounding adds to it, and a
  ratio that is rounded to infinity is at least

      tooLarge  =  (2^precision - 1/2) · 2^maxExponent

  Reading a decimal rounds twice before the product of the two roundings is
  rounded again, so a decimal has a reading if it stays below `tooLarge` when
  it is rounded up twice (`scalingBound`).

  Main results:
    * `BinaryFloat.fits_ofRatio`, `Fits.scale` — rounding and scaling stay in the format.
    * `BinaryFloat.atMost_ofNat`, `isFinite_ofRatio` — how much is added, and when it is finite.
    * `BinaryFloat.isSome_scale_ofNat` — which products with a power of ten have a reading.
-/
import Mathlib.Algebra.Order.Field.Power
import Mathlib.Tactic.FieldSimp
import Mathlib.Tactic.Linarith
import Mathlib.Tactic.NormNum
import Mathlib.Tactic.Positivity
import Mathlib.Tactic.Ring
import PatchWeaver.Numeral.Scaled

namespace PatchWeaver

/-! ## §1. Ratios and powers of two. -/

/-- The power of an integer, by its positive and its negative part. -/
theorem pow_toNat_div_pow_toNat {b : ℚ} (hb : b ≠ 0) (e : ℤ) :
    b ^ e.toNat / b ^ (-e).toNat = b ^ e := by
  rw [← zpow_natCast, ← zpow_natCast, ← zpow_sub₀ hb]
  congr 1
  omega

/-- A ratio of a number to one that is no larger. -/
theorem one_le_ratio {num den : ℕ} (hden : 0 < den) (h : den ≤ num) : (1 : ℚ) ≤ num / den := by
  have hd : (0 : ℚ) < den := by exact_mod_cast hden
  rw [one_le_div₀ hd]
  exact_mod_cast h

/-- The logarithms of a ratio's parts say between which powers of two it is. -/
theorem ratio_bounds {num den : ℕ} (hnum : 0 < num) (hden : 0 < den) :
    (2 : ℚ) ^ ((num.log2 : ℤ) - den.log2 - 1) < num / den
      ∧ (num : ℚ) / den < 2 ^ ((num.log2 : ℤ) - den.log2 + 1) := by
  have hlow (n : ℕ) (hn : 0 < n) : (2 : ℚ) ^ (n.log2 : ℤ) ≤ n := by
    rw [zpow_natCast]
    exact_mod_cast Nat.log2_self_le (Nat.pos_iff_ne_zero.mp hn)
  have hhigh (n : ℕ) : (n : ℚ) < 2 ^ ((n.log2 : ℤ) + 1) := by
    rw [← Nat.cast_succ, zpow_natCast]
    exact_mod_cast Nat.lt_log2_self
  have hd : (0 : ℚ) < den := by exact_mod_cast hden
  have hsplit (a b : ℤ) : (2 : ℚ) ^ a * 2 ^ b = 2 ^ (a + b) := (zpow_add₀ two_ne_zero a b).symm
  constructor
  · rw [lt_div_iff₀ hd]
    calc (2 : ℚ) ^ ((num.log2 : ℤ) - den.log2 - 1) * den
        < 2 ^ ((num.log2 : ℤ) - den.log2 - 1) * 2 ^ ((den.log2 : ℤ) + 1) := by
          gcongr
          exact hhigh den
      _ = 2 ^ (num.log2 : ℤ) := by rw [hsplit]; congr 1; omega
      _ ≤ num := hlow num hnum
  · rw [div_lt_iff₀ hd]
    calc (num : ℚ) < 2 ^ ((num.log2 : ℤ) + 1) := hhigh num
      _ = 2 ^ ((num.log2 : ℤ) - den.log2 + 1) * 2 ^ (den.log2 : ℤ) := by rw [hsplit]; congr 1; omega
      _ ≤ 2 ^ ((num.log2 : ℤ) - den.log2 + 1) * den := by
          gcongr
          exact hlow den hden

/-! ## §2. Rounding to a natural number. -/

/-- Rounding moves a quotient up by no more than a half. -/
theorem roundHalfEven_le {num den : ℕ} (hden : 0 < den) :
    (roundHalfEven num den : ℚ) ≤ num / den + 1 / 2 := by
  have hnat : 2 * (den * roundHalfEven num den) ≤ 2 * num + den := by
    have hdiv := Nat.div_add_mod num den
    unfold roundHalfEven
    dsimp only
    split
    · omega
    · next hup =>
      have hrest : den ≤ 2 * (num % den) := by omega
      rw [Nat.mul_add, Nat.mul_one]
      omega
  have hd : (0 : ℚ) < den := by exact_mod_cast hden
  have hq : (2 : ℚ) * (den * roundHalfEven num den) ≤ 2 * num + den := by exact_mod_cast hnat
  rw [div_add_div _ _ hd.ne' two_ne_zero, le_div_iff₀ (by positivity)]
  linarith

theorem roundHalfEven_le_succ (num den : ℕ) : roundHalfEven num den ≤ num / den + 1 := by
  unfold roundHalfEven
  dsimp only
  split
  · omega
  · exact le_refl _

theorem div_le_roundHalfEven (num den : ℕ) : num / den ≤ roundHalfEven num den := by
  unfold roundHalfEven
  dsimp only
  split
  · exact le_refl _
  · omega

/-! ## §3. Rounding to a format. -/

/-- A format in which one is neither too large nor too small. -/
structure FloatFormat.Regular (format : FloatFormat) : Prop where
  precision_pos : 0 < format.precision
  exponents_le : format.minExponent ≤ format.maxExponent
  units_le : format.minExponent + format.precision ≤ 1

/-- The least magnitude that is too large for a format. -/
def FloatFormat.tooLarge (format : FloatFormat) : ℚ :=
  (2 ^ format.precision - 1 / 2) * 2 ^ format.maxExponent

namespace BinaryFloat

variable {format : FloatFormat} {num den : ℕ}

theorem scaledRatio_pos (num : ℕ) (hden : 0 < den) (e : ℤ) : 0 < (scaledRatio num den e).2 :=
  Nat.mul_pos hden (Nat.pow_pos (by decide))

theorem scaledRatio_eq (num den : ℕ) (e : ℤ) :
    ((scaledRatio num den e).1 : ℚ) / (scaledRatio num den e).2 = num / den / 2 ^ e := by
  have hpow : (2 : ℚ) ^ (-e).toNat / 2 ^ e.toNat = (2 ^ e)⁻¹ := by
    rw [← pow_toNat_div_pow_toNat two_ne_zero, inv_div]
  unfold scaledRatio
  simp only [Nat.pow_eq, Nat.cast_mul, Nat.cast_pow, Nat.cast_ofNat]
  rw [mul_div_mul_comm, hpow, div_eq_mul_inv _ ((2 : ℚ) ^ e)]

/-- A quotient of natural numbers is below a bound as the ratio is. -/
theorem scaledRatio_div_lt_iff (num : ℕ) (hden : 0 < den) (e : ℤ) (bound : ℕ) :
    (scaledRatio num den e).1 / (scaledRatio num den e).2 < bound
      ↔ (num : ℚ) / den / 2 ^ e < bound := by
  have hpos := scaledRatio_pos num hden e
  have hposq : (0 : ℚ) < (scaledRatio num den e).2 := by exact_mod_cast hpos
  rw [← scaledRatio_eq, Nat.div_lt_iff_lt_mul hpos, div_lt_iff₀ hposq]
  exact_mod_cast Iff.rfl

/-- The exponent of the unit that a ratio is rounded to a multiple of. -/
def unitExponent (format : FloatFormat) (num den : ℕ) : ℤ :=
  let estimate := max ((num.log2 : ℤ) - den.log2 - format.precision) format.minExponent
  let (n, d) := scaledRatio num den estimate
  if n / d < Nat.pow 2 format.precision then estimate else estimate + 1

/-- The ratio is below `2^precision` units; it is half of that at least, unless the unit is the
least one. -/
theorem unitExponent_spec (hnum : 0 < num) (hden : 0 < den) :
    format.minExponent ≤ unitExponent format num den
      ∧ (num : ℚ) / den < 2 ^ (format.precision + unitExponent format num den : ℤ)
      ∧ (2 ^ (format.precision - 1 + unitExponent format num den : ℤ) ≤ (num : ℚ) / den
        ∨ unitExponent format num den = format.minExponent) := by
  obtain ⟨hlow, hhigh⟩ := ratio_bounds hnum hden
  have htwo : (1 : ℚ) < 2 := by norm_num
  unfold unitExponent
  generalize hestimate :
    max ((num.log2 : ℤ) - den.log2 - format.precision) format.minExponent = estimate
  have hsplit : ((Nat.pow 2 format.precision : ℕ) : ℚ) * 2 ^ estimate
      = 2 ^ (format.precision + estimate : ℤ) := by
    rw [Nat.pow_eq, Nat.cast_pow, Nat.cast_ofNat, ← zpow_natCast, ← zpow_add₀ two_ne_zero]
  have hunit : (0 : ℚ) < 2 ^ estimate := by positivity
  have hquotient := scaledRatio_div_lt_iff num hden estimate (Nat.pow 2 format.precision)
  rw [div_lt_iff₀ hunit, hsplit] at hquotient
  dsimp only
  by_cases hfits : (num : ℚ) / den < 2 ^ (format.precision + estimate : ℤ)
  · rw [if_pos (hquotient.mpr hfits)]
    refine ⟨by omega, hfits, ?_⟩
    by_cases hmin : estimate = format.minExponent
    · exact .inr hmin
    · refine .inl (le_of_lt (lt_of_le_of_lt ?_ hlow))
      exact zpow_le_zpow_right₀ htwo.le (by omega)
  · rw [if_neg (mt hquotient.mp hfits)]
    refine ⟨by omega, lt_of_lt_of_le hhigh ?_, .inl (le_trans ?_ (le_of_not_gt hfits))⟩
    · exact zpow_le_zpow_right₀ htwo.le (by omega)
    · exact zpow_le_zpow_right₀ htwo.le (by omega)

/-- The units that are nearest to a ratio. -/
def nearestUnits (format : FloatFormat) (num den : ℕ) : ℕ :=
  let (n, d) := scaledRatio num den (unitExponent format num den)
  roundHalfEven n d

/-- Mantissa and exponent of the number nearest to a positive ratio. -/
def nearest (format : FloatFormat) (num den : ℕ) : ℕ × ℤ :=
  let mantissa := nearestUnits format num den
  let exponent := unitExponent format num den
  if mantissa = Nat.pow 2 format.precision then (mantissa / 2, exponent + 1)
  else (mantissa, exponent)

theorem ofRatio_of_pos (negative : Bool) (hnum : 0 < num) :
    (ofRatio negative num den : BinaryFloat format)
      = if format.maxExponent < (nearest format num den).2 then .infinite negative
        else .finite negative (nearest format num den).1 (nearest format num den).2 := by
  have hne : num ≠ 0 := Nat.pos_iff_ne_zero.mp hnum
  unfold ofRatio
  rw [if_neg hne]
  rfl

section

variable (format) (hnum : 0 < num) (hden : 0 < den)

include hden

/-- The nearest units are no further up than half a unit. -/
theorem nearestUnits_le :
    (nearestUnits format num den : ℚ)
      ≤ num / den / 2 ^ unitExponent format num den + 1 / 2 := by
  unfold nearestUnits
  rw [← scaledRatio_eq]
  exact roundHalfEven_le (scaledRatio_pos num hden _)

include hnum

omit hden in
theorem nearestUnits_le_limit : nearestUnits format num den ≤ 2 ^ format.precision := by
  have hsucc := roundHalfEven_le_succ (scaledRatio num den (unitExponent format num den)).1
    (scaledRatio num den (unitExponent format num den)).2
  have hfloor : (scaledRatio num den (unitExponent format num den)).1
      / (scaledRatio num den (unitExponent format num den)).2 < 2 ^ format.precision := by
    by_cases hden : 0 < den
    · rw [scaledRatio_div_lt_iff num hden, div_lt_iff₀ (by positivity), Nat.cast_pow,
        Nat.cast_ofNat, ← zpow_natCast, ← zpow_add₀ two_ne_zero]
      exact (unitExponent_spec hnum hden).2.1
    · -- a quotient by zero is zero
      obtain rfl : den = 0 := Nat.eq_zero_of_not_pos hden
      simp [scaledRatio]
  exact Nat.le_trans hsucc hfloor

omit hden in
/-- The mantissa has no more bits than the format. -/
theorem nearest_lt : (nearest format num den).1 < 2 ^ format.precision := by
  have hle := @nearestUnits_le_limit format num den hnum
  have hpos : 0 < 2 ^ format.precision := Nat.pow_pos (by decide)
  unfold nearest
  rw [Nat.pow_eq]
  dsimp only
  split
  · dsimp only
    omega
  · dsimp only
    omega

omit hnum hden in
/-- Carrying over into another bit keeps the value. -/
theorem nearest_value (hprecision : 0 < format.precision) :
    ((nearest format num den).1 : ℚ) * 2 ^ (nearest format num den).2
      = nearestUnits format num den * 2 ^ unitExponent format num den := by
  unfold nearest
  rw [Nat.pow_eq]
  dsimp only
  split
  · next hcarry =>
    obtain ⟨k, hk⟩ : ∃ k, format.precision = k + 1 := ⟨format.precision - 1, by omega⟩
    dsimp only
    rw [hcarry, hk, Nat.pow_succ, Nat.mul_div_cancel _ (by decide), zpow_add_one₀ two_ne_zero]
    push_cast
    ring
  · rfl

/-- **A ratio of at least one is rounded up by no more than a part of `2^precision`.** -/
theorem nearest_le (hprecision : 0 < format.precision)
    (hmin : format.minExponent + format.precision ≤ 1) (hone : den ≤ num) :
    ((nearest format num den).1 : ℚ) * 2 ^ (nearest format num den).2
      ≤ num / den * (1 + 2 ^ (-format.precision : ℤ)) := by
  have hlow := (@unitExponent_spec format num den hnum hden).2.2
  have hunits := @nearestUnits_le format num den hden
  rw [nearest_value format hprecision]
  generalize unitExponent format num den = e at *
  have hratio := one_le_ratio hden hone
  -- there are so many units that half of one is but a small part of the ratio
  have hmany : (2 : ℚ) ^ (format.precision - 1 + e : ℤ) ≤ num / den := by
    rcases hlow with hlow | hleast
    · exact hlow
    · refine le_trans ?_ hratio
      rw [hleast]
      exact zpow_le_one_of_nonpos₀ one_le_two (by omega)
  have hhalf : (2 : ℚ) ^ e / 2
      = 2 ^ (format.precision - 1 + e : ℤ) * 2 ^ (-format.precision : ℤ) := by
    rw [div_eq_mul_inv, ← zpow_sub_one₀ (two_ne_zero' ℚ), ← zpow_add₀ (two_ne_zero' ℚ)]
    congr 1
    omega
  have he : (0 : ℚ) < 2 ^ e := by positivity
  calc (nearestUnits format num den : ℚ) * 2 ^ e
      ≤ (num / den / 2 ^ e + 1 / 2) * 2 ^ e := by gcongr
    _ = num / den + 2 ^ e / 2 := by field_simp
    _ ≤ num / den + num / den * 2 ^ (-format.precision : ℤ) := by
        rw [hhalf]
        gcongr
    _ = num / den * (1 + 2 ^ (-format.precision : ℤ)) := by ring

/-- A ratio of at least one is not rounded to less. -/
theorem one_le_nearest (h : format.Regular) (hone : den ≤ num) :
    (1 : ℚ) ≤ (nearest format num den).1 * 2 ^ (nearest format num den).2 := by
  have hlow := (@unitExponent_spec format num den hnum hden).2.2
  have hfloor (k : ℕ) (hk : (k : ℚ) ≤ num / den / 2 ^ unitExponent format num den) :
      k ≤ nearestUnits format num den := by
    refine Nat.le_trans (Nat.le_of_not_lt fun hlt => ?_) (div_le_roundHalfEven _ _)
    exact absurd ((scaledRatio_div_lt_iff num hden _ k).mp hlt) (not_lt.mpr hk)
  rw [nearest_value format h.precision_pos]
  generalize unitExponent format num den = e at *
  have hunit : (0 : ℚ) < 2 ^ e := by positivity
  have hprecision := h.precision_pos
  have hunits := h.units_le
  by_cases hsmall : e ≤ 0
  · -- one is a number of units
    obtain ⟨k, rfl⟩ : ∃ k : ℕ, e = -k := ⟨(-e).toNat, by omega⟩
    have hratio := one_le_ratio hden hone
    have hmany : ((2 ^ k : ℕ) : ℚ) ≤ nearestUnits format num den := by
      refine Nat.cast_le.mpr (hfloor _ ?_)
      rw [Nat.cast_pow, Nat.cast_ofNat, zpow_neg, zpow_natCast, div_inv_eq_mul]
      exact le_mul_of_one_le_left (by positivity) hratio
    calc (1 : ℚ) = (2 ^ k : ℕ) * 2 ^ (-k : ℤ) := by
          rw [Nat.cast_pow, Nat.cast_ofNat, zpow_neg, zpow_natCast, mul_inv_cancel₀ (by positivity)]
      _ ≤ nearestUnits format num den * 2 ^ (-k : ℤ) := by gcongr
  · -- the unit is at least one, and there is one at least
    have hratio : (2 : ℚ) ^ e ≤ num / den := by
      rcases hlow with hlow | hleast
      · exact le_trans (zpow_le_zpow_right₀ one_le_two (by omega)) hlow
      · omega
    have hmany : ((1 : ℕ) : ℚ) ≤ nearestUnits format num den := by
      refine Nat.cast_le.mpr (hfloor 1 ?_)
      rwa [Nat.cast_one, one_le_div₀ hunit]
    have hlarge : (1 : ℚ) ≤ 2 ^ e := one_le_zpow₀ one_le_two (by omega)
    rw [Nat.cast_one] at hmany
    exact le_trans hlarge (le_mul_of_one_le_left hunit.le hmany)

/-- **A ratio below the first number that is too large** is not rounded to infinity. -/
theorem nearest_exponent_le (hformat : format.minExponent ≤ format.maxExponent)
    (hbound : (num : ℚ) / den < format.tooLarge) :
    (nearest format num den).2 ≤ format.maxExponent := by
  have hlow := (@unitExponent_spec format num den hnum hden).2.2
  have hunits := @nearestUnits_le format num den hden
  unfold nearest
  rw [Nat.pow_eq]
  generalize unitExponent format num den = e at *
  have he : (0 : ℚ) < 2 ^ e := by positivity
  dsimp only
  split
  · next hcarry =>
    rw [hcarry, Nat.cast_pow, Nat.cast_ofNat] at hunits
    have hfull : ((2 : ℚ) ^ format.precision - 1 / 2) * 2 ^ e ≤ num / den := by
      rw [← le_div_iff₀ he]
      linarith
    have hpow : (2 : ℚ) ^ e < 2 ^ format.maxExponent := by
      refine lt_of_mul_lt_mul_left (lt_of_le_of_lt hfull hbound) ?_
      have : (1 : ℚ) ≤ 2 ^ format.precision := one_le_pow₀ one_le_two
      linarith
    have hlt := (zpow_lt_zpow_iff_right₀ one_lt_two).mp hpow
    dsimp only
    omega
  · rcases hlow with hlow | hleast
    · have hpow : (2 : ℚ) ^ (format.precision - 1 + e : ℤ)
          < 2 ^ (format.precision + format.maxExponent : ℤ) := by
        refine lt_of_le_of_lt hlow (lt_trans hbound ?_)
        rw [zpow_add₀ two_ne_zero, zpow_natCast]
        unfold FloatFormat.tooLarge
        gcongr
        linarith
      have hlt := (zpow_lt_zpow_iff_right₀ one_lt_two).mp hpow
      dsimp only
      omega
    · dsimp only
      omega

end

/-! ## §4. What fits into a format. -/

/-- A number that fits into its format. -/
def Fits : BinaryFloat format → Prop
  | .finite _ mantissa exponent =>
    mantissa < 2 ^ format.precision ∧ exponent ≤ format.maxExponent
  | .infinite _ => True

theorem fits_zero (h : format.Regular) (negative : Bool) :
    (zero negative : BinaryFloat format).Fits :=
  ⟨Nat.pow_pos (by decide), h.exponents_le⟩

/-- **What is rounded to a format fits into it.** -/
theorem fits_ofRatio (h : format.Regular) (negative : Bool) (num den : ℕ) :
    (ofRatio negative num den : BinaryFloat format).Fits := by
  by_cases hnum : 0 < num
  · rw [ofRatio_of_pos negative hnum]
    split
    · trivial
    · next hle => exact ⟨nearest_lt format hnum, le_of_not_gt hle⟩
  · obtain rfl : num = 0 := Nat.eq_zero_of_not_pos hnum
    exact fits_zero h negative

theorem fits_convert {target : FloatFormat} (h : target.Regular) (x : BinaryFloat format) :
    (x.convert : BinaryFloat target).Fits := by
  cases x with
  | finite negative m e => exact fits_ofRatio h negative _ _
  | infinite negative => trivial

theorem fits_times (h : format.Regular) (x y : BinaryFloat format) : (x.times y).Fits := by
  cases x with
  | finite negative m e =>
    cases y with
    | finite _ m' e' => exact fits_ofRatio h negative _ _
    | infinite _ => trivial
  | infinite negative => trivial

theorem fits_dividedBy (h : format.Regular) (x y : BinaryFloat format) :
    (x.dividedBy y).Fits := by
  cases x with
  | finite negative m e =>
    cases y with
    | finite _ m' e' => exact fits_ofRatio h negative _ _
    | infinite _ => exact fits_zero h negative
  | infinite negative => trivial

theorem Fits.withSign {x : BinaryFloat format} (h : x.Fits) (negative : Bool) :
    (x.withSign negative).Fits := by
  cases x with
  | finite _ m e => exact h
  | infinite _ => trivial

theorem regular_single : FloatFormat.single.Regular := ⟨by decide, by decide, by decide⟩

theorem regular_double : FloatFormat.double.Regular := ⟨by decide, by decide, by decide⟩

/-- Scaling gives numbers that fit. -/
theorem Fits.scale {x y : Double} {exponent : ℤ} (h : x.Fits) (hy : x.scale exponent = some y) :
    y.Fits := by
  induction x, exponent using scale.induct with
  | case1 x e hup hmost negative hinfinite =>
    rw [BinaryFloat.scale, if_pos hup, if_pos hmost, hinfinite] at hy
    contradiction
  | case2 x e hup hmost hfinite =>
    rw [BinaryFloat.scale, if_pos hup, if_pos hmost] at hy
    split at hy
    · contradiction
    · obtain rfl := Option.some_inj.mp hy
      exact fits_times regular_double _ _
  | case3 x e hup hmost hzero =>
    rw [BinaryFloat.scale, if_pos hup, if_neg hmost, if_pos hzero] at hy
    obtain rfl := Option.some_inj.mp hy
    exact h
  | case4 x e hup hmost hzero =>
    rw [BinaryFloat.scale, if_pos hup, if_neg hmost, if_neg hzero] at hy
    contradiction
  | case5 x e hdown hmost =>
    rw [BinaryFloat.scale, if_neg hdown, if_pos hmost] at hy
    obtain rfl := Option.some_inj.mp hy
    exact fits_dividedBy regular_double _ _
  | case6 x e hdown hmost hzero =>
    rw [BinaryFloat.scale, if_neg hdown, if_neg hmost, if_pos hzero] at hy
    obtain rfl := Option.some_inj.mp hy
    exact h
  | case7 x e hdown hmost hzero ih =>
    rw [BinaryFloat.scale, if_neg hdown, if_neg hmost, if_neg hzero] at hy
    exact ih (fits_dividedBy regular_double _ _) hy

/-! ## §5. What is not too large. -/

/-- Whether a number is finite. -/
def IsFinite : BinaryFloat format → Prop
  | .finite .. => True
  | .infinite _ => False

instance : DecidablePred (@IsFinite format)
  | .finite .. => isTrue trivial
  | .infinite _ => isFalse id

/-- A finite number of at most some magnitude. -/
def AtMost (bound : ℚ) : BinaryFloat format → Prop
  | .finite _ mantissa exponent => (mantissa : ℚ) * 2 ^ exponent ≤ bound
  | .infinite _ => False

theorem magnitude_pos (m : ℕ) (e : ℤ) : 0 < (magnitude m e).2 := Nat.pow_pos (by decide)

theorem magnitude_eq (m : ℕ) (e : ℤ) :
    ((magnitude m e).1 : ℚ) / (magnitude m e).2 = m * 2 ^ e := by
  rw [← pow_toNat_div_pow_toNat two_ne_zero e, ← mul_div_assoc]
  unfold magnitude
  simp only [Nat.pow_eq, Nat.cast_mul, Nat.cast_pow, Nat.cast_ofNat]

theorem isFinite_ofRatio (h : format.Regular) (negative : Bool) (hden : 0 < den)
    (hbound : (num : ℚ) / den < format.tooLarge) :
    (ofRatio negative num den : BinaryFloat format).IsFinite := by
  by_cases hnum : 0 < num
  · have hle := nearest_exponent_le format hnum hden h.exponents_le hbound
    rw [ofRatio_of_pos negative hnum, if_neg (not_lt.mpr hle)]
    trivial
  · obtain rfl : num = 0 := Nat.eq_zero_of_not_pos hnum
    trivial

/-- **A natural number is rounded up by no more than a part of `2^precision`.** -/
theorem atMost_ofNat (h : format.Regular) (negative : Bool) {n : ℕ}
    (hbound : (n : ℚ) < format.tooLarge) :
    (ofNat negative n : BinaryFloat format).AtMost (n * (1 + 2 ^ (-format.precision : ℤ))) := by
  unfold ofNat
  by_cases hn : 0 < n
  · have hratio : (n : ℚ) / (1 : ℕ) = n := by simp
    rw [← hratio] at hbound
    have hle := nearest_exponent_le format hn Nat.one_pos h.exponents_le hbound
    have hvalue := nearest_le format hn Nat.one_pos h.precision_pos h.units_le hn
    rw [ofRatio_of_pos negative hn, if_neg (not_lt.mpr hle)]
    rw [hratio] at hvalue
    exact hvalue
  · obtain rfl : n = 0 := Nat.eq_zero_of_not_pos hn
    simp [ofRatio, zero, AtMost]

/-- A product is finite if the product of the bounds is not too large. -/
theorem AtMost.times {x y : BinaryFloat format} {a b : ℚ} (h : format.Regular) (hx : x.AtMost a)
    (hy : y.AtMost b) (hbound : a * b < format.tooLarge) : (x.times y).IsFinite := by
  cases x with
  | infinite _ => exact hx.elim
  | finite negative m e =>
    cases y with
    | infinite _ => exact hy.elim
    | finite _ m' e' =>
      refine isFinite_ofRatio h negative (Nat.mul_pos (magnitude_pos m e) (magnitude_pos m' e')) ?_
      show (((magnitude m e).1 * (magnitude m' e').1 : ℕ) : ℚ)
        / ((magnitude m e).2 * (magnitude m' e').2 : ℕ) < format.tooLarge
      rw [Nat.cast_mul, Nat.cast_mul, mul_div_mul_comm, magnitude_eq, magnitude_eq]
      refine lt_of_le_of_lt ?_ hbound
      have hnonneg : (0 : ℚ) ≤ m * 2 ^ e := by positivity
      exact mul_le_mul hx hy (by positivity) (le_trans hnonneg hx)

/-- A number of at least some magnitude. -/
def AtLeast (bound : ℚ) : BinaryFloat format → Prop
  | .finite _ mantissa exponent => bound ≤ (mantissa : ℚ) * 2 ^ exponent
  | .infinite _ => True

theorem atLeast_one_ofNat (h : format.Regular) (negative : Bool) {n : ℕ} (hn : 0 < n) :
    (ofNat negative n : BinaryFloat format).AtLeast 1 := by
  unfold ofNat
  rw [ofRatio_of_pos negative hn]
  split
  · trivial
  · exact one_le_nearest format hn Nat.one_pos h hn

/-- What fits into a format is not too large for it. -/
theorem Fits.lt_tooLarge {negative : Bool} {m : ℕ} {e : ℤ}
    (h : (.finite negative m e : BinaryFloat format).Fits) :
    (m : ℚ) * 2 ^ e < format.tooLarge := by
  have hm : (m : ℚ) + 1 ≤ 2 ^ format.precision := by exact_mod_cast h.1
  have hpow : (2 : ℚ) ^ e ≤ 2 ^ format.maxExponent := zpow_le_zpow_right₀ one_le_two h.2
  have hunit : (0 : ℚ) < 2 ^ format.maxExponent := by positivity
  unfold FloatFormat.tooLarge
  calc (m : ℚ) * 2 ^ e ≤ m * 2 ^ format.maxExponent := by gcongr
    _ < (2 ^ format.precision - 1 / 2) * 2 ^ format.maxExponent := by
        gcongr
        linarith

/-- **Dividing a number by one that is at least one gives a number.** -/
theorem isFinite_dividedBy {x y : BinaryFloat format} (h : format.Regular) (hfits : x.Fits)
    (hx : x.IsFinite) (hy : y.AtLeast 1) : (x.dividedBy y).IsFinite := by
  cases x with
  | infinite _ => exact hx.elim
  | finite negative m e =>
    cases y with
    | infinite _ => trivial
    | finite _ m' e' =>
      have hone : (1 : ℚ) ≤ (magnitude m' e').1 / (magnitude m' e').2 := by
        rw [magnitude_eq]
        exact hy
      have hpos : 0 < (magnitude m' e').1 := by
        by_contra hzero
        rw [Nat.eq_zero_of_not_pos hzero, Nat.cast_zero, zero_div] at hone
        linarith
      refine isFinite_ofRatio h negative (Nat.mul_pos (magnitude_pos m e) hpos) ?_
      show (((magnitude m e).1 * (magnitude m' e').2 : ℕ) : ℚ)
        / ((magnitude m e).2 * (magnitude m' e').1 : ℕ) < format.tooLarge
      rw [Nat.cast_mul, Nat.cast_mul, ← div_div_div_eq, magnitude_eq]
      refine lt_of_le_of_lt (div_le_self ?_ hone) hfits.lt_tooLarge
      positivity

/-- **Scaling never leads to infinity.** -/
theorem IsFinite.scale {x y : Double} {exponent : ℤ} (hx : x.IsFinite) (hfits : x.Fits)
    (hy : x.scale exponent = some y) : y.IsFinite := by
  have hquotient (x : Double) (hfits : x.Fits) (hx : x.IsFinite) (k : ℕ) :
      (x.dividedBy (powerOfTen k)).IsFinite :=
    isFinite_dividedBy regular_double hfits hx
      (atLeast_one_ofNat regular_double false (Nat.pow_pos (by decide)))
  induction x, exponent using scale.induct with
  | case1 x e hup hmost negative hinfinite =>
    rw [BinaryFloat.scale, if_pos hup, if_pos hmost, hinfinite] at hy
    contradiction
  | case2 x e hup hmost hfinite =>
    rw [BinaryFloat.scale, if_pos hup, if_pos hmost] at hy
    cases hproduct : x.times (powerOfTen e.toNat) with
    | infinite negative => exact (hfinite negative hproduct).elim
    | finite negative m k =>
      rw [hproduct] at hy
      obtain rfl := Option.some_inj.mp hy
      trivial
  | case3 x e hup hmost hzero =>
    rw [BinaryFloat.scale, if_pos hup, if_neg hmost, if_pos hzero] at hy
    obtain rfl := Option.some_inj.mp hy
    exact hx
  | case4 x e hup hmost hzero =>
    rw [BinaryFloat.scale, if_pos hup, if_neg hmost, if_neg hzero] at hy
    contradiction
  | case5 x e hdown hmost =>
    rw [BinaryFloat.scale, if_neg hdown, if_pos hmost] at hy
    obtain rfl := Option.some_inj.mp hy
    exact hquotient x hfits hx _
  | case6 x e hdown hmost hzero =>
    rw [BinaryFloat.scale, if_neg hdown, if_neg hmost, if_pos hzero] at hy
    obtain rfl := Option.some_inj.mp hy
    exact hx
  | case7 x e hdown hmost hzero ih =>
    rw [BinaryFloat.scale, if_neg hdown, if_neg hmost, if_neg hzero] at hy
    exact ih (hquotient x hfits hx maxPower) (fits_dividedBy regular_double _ _) hy

/-- Dividing by a power of ten always gives a number. -/
theorem isSome_scale_of_neg (x : Double) {exponent : ℤ} (h : exponent < 0) :
    (x.scale exponent).isSome := by
  induction x, exponent using scale.induct with
  | case1 x e hup | case2 x e hup | case3 x e hup | case4 x e hup => omega
  | case5 x e hdown hmost =>
    rw [BinaryFloat.scale, if_neg hdown, if_pos hmost]
    rfl
  | case6 x e hdown hmost hzero =>
    rw [BinaryFloat.scale, if_neg hdown, if_neg hmost, if_pos hzero]
    rfl
  | case7 x e hdown hmost hzero ih =>
    rw [BinaryFloat.scale, if_neg hdown, if_neg hmost, if_neg hzero]
    exact ih (by omega)

theorem tooLarge_double : FloatFormat.double.tooLarge = (2 ^ 54 - 1) * 2 ^ 970 := by
  have hpow : (2 : ℚ) ^ FloatFormat.double.maxExponent = 2 ^ 970 * 2 := by
    show (2 : ℚ) ^ ((970 : ℕ) + 1 : ℤ) = _
    rw [zpow_add_one₀ two_ne_zero, zpow_natCast]
  unfold FloatFormat.tooLarge
  rw [hpow]
  generalize (2 : ℚ) ^ 970 = unit
  norm_num [FloatFormat.double]
  ring

/-- The largest power of ten is a number of 64 bits. -/
theorem pow_maxPower_lt : (10 : ℚ) ^ maxPower < FloatFormat.double.tooLarge := by
  have hnat : 10 ^ maxPower + 2 ^ 970 < 2 ^ 54 * 2 ^ 970 := by decide +kernel
  have hcast : ((10 ^ maxPower + 2 ^ 970 : ℕ) : ℚ) < (2 ^ 54 * 2 ^ 970 : ℕ) :=
    Nat.cast_lt.mpr hnat
  simp only [Nat.cast_add, Nat.cast_mul, Nat.cast_pow, Nat.cast_ofNat] at hcast
  rw [tooLarge_double]
  generalize (2 : ℚ) ^ 970 = unit at *
  linarith

/-- A magnitude that stays a number when it is rounded up twice. -/
def scalingBound : ℚ := (2 ^ 54 - 5) * 2 ^ 970

theorem scalingBound_lt_pow : scalingBound < 10 ^ (maxPower + 1) := by
  have hnat : 2 ^ 54 * 2 ^ 970 < 10 ^ (maxPower + 1) := by decide +kernel
  have hcast : ((2 ^ 54 * 2 ^ 970 : ℕ) : ℚ) < (10 ^ (maxPower + 1) : ℕ) := Nat.cast_lt.mpr hnat
  simp only [Nat.cast_mul, Nat.cast_pow, Nat.cast_ofNat] at hcast
  have hunit : (0 : ℚ) < 2 ^ 970 := by positivity
  unfold scalingBound
  generalize (2 : ℚ) ^ 970 = unit at *
  linarith

theorem scalingBound_lt : scalingBound < FloatFormat.double.tooLarge := by
  rw [tooLarge_double]
  unfold scalingBound
  gcongr
  norm_num

theorem scalingBound_twice_rounded :
    scalingBound * (1 + 2 ^ (-53 : ℤ)) ^ 2 < FloatFormat.double.tooLarge := by
  rw [tooLarge_double]
  unfold scalingBound
  have hunit : (0 : ℚ) < 2 ^ 970 := by positivity
  rw [mul_right_comm]
  gcongr
  norm_num

/-- **A natural number times a power of ten has a reading, unless it is nearly too large.** -/
theorem isSome_scale_ofNat {n : ℕ} {exponent : ℤ} (h : (n : ℚ) * 10 ^ exponent ≤ scalingBound) :
    ((ofNat false n : Double).scale exponent).isSome := by
  by_cases hneg : exponent < 0
  · exact isSome_scale_of_neg _ hneg
  obtain ⟨k, rfl⟩ : ∃ k : ℕ, exponent = k := ⟨exponent.toNat, by omega⟩
  rw [zpow_natCast] at h
  rw [scale, if_pos (by omega)]
  by_cases hk : k ≤ maxPower
  · have hpower : ((10 ^ k : ℕ) : ℚ) < FloatFormat.double.tooLarge := by
      have hle : (10 : ℚ) ^ k ≤ 10 ^ maxPower := pow_le_pow_right₀ (by norm_num) hk
      rw [Nat.cast_pow, Nat.cast_ofNat]
      exact lt_of_le_of_lt hle pow_maxPower_lt
    have hn : (n : ℚ) < FloatFormat.double.tooLarge := by
      have hone : (1 : ℚ) ≤ 10 ^ k := one_le_pow₀ (by norm_num)
      exact lt_of_le_of_lt (le_trans (le_mul_of_one_le_right n.cast_nonneg hone) h) scalingBound_lt
    have hfinite : ((ofNat false n).times (powerOfTen k)).IsFinite := by
      refine (atMost_ofNat regular_double false hn).times regular_double
        (atMost_ofNat regular_double false hpower) (lt_of_le_of_lt ?_ scalingBound_twice_rounded)
      rw [mul_mul_mul_comm, ← sq, Nat.pow_eq, Nat.cast_pow, Nat.cast_ofNat]
      show _ * (1 + 2 ^ (-53 : ℤ)) ^ 2 ≤ _
      gcongr
    rw [if_pos (by exact_mod_cast hk), Int.toNat_natCast]
    split
    · next hinfinite =>
      rw [hinfinite] at hfinite
      exact hfinite.elim
    · rfl
  · -- times so large a power only zero is no larger than the bound
    have hzero : n = 0 := by
      by_contra hne
      have hone : (1 : ℚ) ≤ n := by exact_mod_cast Nat.one_le_iff_ne_zero.mpr hne
      have hlarge : (10 : ℚ) ^ (maxPower + 1) ≤ 10 ^ k :=
        pow_le_pow_right₀ (by norm_num) (by omega)
      have hpos : (0 : ℚ) < 10 ^ k := by positivity
      refine absurd (lt_of_lt_of_le scalingBound_lt_pow hlarge) (not_lt.mpr (le_trans ?_ h))
      exact le_mul_of_one_le_left hpos.le hone
    subst hzero
    rw [if_neg (by exact_mod_cast hk)]
    rfl

end BinaryFloat

end PatchWeaver

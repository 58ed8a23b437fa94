/-
  PatchWeaver.Proofs.NumberText
  ─────────────────────────────
  **WRITTEN NUMBERS ARE READ BACK.**

  The text of a number is a sign, a whole part, digits behind a point and a
  power of ten, of which all but the whole part may be missing.  A reader
  takes as many digits as there are, so a part ends where no digit follows;
  behind the last part stands a text that is `Closed`.

  A literal is plain if this text stands for it again: a decimal has a point
  or a power of ten, or else it would be taken for an integer, and it has to
  be within the numbers of 64 bits.

  Main results:
    * `readNumber?_toString` — integers.
    * `readNumber?_numberText` — all plain literals.
-/
import Mathlib.Data.List.Basic
import PatchWeaver.Json.Printer
import PatchWeaver.Json.Reader

namespace PatchWeaver

/-- Whether a literal reads back as it is written. -/
def NumberLiteral.isPlain : NumberLiteral → Bool
  | .integer value => isWord value
  | .decimal negative whole fraction exponent =>
    (!fraction.isEmpty || exponent.isSome)
      && (NumberLiteral.decimal negative whole fraction exponent).toDouble?.isSome

namespace Json

/-! ## §1. Where a number ends. -/

/-- Texts that may follow a value. -/
inductive Closed : List Char → Prop where
  | nil : Closed []
  | comma (rest : List Char) : Closed (',' :: rest)
  | line (rest : List Char) : Closed ('\n' :: rest)

/-- No digit stands in front of a text. -/
def EndsDigits (cs : List Char) : Prop := ∀ c ∈ cs.head?, digit? c = none

theorem endsDigits_cons {c : Char} (h : digit? c = none) (cs : List Char) :
    EndsDigits (c :: cs) := by
  intro d hd
  obtain rfl := Option.some_inj.mp hd
  exact h

theorem Closed.endsDigits {cs : List Char} (h : Closed cs) : EndsDigits cs := by
  cases h with
  | nil => exact fun _ hc => nomatch hc
  | comma rest => exact endsDigits_cons (by decide) rest
  | line rest => exact endsDigits_cons (by decide) rest

/-! ## §2. Digits. -/

theorem digit?_toChar (d : Digit) : digit? d.toChar = some d := by
  revert d
  decide

theorem digitChar_eq_toChar : ∀ d : Digit, Nat.digitChar d.val = d.toChar := by decide

theorem toChar_ne_sign : ∀ d : Digit, d.toChar ≠ '-' := by decide

/-- The digits of a number, as they are written. -/
theorem exists_digits (n : Nat) :
    ∃ d ds, Nat.toDigits 10 n = (d :: ds).map Digit.toChar ∧ ofDigits (d :: ds) = n
      ∧ (d.val = 0 → n = 0 ∧ ds = []) := by
  induction n using Nat.strongRecOn with
  | _ n ih =>
    by_cases hlt : n < 10
    · refine ⟨⟨n, hlt⟩, [], ?_, ?_, fun hzero => ⟨hzero, rfl⟩⟩
      · rw [Nat.toDigits_of_lt_base hlt]
        exact congrArg (· :: []) (digitChar_eq_toChar ⟨n, hlt⟩)
      · simp [ofDigits]
    · obtain ⟨d, ds, hchars, hvalue, hzero⟩ := ih (n / 10) (by omega)
      have hlast : n % 10 < 10 := Nat.mod_lt n (by decide)
      refine ⟨d, ds ++ [⟨n % 10, hlast⟩], ?_, ?_, fun hd => ?_⟩
      · rw [Nat.toDigits_of_base_le (by decide) (by omega), hchars, ← List.cons_append,
          List.map_append]
        exact congrArg _ (congrArg (· :: []) (digitChar_eq_toChar ⟨n % 10, hlast⟩))
      · unfold ofDigits at hvalue ⊢
        rw [← List.cons_append, List.foldl_append, hvalue]
        show n / 10 * 10 + n % 10 = n
        omega
      · -- the digits of a number that is left do not begin with a zero
        have := (hzero hd).1
        omega

theorem readDigits_append (ds : List Digit) {rest : List Char} (h : EndsDigits rest)
    (read : List Digit) :
    readDigits (ds.map Digit.toChar ++ rest) read = (read.reverse ++ ds, rest) := by
  induction ds generalizing read with
  | nil =>
    cases rest with
    | nil => simp [readDigits]
    | cons c cs => simp [readDigits, h c rfl]
  | cons d ds ih => simp [readDigits, digit?_toChar, ih]

/-- The digits of a number are read up to where they end. -/
theorem exists_readDigits (n : Nat) {rest : List Char} (h : EndsDigits rest) :
    ∃ d ds, readDigits (Nat.toDigits 10 n ++ rest) [] = (d :: ds, rest) ∧ ofDigits (d :: ds) = n
      ∧ (d.val = 0 → ds = []) := by
  obtain ⟨d, ds, hchars, hvalue, hzero⟩ := exists_digits n
  refine ⟨d, ds, ?_, hvalue, fun hd => (hzero hd).2⟩
  rw [hchars]
  exact readDigits_append (d :: ds) h []

/-- A number is read up to where it ends. -/
theorem readWhole?_toDigits (n : Nat) {rest : List Char} (h : EndsDigits rest) :
    readWhole? (Nat.toDigits 10 n ++ rest) = some (n, rest) := by
  obtain ⟨d, ds, hread, hvalue, hzero⟩ := exists_readDigits n h
  unfold readWhole?
  rw [hread]
  dsimp only
  rw [if_neg, hvalue]
  intro hleading
  rw [hzero hleading.1] at hleading
  exact absurd hleading.2 (by decide)

/-! ## §3. Integers. -/

theorem readUnsigned?_toDigits (negative : Bool) (n : Nat) (hsign : negative = true → n ≠ 0)
    {rest : List Char} (h : Closed rest) :
    readUnsigned? negative (Nat.toDigits 10 n ++ rest)
      = some (.integer (if negative then -(n : Int) else n), rest) := by
  have hfraction : readFraction? rest = some ([], rest) := by cases h <;> rfl
  have hexponent : readExponent? rest = some (none, rest) := by cases h <;> rfl
  have hinteger : ([] : List Digit).isEmpty = true ∧ (none : Option Int).isNone = true
      ∧ ¬ (negative = true ∧ n = 0) := ⟨rfl, rfl, fun hzero => hsign hzero.1 hzero.2⟩
  unfold readUnsigned?
  simp only [readWhole?_toDigits n h.endsDigits, hfraction, hexponent, Option.bind_eq_bind,
    Option.bind_some]
  rw [if_pos hinteger]
  rfl

/-- What is behind a missing sign is read as it stands. -/
theorem readNumber?_toDigits (n : Nat) (cs : List Char) :
    readNumber? (Nat.toDigits 10 n ++ cs) = readUnsigned? false (Nat.toDigits 10 n ++ cs) := by
  obtain ⟨d, ds, hchars, -, -⟩ := exists_digits n
  unfold readNumber?
  split
  · next cs' heq =>
    -- no digit is a sign
    rw [hchars] at heq
    exact absurd (List.cons.inj heq).1 (toChar_ne_sign d)
  · rfl

/-- **An integer is read as it is written.** -/
theorem readNumber?_toString (i : Int) {rest : List Char} (h : Closed rest) :
    readNumber? ((toString i).toList ++ rest) = some (.integer i, rest) := by
  rw [Int.toString_eq_repr, Int.repr_eq_if]
  by_cases hnonneg : 0 ≤ i
  · rw [if_pos hnonneg, Nat.toList_repr, readNumber?_toDigits,
      readUnsigned?_toDigits false i.toNat (by simp) h]
    simp [Int.toNat_of_nonneg hnonneg]
  · have hread := readUnsigned?_toDigits true (-i).toNat (by omega) h
    rw [if_neg hnonneg, String.toList_append, Nat.toList_repr]
    show readUnsigned? true (Nat.toDigits 10 (-i).toNat ++ rest) = _
    rw [hread, if_pos rfl, Int.toNat_of_nonneg (by omega), Int.neg_neg]

/-! ## §4. Decimals. -/

/-- The text of the digits behind the point. -/
def fractionChars (ds : List Digit) : List Char :=
  if ds.isEmpty then [] else '.' :: ds.map Digit.toChar

/-- The text of a power of ten. -/
def powerChars : Option Int → List Char
  | none => []
  | some e => 'e' :: (if 0 ≤ e then '+' else '-') :: Nat.toDigits 10 e.natAbs

/-- The text of a decimal behind its sign. -/
def decimalChars (whole : Nat) (fraction : List Digit) (exponent : Option Int) : List Char :=
  Nat.toDigits 10 whole ++ (fractionChars fraction ++ powerChars exponent)

theorem toList_render_power (e : Int) :
    ("e" ++ (if true ∧ 0 ≤ e then "+" else "") ++ toString e).toList = powerChars (some e) := by
  rw [Int.toString_eq_repr, Int.repr_eq_if]
  by_cases hnonneg : 0 ≤ e
  · obtain ⟨n, rfl⟩ := Int.eq_ofNat_of_zero_le hnonneg
    simp [powerChars, Nat.toList_repr]
  · have hneg : (-e).toNat = e.natAbs := by omega
    simp [powerChars, hnonneg, hneg, Nat.toList_repr]

theorem toList_numberText (negative : Bool) (whole : Nat) (fraction : List Digit)
    (exponent : Option Int) :
    (numberText (.decimal negative whole fraction exponent)).toList
      = (if negative then ['-'] else []) ++ decimalChars whole fraction exponent := by
  have hsign : (if negative then "-" else "").toList = if negative then ['-'] else [] := by
    cases negative <;> rfl
  have hfraction : (if fraction.isEmpty then ""
      else "." ++ String.ofList (fraction.map Digit.toChar)).toList = fractionChars fraction := by
    unfold fractionChars
    split
    · rfl
    · simp
  unfold numberText NumberLiteral.render decimalChars
  cases exponent with
  | none =>
    simp only [String.toList_append, hsign, hfraction, powerChars]
    simp [Nat.toList_repr]
  | some e =>
    have hpower := toList_render_power e
    dsimp only
    rw [String.toList_append, String.toList_append, String.toList_append, hsign, hfraction, hpower]
    simp [Nat.toList_repr]

theorem endsDigits_powerChars (exponent : Option Int) {rest : List Char} (h : Closed rest) :
    EndsDigits (powerChars exponent ++ rest) := by
  cases exponent with
  | none => exact h.endsDigits
  | some e => exact endsDigits_cons (by decide) _

theorem endsDigits_fractionChars (ds : List Digit) {cs : List Char} (h : EndsDigits cs) :
    EndsDigits (fractionChars ds ++ cs) := by
  unfold fractionChars
  split
  · exact h
  · exact endsDigits_cons (by decide) _

/-- The digits behind the point are read up to the power of ten. -/
theorem readFraction?_fractionChars (ds : List Digit) (exponent : Option Int) {rest : List Char}
    (h : Closed rest) :
    readFraction? (fractionChars ds ++ (powerChars exponent ++ rest))
      = some (ds, powerChars exponent ++ rest) := by
  cases ds with
  | nil =>
    cases exponent with
    | none => cases h <;> rfl
    | some e => rfl
  | cons d ds =>
    have hread : readDigits ((d :: ds).map Digit.toChar ++ (powerChars exponent ++ rest)) []
        = (d :: ds, powerChars exponent ++ rest) :=
      readDigits_append (d :: ds) (endsDigits_powerChars exponent h) []
    show readFraction? ('.' :: ((d :: ds).map Digit.toChar ++ (powerChars exponent ++ rest))) = _
    rw [readFraction?, hread]

/-- The power of ten is read up to the end of the number. -/
theorem readExponent?_powerChars (exponent : Option Int) {rest : List Char} (h : Closed rest) :
    readExponent? (powerChars exponent ++ rest) = some (exponent, rest) := by
  cases exponent with
  | none => cases h <;> rfl
  | some e =>
    obtain ⟨d, ds, hread, hvalue, -⟩ := exists_readDigits e.natAbs h.endsDigits
    have hpower (negative : Bool) : readPower? negative (Nat.toDigits 10 e.natAbs ++ rest)
        = some (some (if negative then -(e.natAbs : Int) else e.natAbs), rest) := by
      unfold readPower?
      rw [hread, ← hvalue]
    by_cases hnonneg : 0 ≤ e
    · have habs : (e.natAbs : Int) = e := Int.natAbs_of_nonneg hnonneg
      show readExponent? ('e' :: (if 0 ≤ e then '+' else '-') :: _) = _
      rw [if_pos hnonneg]
      show readPower? false (Nat.toDigits 10 e.natAbs ++ rest) = _
      rw [hpower, if_neg (by decide), habs]
    · have habs : -(e.natAbs : Int) = e := by omega
      show readExponent? ('e' :: (if 0 ≤ e then '+' else '-') :: _) = _
      rw [if_neg hnonneg]
      show readPower? true (Nat.toDigits 10 e.natAbs ++ rest) = _
      rw [hpower, if_pos rfl, habs]

/-- A decimal is read behind its sign. -/
theorem readUnsigned?_decimalChars (negative : Bool) (whole : Nat) {fraction : List Digit}
    {exponent : Option Int} (hform : fraction.isEmpty = false ∨ exponent.isSome = true)
    {rest : List Char} (h : Closed rest) :
    readUnsigned? negative (decimalChars whole fraction exponent ++ rest)
      = some (.decimal negative whole fraction exponent, rest) := by
  have hends := endsDigits_fractionChars fraction (endsDigits_powerChars exponent h)
  have hdecimal : ¬ (fraction.isEmpty = true ∧ exponent.isNone = true
      ∧ ¬ (negative = true ∧ whole = 0)) := by
    rintro ⟨hfraction, hexponent, -⟩
    rcases hform with hform | hform
    · simp [hform] at hfraction
    · simp [Option.isNone_iff_eq_none.mp hexponent] at hform
  unfold readUnsigned? decimalChars
  rw [List.append_assoc, List.append_assoc]
  simp only [readWhole?_toDigits whole hends, readFraction?_fractionChars fraction exponent h,
    readExponent?_powerChars exponent h, Option.bind_eq_bind, Option.bind_some]
  rw [if_neg hdecimal]
  rfl

/-- **A plain literal is read as it is written.** -/
theorem readNumber?_numberText {literal : NumberLiteral} (hplain : literal.isPlain = true)
    {rest : List Char} (h : Closed rest) :
    readNumber? ((numberText literal).toList ++ rest) = some (literal, rest) := by
  cases literal with
  | integer value => exact readNumber?_toString value h
  | decimal negative whole fraction exponent =>
    have hform : fraction.isEmpty = false ∨ exponent.isSome = true := by
      simpa using (Bool.and_eq_true_iff.mp hplain).1
    have hread := readUnsigned?_decimalChars negative whole hform h
    rw [toList_numberText]
    cases negative with
    | true => exact hread
    | false =>
      show readNumber? (decimalChars whole fraction exponent ++ rest) = _
      rw [← hread]
      unfold decimalChars
      rw [List.append_assoc]
      exact readNumber?_toDigits whole _

/-! ## §5. Where a number begins. -/

/-- The characters that a number can begin with. -/
def opensNumber (c : Char) : Bool := c == '-' || (digit? c).isSome

theorem exists_opensNumber (literal : NumberLiteral) :
    ∃ c cs, (numberText literal).toList = c :: cs ∧ opensNumber c = true := by
  have hdigits (n : Nat) (rest : List Char) :
      ∃ c cs, Nat.toDigits 10 n ++ rest = c :: cs ∧ opensNumber c = true := by
    obtain ⟨d, ds, hchars, -, -⟩ := exists_digits n
    rw [hchars]
    exact ⟨d.toChar, _, rfl, by simp [opensNumber, digit?_toChar]⟩
  cases literal with
  | integer value =>
    show ∃ c cs, (toString value).toList = c :: cs ∧ _
    rw [Int.toString_eq_repr, Int.repr_eq_if]
    split
    · rw [Nat.toList_repr, ← List.append_nil (Nat.toDigits _ _)]
      exact hdigits _ []
    · rw [String.toList_append]
      exact ⟨'-', _, rfl, by decide⟩
  | decimal negative whole fraction exponent =>
    rw [toList_numberText]
    cases negative with
    | true => exact ⟨'-', _, rfl, by decide⟩
    | false => exact hdigits whole _

theorem ne_of_opensNumber {c d : Char} (hc : opensNumber c = true) (hd : opensNumber d = false) :
    c ≠ d := by
  intro heq
  rw [heq, hd] at hc
  contradiction

end Json

/-- What is written for a plain literal is within the numbers of 64 bits. -/
theorem NumberLiteral.isSome_toDouble?_of_isPlain {literal : NumberLiteral}
    (h : literal.isPlain = true) : literal.toDouble?.isSome := by
  cases literal with
  | integer value => simp [toDouble?, show isWord value = true from h]
  | decimal negative whole fraction exponent => exact (Bool.and_eq_true_iff.mp h).2

end PatchWeaver

/-
  PatchWeaver.Proofs.Shifting
  ───────────────────────────
  **HOW FAR A SHIFT MOVES.**

  The settings give distances as unsigned words, and a shift moves by signed
  ones.  A distance below `2^63` is the same word either way; a greater one
  turns into a negative word, so that the shift moves the other way:

      distance          Before moves by     After moves by
      n < 2^63          -n                  n
      2^63              2^63 - 1            -2^63
      2^63 < n          2^64 - n            n - 2^64

  So a shift moves by the distance asked for modulo `2^64`.  There is one
  exception, as the least word has no negation: the greatest word stands in
  for it.  Bodies are shorter than `2^63`, so either of them leads out of any
  body, and the exception cannot be told from the rule.

  Main results:
    * `Shift.resolve_cases` — the word that a shift comes to.
    * `SelectionSite.heedsShifts` — where matches are moved to, and what is
      said of those that leave the body.
    * `shift_turns_around` — a distance that moves the wrong way.
-/
import PatchWeaver.Proofs.Sweeping
import PatchWeaver.Proofs.Targets

namespace PatchWeaver

/-! ## §1. Words. -/

/-- The least signed 64-bit word. -/
def minWord : Int := -maxWord - 1

/-- A signed 64-bit word. -/
def IsWord (i : Int) : Prop := minWord ≤ i ∧ i ≤ maxWord

/-- A word is what it is modulo `2^64`. -/
theorem IsWord.bmod_eq {i : Int} (h : IsWord i) : i.bmod (2 ^ 64) = i := by
  simp only [IsWord, minWord, maxWord] at h
  simp only [Int.bmod]
  omega

/-- An unsigned word, read as a signed one. -/
theorem toInt_toInt64 (n : UInt64) : n.toInt64.toInt = (n.toNat : Int).bmod (2 ^ 64) :=
  BitVec.toInt_eq_toNat_bmod _

namespace Shift

variable {settings : ShiftSettings}

/-- The distance, forward, that a shift asks for. -/
def asked (settings : ShiftSettings) : Shift → Int
  | .by distance => distance.toInt
  | .before => -(settings.before.toNat : Int)
  | .after => settings.after.toNat

/-- **The word that a shift comes to** is the distance asked for modulo `2^64`, but for the least
word, whose negation is the greatest. -/
theorem resolve_cases (shift : Shift) :
    shift.resolve settings = (shift.asked settings).bmod (2 ^ 64)
      ∨ (shift.asked settings = minWord ∧ shift.resolve settings = maxWord) := by
  cases shift with
  | «by» distance => exact .inl distance.toInt_bmod.symm
  | after => exact .inl (toInt_toInt64 _)
  | before =>
    have hlt := settings.before.toNat_lt
    simp only [resolve, asked, toInt_toInt64, negateWord, minWord, maxWord, Int.bmod]
    omega

end Shift

/-! ## §2. Where a match is moved to. -/

/-- The shift of a selector: its own, or else that of the settings. -/
def Selector.shiftIn (s : Selector) (settings : ShiftSettings) : Shift :=
  s.shift.getD settings.standard

/-- The place in the body that a match has led to. -/
def MatchOutcome.place? : MatchOutcome → Option Nat
  | .outOfBounds .. => none
  | .unreachable offset => some offset
  | .rejected offset _ => some offset
  | .accepted _ offset => some offset

namespace SelectionSite

variable {site : SelectionSite} {s : Selector} {index o : Nat} {distance : Int}

variable (site) in
/-- A match is moved forward by a distance, if that does not leave the body; if it does, this is
reported. -/
structure Moves (s : Selector) (index : Nat) (distance : Int) : Prop where
  place?_eq_some_iff : ∀ o, (site.outcome s index).place? = some o
    ↔ (o : Int) = index + distance ∧ o < site.body.length
  reported : (∀ o < site.body.length, (o : Int) ≠ index + distance) →
    ⟨.error, .select, .shiftOutOfBounds (s.describe site.patch.mixin) site.method index
      (s.resolveShift site.settings)⟩ ∈ reportsOf site.select.events

theorem place?_outcome :
    (site.outcome s index).place? = s.offsetOf? site.settings site.body index := by
  unfold outcome
  split
  · next hnone => exact hnone.symm
  · next offset hsome =>
    rw [hsome]
    split
    · rfl
    · split <;> rfl

theorem place?_outcome_eq_some_iff :
    (site.outcome s index).place? = some o ↔ site.LeadsTo s index o := by
  rw [place?_outcome, offsetOf?_eq_some_iff]

/-- What comes of a kept match is one of the outcomes of the pass. -/
theorem outcome_mem_outcomes (hs : s ∈ site.patch.selectors) (hkept : s.Keeps site.body index) :
    site.outcome s index ∈ site.outcomes := by
  rw [outcomes_eq]
  refine List.mem_flatMap.mpr ⟨index, List.mem_range.mpr (Selector.lt_of_matchesAt hkept.shape),
    List.mem_filterMap.mpr ⟨s, hs, ?_⟩⟩
  exact if_pos (Selector.mem_kept_iff.mpr hkept)

/-- A kept match that leads nowhere is reported. -/
theorem reported_of_place?_eq_none (hs : s ∈ site.patch.selectors)
    (hkept : s.Keeps site.body index) (hnone : (site.outcome s index).place? = none) :
    ⟨.error, .select, .shiftOutOfBounds (s.describe site.patch.mixin) site.method index
      (s.resolveShift site.settings)⟩ ∈ reportsOf site.select.events := by
  have houtcome : site.outcome s index = .outOfBounds s index := by
    rw [place?_outcome] at hnone
    unfold outcome
    rw [hnone]
  rw [select_eq]
  refine List.mem_filterMap.mpr ⟨site.event (.outOfBounds s index), ?_, rfl⟩
  rw [← houtcome]
  exact List.mem_append_left _ (List.mem_map_of_mem (outcome_mem_outcomes hs hkept))

/-- Where matches are moved to, in terms of the distance, is all there is to say. -/
theorem moves_of_leadsTo_iff (hs : s ∈ site.patch.selectors) (hkept : s.Keeps site.body index)
    (h : ∀ o, site.LeadsTo s index o ↔ (o : Int) = index + distance ∧ o < site.body.length) :
    site.Moves s index distance := by
  refine ⟨fun o => place?_outcome_eq_some_iff.trans (h o), fun houtside => ?_⟩
  refine reported_of_place?_eq_none hs hkept (Option.eq_none_iff_forall_ne_some.mpr fun o ho => ?_)
  obtain ⟨heq, hin⟩ := (h o).mp (place?_outcome_eq_some_iff.mp ho)
  exact houtside o hin heq

/-- **A match is moved by the distance asked for modulo `2^64`.** -/
theorem moves_bmod (hlength : site.body.length < 2 ^ 63) (hs : s ∈ site.patch.selectors)
    (hkept : s.Keeps site.body index) :
    site.Moves s index (((s.shiftIn site.settings).asked site.settings).bmod (2 ^ 64)) := by
  refine moves_of_leadsTo_iff hs hkept fun o => ?_
  obtain heq | ⟨hleast, hgreatest⟩ := (s.shiftIn site.settings).resolve_cases
  · rw [← heq]
    exact ⟨fun h => ⟨h.shifted, h.inBody⟩, fun h => ⟨h.1, h.2⟩⟩
  · -- the least word leads out of the body at one end, and the greatest at the other
    have hindex := Selector.lt_of_matchesAt hkept.shape
    have hword : IsWord minWord := ⟨le_rfl, by decide⟩
    rw [hleast, hword.bmod_eq, minWord, maxWord]
    constructor
    · rintro ⟨hshifted, hin⟩
      change (o : Int) = index + (s.shiftIn site.settings).resolve site.settings at hshifted
      rw [hgreatest, maxWord] at hshifted
      omega
    · rintro ⟨hshifted, -⟩
      omega

/-! ## §3. What shifts do in a selection. -/

variable (site) in
/-- What shifts do in a selection. -/
structure HeedsShifts : Prop where
  /-- The offsets selected are those that matches have been moved to. -/
  selected : ∃ offsets, site.select.outcome = .ok offsets ∧ ∀ o ∈ offsets,
    ∃ s ∈ site.patch.selectors, ∃ index, s.Keeps site.body index
      ∧ (site.outcome s index).place? = some o
  /-- Every match is moved by the distance asked for, modulo `2^64`. -/
  wraps : ∀ s ∈ site.patch.selectors, ∀ index, s.Keeps site.body index →
    site.Moves s index (((s.shiftIn site.settings).asked site.settings).bmod (2 ^ 64))
  /-- If that distance is a signed word, then every match is moved by the distance asked for. -/
  exact : ∀ s ∈ site.patch.selectors, ∀ index, s.Keeps site.body index →
    IsWord ((s.shiftIn site.settings).asked site.settings) →
      site.Moves s index ((s.shiftIn site.settings).asked site.settings)
  /-- Back is not forward. -/
  back : ∀ s ∈ site.patch.selectors, ∀ index, s.Keeps site.body index →
    s.shiftIn site.settings = .before → site.settings.before.toNat ≤ 2 ^ 63 →
      ∀ o, (site.outcome s index).place? = some o → o ≤ index
  /-- Forward is not back. -/
  forth : ∀ s ∈ site.patch.selectors, ∀ index, s.Keeps site.body index →
    s.shiftIn site.settings = .after → site.settings.after.toNat < 2 ^ 63 →
      ∀ o, (site.outcome s index).place? = some o → index ≤ o

/-- **Shifts are heeded in every body that is no longer than bodies can be.** -/
theorem heedsShifts (site : SelectionSite) (hlength : site.body.length < 2 ^ 63) :
    site.HeedsShifts := by
  have hexact : ∀ s ∈ site.patch.selectors, ∀ index, s.Keeps site.body index →
      IsWord ((s.shiftIn site.settings).asked site.settings) →
        site.Moves s index ((s.shiftIn site.settings).asked site.settings) := by
    intro s hs index hkept hword
    have hmoves := moves_bmod hlength hs hkept
    rwa [hword.bmod_eq] at hmoves
  refine ⟨⟨site.offsets, by rw [select_eq], fun o ho => ?_⟩,
    fun s hs index hkept => moves_bmod hlength hs hkept, hexact, ?_, ?_⟩
  · obtain ⟨s, hs, index, htakes⟩ := mem_offsets_iff.mp ho
    exact ⟨s, hs, index, htakes.kept, place?_outcome_eq_some_iff.mpr htakes.leads⟩
  · intro s hs index hkept hshift hdistance o ho
    have hasked : (s.shiftIn site.settings).asked site.settings = -site.settings.before.toNat := by
      rw [hshift, Shift.asked]
    have hmoves := hexact s hs index hkept (by rw [hasked, IsWord, minWord, maxWord]; omega)
    have heq := ((hmoves.place?_eq_some_iff o).mp ho).1
    omega
  · intro s hs index hkept hshift hdistance o ho
    have hasked : (s.shiftIn site.settings).asked site.settings = site.settings.after.toNat := by
      rw [hshift, Shift.asked]
    have hmoves := hexact s hs index hkept (by rw [hasked, IsWord, minWord, maxWord]; omega)
    have heq := ((hmoves.place?_eq_some_iff o).mp ho).1
    omega

end SelectionSite

/-! ### A distance so far back that it leads forward. -/

namespace Around

/-- The first instruction, moved back. -/
def back : Selector := { kind := .head, shift := some .before }

/-- The distance is that of `-1`, as an unsigned word. -/
def settings : ShiftSettings := { before := 0xffffffffffffffff }

/-- A body of two instructions, with a patch that selects the first one moved back. -/
def site : SelectionSite where
  settings := settings
  patch := { Twins.patch with selectors := [back] }
  method := Twins.run.ref Twins.a
  body := .ofInstructions [.nop, .ret]
  depths := [some 0, some 0]

theorem keeps_back : back.Keeps site.body 0 := ⟨rfl, nofun⟩

/-- The second instruction is selected. -/
theorem place?_outcome : (site.outcome back 0).place? = some 1 := rfl

end Around

theorem heedsShifts_around : Around.site.body.length < 2 ^ 63 ∧ Around.site.HeedsShifts :=
  ⟨by decide, Around.site.heedsShifts (by decide)⟩

/-- **A shift back can move forward**: distances are not those asked for in general. -/
theorem shift_turns_around :
    ¬ ∀ site : SelectionSite, site.body.length < 2 ^ 63 → ∀ s ∈ site.patch.selectors, ∀ index,
      s.Keeps site.body index →
        site.Moves s index ((s.shiftIn site.settings).asked site.settings) := by
  intro h
  have hmoves := h Around.site (by decide) Around.back (List.mem_singleton.mpr rfl) 0
    Around.keeps_back
  have heq := ((hmoves.place?_eq_some_iff 1).mp Around.place?_outcome).1
  revert heq
  decide

end PatchWeaver

/-
  PatchWeaver.Proofs.Positions
  ────────────────────────────
  **WHERE PARTS STAND IN A WOVEN BODY.**

  Parts stand one behind another, so the part of instruction `i` starts
  where the parts before it end:

      entryOf 0 = 0
      entryOf (i + 1) = entryOf i + length of part i

  Every position of the woven body is one within exactly one part.

  Main results:
    * `getElem?_entryOf` — what stands at a position of a part.
    * `exists_position` — every position is in a part.
    * `position_unique` — in one part only.
-/
import PatchWeaver.Proofs.Layout

namespace PatchWeaver

/-- Where the part of an instruction starts. -/
def entryOf (parts : List Part) (i : Nat) : Nat := ((parts.take i).flatMap Part.entries).length

section

variable {parts : List Part} {i j k : Nat} {p p' : Part}

@[simp]
theorem entryOf_zero (parts : List Part) : entryOf parts 0 = 0 := by simp [entryOf]

/-- The next part starts behind this one. -/
theorem entryOf_succ (hp : parts[i]? = some p) :
    entryOf parts (i + 1) = entryOf parts i + p.entries.length := by
  unfold entryOf
  rw [List.take_add_one, hp]
  simp

/-- Parts stand in order. -/
theorem entryOf_mono (parts : List Part) (h : i ≤ j) : entryOf parts i ≤ entryOf parts j := by
  unfold entryOf
  have hprefix : parts.take i <+: parts.take j := List.take_prefix_take_left h
  obtain ⟨more, hmore⟩ := hprefix
  rw [← hmore, List.flatMap_append, List.length_append]
  exact Nat.le_add_right _ _

theorem entryOf_length (parts : List Part) :
    entryOf parts parts.length = (parts.flatMap Part.entries).length := by
  unfold entryOf
  rw [List.take_length]

/-- What stands at a position of a part. -/
theorem getElem?_entryOf (hp : parts[i]? = some p) {e : Entry} (he : p.entries[k]? = some e) :
    (parts.flatMap Part.entries)[entryOf parts i + k]? = some e := by
  have hsplit : parts.flatMap Part.entries = (parts.take i).flatMap Part.entries
      ++ (p.entries ++ (parts.drop (i + 1)).flatMap Part.entries) := by
    obtain ⟨hi, rfl⟩ := List.getElem?_eq_some_iff.mp hp
    rw [← List.flatMap_cons, ← List.flatMap_append, ← List.drop_eq_getElem_cons hi,
      List.take_append_drop]
  unfold entryOf
  rw [hsplit, List.getElem?_append_right (Nat.le_add_right _ _), Nat.add_sub_cancel_left,
    List.getElem?_append_left (List.getElem?_eq_some_iff.mp he).1, he]

/-- A position is one within one part only. -/
theorem position_unique {k' : Nat} (hp : parts[i]? = some p) (hp' : parts[j]? = some p')
    (hk : k < p.entries.length) (hk' : k' < p'.entries.length)
    (h : entryOf parts i + k = entryOf parts j + k') : i = j ∧ k = k' := by
  -- of two parts, one ends before the other starts
  rcases Nat.lt_trichotomy i j with hlt | rfl | hgt
  · have hle := entryOf_mono parts (show i + 1 ≤ j from hlt)
    rw [entryOf_succ hp] at hle
    omega
  · exact ⟨rfl, by omega⟩
  · have hle := entryOf_mono parts (show j + 1 ≤ i from hgt)
    rw [entryOf_succ hp'] at hle
    omega

/-- Every position is one within a part. -/
theorem exists_position {q : Nat} (h : q < (parts.flatMap Part.entries).length) :
    ∃ i p k, parts[i]? = some p ∧ k < p.entries.length ∧ q = entryOf parts i + k := by
  -- the last part that starts at the position or before it
  have key : ∀ n ≤ parts.length, q < entryOf parts n →
      ∃ i p k, parts[i]? = some p ∧ k < p.entries.length ∧ q = entryOf parts i + k := by
    intro n
    induction n with
    | zero =>
      intro _ hq
      simp at hq
    | succ n ih =>
      intro hn hq
      have hp : parts[n]? = some parts[n] := List.getElem?_eq_getElem (by omega)
      rw [entryOf_succ hp] at hq
      by_cases hlt : q < entryOf parts n
      · exact ih (by omega) hlt
      · exact ⟨n, parts[n], q - entryOf parts n, hp, by omega, by omega⟩
  rw [← entryOf_length] at h
  exact key parts.length (Nat.le_refl _) h

end

end PatchWeaver

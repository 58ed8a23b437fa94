/-
  PatchWeaver.Proofs.Renaming
  ───────────────────────────
  **JUMPS SENT ELSEWHERE.**

  While a body is worked on, jumps are sent to new places one label after
  another.  What becomes of an instruction is told by a renaming of all
  labels at once:

      retarget old new  =  rename (old ↦ new)
      rename f (rename g i)  =  rename (f ∘ g) i

  A renaming changes nothing but targets of jumps: neither what an
  instruction does to the stack, nor whether control goes on behind it.
-/
import PatchWeaver.Proofs.CallCode

namespace PatchWeaver

/-- The renaming of one label. -/
def Label.sentTo (old new l : Label) : Label := if l = old then new else l

namespace Label

@[simp]
theorem sentTo_self (old new : Label) : old.sentTo new old = new := if_pos rfl

theorem sentTo_of_ne {old l : Label} (h : l ≠ old) (new : Label) : old.sentTo new l = l := if_neg h

end Label

namespace Instruction

/-- Send the jump of an instruction to where its label is renamed to. -/
def rename (f : Label → Label) : Instruction → Instruction
  | .branch target => .branch (f target)
  | .branchIf expected target => .branchIf expected (f target)
  | .branchCompare comparison target => .branchCompare comparison (f target)
  | i => i

theorem rename_rename (f g : Label → Label) (i : Instruction) :
    (i.rename g).rename f = i.rename (f ∘ g) := by
  cases i <;> rfl

theorem target?_rename (f : Label → Label) (i : Instruction) :
    (i.rename f).target? = i.target?.map f := by
  cases i <;> rfl

@[simp]
theorem effect_rename (f : Label → Label) (i : Instruction) : (i.rename f).effect = i.effect := by
  cases i <;> rfl

@[simp]
theorem depthAfter_rename (f : Label → Label) (i : Instruction) (depth : Nat) :
    (i.rename f).depthAfter depth = i.depthAfter depth := by
  simp [depthAfter]

@[simp]
theorem fallsThrough_rename (f : Label → Label) (i : Instruction) :
    (i.rename f).fallsThrough = i.fallsThrough := by
  cases i <;> rfl

theorem flow_rename_eq_next_iff {f : Label → Label} {i : Instruction} :
    (i.rename f).flow = .next ↔ i.flow = .next := by
  cases i <;> simp [rename, flow]

/-- Only where jumps lead is changed. -/
theorem rename_eq_self {f : Label → Label} {i : Instruction}
    (h : ∀ l, i.target? = some l → f l = l) : i.rename f = i := by
  cases i with
  | branch target => rw [rename, h target rfl]
  | branchIf expected target => rw [rename, h target rfl]
  | branchCompare comparison target => rw [rename, h target rfl]
  | _ => rfl

/-- An instruction that does not jump stays what it is. -/
theorem rename_eq_iff_of_target?_eq_none {f : Label → Label} {i j : Instruction}
    (h : j.target? = none) : i.rename f = j ↔ i = j := by
  constructor
  · intro heq
    have htarget : i.target?.map f = none := by rw [← target?_rename, heq, h]
    have hnone : i.target? = none := Option.map_eq_none_iff.mp htarget
    rw [← heq]
    exact (rename_eq_self fun l hl => by rw [hnone] at hl; contradiction).symm
  · rintro rfl
    exact rename_eq_self fun l hl => by rw [h] at hl; contradiction

/-- An instruction that ends the method stays what it is. -/
theorem rename_eq_of_ends {f : Label → Label} {i : Instruction} (h : (i.rename f).Ends) :
    i.rename f = i := by
  rcases h with hret | hthrow
  · rw [hret]
    exact ((rename_eq_iff_of_target?_eq_none rfl).mp hret).symm
  · rw [hthrow]
    exact ((rename_eq_iff_of_target?_eq_none rfl).mp hthrow).symm

/-- Sending jumps to a label elsewhere is a renaming. -/
theorem retarget_eq_rename (old new : Label) (i : Instruction) :
    i.retarget old new = i.rename (old.sentTo new) := by
  cases i with
  | branch target =>
    by_cases h : target = old <;>
      simp [retarget, target?, flow, withTarget, rename, Label.sentTo, h]
  | branchIf expected target =>
    by_cases h : target = old <;>
      simp [retarget, target?, flow, withTarget, rename, Label.sentTo, h]
  | branchCompare comparison target =>
    by_cases h : target = old <;>
      simp [retarget, target?, flow, withTarget, rename, Label.sentTo, h]
  | _ => rfl

end Instruction

namespace Entry

/-- Send the jump of an entry to where its label is renamed to. -/
def rename (f : Label → Label) (e : Entry) : Entry :=
  { e with instruction := e.instruction.rename f }

@[simp]
theorem rename_label (f : Label → Label) (e : Entry) : (e.rename f).label = e.label := rfl

@[simp]
theorem rename_origin (f : Label → Label) (e : Entry) : (e.rename f).origin = e.origin := rfl

@[simp]
theorem rename_instruction (f : Label → Label) (e : Entry) :
    (e.rename f).instruction = e.instruction.rename f := rfl

theorem rename_rename (f g : Label → Label) (e : Entry) :
    (e.rename g).rename f = e.rename (f ∘ g) := by
  simp [rename, Instruction.rename_rename]

theorem rename_eq_self {f : Label → Label} {e : Entry}
    (h : ∀ l, e.instruction.target? = some l → f l = l) : e.rename f = e := by
  simp [rename, Instruction.rename_eq_self h]

theorem retarget_eq_rename (old new : Label) (e : Entry) :
    e.retarget old new = e.rename (old.sentTo new) := by
  simp [retarget, rename, Instruction.retarget_eq_rename]

end Entry

end PatchWeaver

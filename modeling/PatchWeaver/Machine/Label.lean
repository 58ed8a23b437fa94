/-
  PatchWeaver.Machine.Label
  ─────────────────────────
  **LABELS OF INSTRUCTIONS.**

  Every instruction of a body carries a label, and jumps name labels, never
  positions; so taking instructions out or putting them in never invalidates
  a jump.  A source of labels yields one label after another in ascending
  order; started after a list of labels, it yields none of them:

      l ∈ labels  →  l.id < (LabelSource.after labels).next.id

  A label is kept as a word of 64 bits, and asking for the one after the
  largest word overflows.  Here labels are numbers, among which there always
  is a next one; a run stands for one on words while its labels are in range.
-/

namespace PatchWeaver

/-- Identity of an instruction within its body. -/
structure Label where
  /-- The number of the label, which is kept as a word of 64 bits. -/
  id : Nat
  deriving Repr, DecidableEq

namespace Label

/-- Label of the first instruction of a newly built body. -/
def start : Label := ⟨0⟩

/-- The label that follows; on words, that of the largest one overflows. -/
def next (l : Label) : Label := ⟨l.id + 1⟩

/-- A label in listings. -/
def render (l : Label) : String := "l" ++ toString l.id

instance : ToString Label := ⟨render⟩

end Label

/-- A supply of labels. -/
structure LabelSource where
  /-- The label that comes next. -/
  next : Label
  deriving Repr, DecidableEq

namespace LabelSource

/-- The supply whose labels all come after the given ones. -/
def after (labels : List Label) : LabelSource :=
  ⟨⟨labels.foldl (fun bound l => max bound (l.id + 1)) 0⟩⟩

/-- Take one label out of the supply. -/
def draw (s : LabelSource) : Label × LabelSource := (s.next, ⟨s.next.next⟩)

/-- Take several labels out of the supply, in order. -/
def drawMany (s : LabelSource) : Nat → List Label × LabelSource
  | 0 => ([], s)
  | count + 1 =>
    let (l, s) := s.draw
    let (rest, s) := s.drawMany count
    (l :: rest, s)

theorem bound_le_foldl (labels : List Label) (bound : Nat) :
    bound ≤ labels.foldl (fun bound l => max bound (l.id + 1)) bound := by
  induction labels generalizing bound with
  | nil => exact Nat.le_refl _
  | cons l rest ih => exact Nat.le_trans (Nat.le_max_left _ _) (ih _)

/-- A label given to `after` comes before every label of the supply. -/
theorem id_lt_after {l : Label} {labels : List Label} (h : l ∈ labels) :
    l.id < (after labels).next.id := by
  have key : ∀ (labels : List Label) (bound : Nat), l ∈ labels →
      l.id < labels.foldl (fun bound l => max bound (l.id + 1)) bound := by
    intro labels
    induction labels with
    | nil => intro bound h; simp at h
    | cons m rest ih =>
      intro bound h
      rcases List.mem_cons.mp h with rfl | h
      · exact Nat.lt_of_lt_of_le (Nat.lt_of_lt_of_le (Nat.lt_succ_self _) (Nat.le_max_right _ _))
          (bound_le_foldl rest _)
      · exact ih _ h
  exact key labels 0 h

end LabelSource

end PatchWeaver

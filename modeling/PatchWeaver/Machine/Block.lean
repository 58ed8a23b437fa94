/-
  PatchWeaver.Machine.Block
  ─────────────────────────
  **BLOCKS UNDER CONSTRUCTION.**

  A block is a sequence of instructions on its way into a body.  Its
  instructions get the block's origin, and a fresh label of the body when
  the block is finished — unless a label was placed in front of them, which
  lets jumps within the block refer to it ahead of time, or they came with a
  label of their own.

  At most one placed label waits for its instruction.  An operation that
  would lose or move a waiting label fails, and changes nothing.
-/
import PatchWeaver.Machine.Body
import PatchWeaver.Machine.Error

namespace PatchWeaver

/-- An instruction of a block; its label may still be open. -/
structure PendingEntry where
  label : Option Label
  origin : Origin
  instruction : Instruction
  deriving Repr, DecidableEq

/-- A sequence of instructions under construction. -/
structure Block where
  /-- Origin of the instructions pushed. -/
  origin : Origin
  entries : List PendingEntry := []
  /-- The placed label that waits for its instruction. -/
  waiting : Option Label := none
  deriving Repr, DecidableEq

namespace Block

/-- The block without instructions. -/
def empty (origin : Origin) : Block := { origin }

/-- Number of instructions. -/
def length (b : Block) : Nat := b.entries.length

/-- Append an instruction; it takes the waiting label, if there is one. -/
def push (b : Block) (instruction : Instruction) : Block :=
  { b with entries := b.entries ++ [⟨b.waiting, b.origin, instruction⟩], waiting := none }

/-- Append several instructions. -/
def pushAll (b : Block) (instructions : List Instruction) : Block := instructions.foldl push b

/-- Append an entry that keeps its label and origin. -/
def pushEntry (b : Block) (e : Entry) : Except MachineError Block :=
  match b.waiting with
  | some l => .error (.labelAlreadyPlaced l)
  | none => .ok { b with entries := b.entries ++ [⟨some e.label, e.origin, e.instruction⟩] }

/-- Attach a label to the instruction pushed next. -/
def place (b : Block) (l : Label) : Except MachineError Block :=
  match b.waiting with
  | some waiting => .error (.labelAlreadyPlaced waiting)
  | none => .ok { b with waiting := some l }

/-- Append another block. -/
def extend (b other : Block) : Except MachineError Block :=
  match other.waiting, b.waiting with
  | some l, _ => .error (.unplacedLabel l)
  | none, some l =>
    if other.entries.isEmpty then .ok b else .error (.labelAlreadyPlaced l)
  | none, none => .ok { b with entries := b.entries ++ other.entries }

/-- Give every entry a label, drawing the open ones from the body in order. -/
def assignLabels : List PendingEntry → Body → List Entry × Body
  | [], body => ([], body)
  | e :: rest, body =>
    let (l, body) := match e.label with
      | some l => (l, body)
      | none => body.freshLabel
    let (entries, body) := assignLabels rest body
    (⟨l, e.origin, e.instruction⟩ :: entries, body)

/-- Turn the block into entries for a body, from which the open labels are drawn. -/
def finish (b : Block) (body : Body) : Except MachineError (List Entry × Body) :=
  match b.waiting with
  | some l => .error (.unplacedLabel l)
  | none => .ok (assignLabels b.entries body)

/-! ### Small facts. -/

theorem length_push (b : Block) (i : Instruction) : (b.push i).length = b.length + 1 := by
  simp [push, length]

theorem length_assignLabels (entries : List PendingEntry) (body : Body) :
    (assignLabels entries body).1.length = entries.length := by
  induction entries generalizing body with
  | nil => rfl
  | cons e rest ih => simp [assignLabels, ih]

/-- Finishing draws labels from the body and touches nothing else of it. -/
theorem entries_assignLabels (entries : List PendingEntry) (body : Body) :
    (assignLabels entries body).2.entries = body.entries := by
  induction entries generalizing body with
  | nil => rfl
  | cons e rest ih =>
    simp only [assignLabels]
    rw [ih]
    cases e.label <;> rfl

end Block

end PatchWeaver

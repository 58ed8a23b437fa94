/-
  PatchWeaver.Machine.Body
  ────────────────────────
  **BODIES OF METHODS.**

  A body lists instructions, each with its label and where it came from,
  and the types of the local variables.  It also owns a supply of labels,
  which is started past every label of the body when the first fresh label
  is asked for, and kept from then on.

  Should a label occur more than once, a jump to it goes to its last place.
-/
import PatchWeaver.Machine.Instruction

namespace PatchWeaver

/-! ## §1. Entries. -/

/-- Where an instruction of a body came from. -/
inductive Origin where
  /-- Declared with the method. -/
  | declared
  | injected
  | beginMarker
  | endMarker
  deriving Repr, DecidableEq

namespace Origin

/-- Every origin. -/
def all : List Origin := [.declared, .injected, .beginMarker, .endMarker]

/-- Name of an origin. -/
def name : Origin → String
  | .declared => "Original"
  | .injected => "Injected"
  | .beginMarker => "BeginMarker"
  | .endMarker => "EndMarker"

/-- The mark of an origin in listings. -/
def tag : Origin → Char
  | .declared => ' '
  | .injected => '+'
  | .beginMarker => 'B'
  | .endMarker => 'E'

end Origin

/-- An instruction of a body together with its identity. -/
structure Entry where
  label : Label
  origin : Origin
  instruction : Instruction
  deriving Repr, DecidableEq

namespace Entry

/-- Whether two entries are equal up to equal values of their constants. -/
def same (a b : Entry) : Bool :=
  a.label == b.label && a.origin == b.origin && a.instruction.same b.instruction

/-- Point the entry's jump to `old` at `new`. -/
def retarget (old new : Label) (e : Entry) : Entry :=
  { e with instruction := e.instruction.retarget old new }

@[simp]
theorem retarget_label (old new : Label) (e : Entry) : (e.retarget old new).label = e.label := rfl

@[simp]
theorem retarget_origin (old new : Label) (e : Entry) : (e.retarget old new).origin = e.origin :=
  rfl

end Entry

/-- Entries whose labels count up from the first label. -/
def numberedEntries (instructions : List Instruction) : List Entry :=
  instructions.zipIdx.map fun (instruction, i) => ⟨⟨i⟩, .declared, instruction⟩

/-! ## §2. Bodies. -/

/-- Body of a method. -/
structure Body where
  entries : List Entry
  /-- Types of the local variables. -/
  locals : List FieldType := []
  /-- The supply of labels, once a fresh one has been drawn. -/
  labels : Option LabelSource := none
  deriving Repr, DecidableEq

namespace Body

/-- The body without instructions. -/
def empty : Body := { entries := [] }

/-- The body whose instruction `i` has label `i`. -/
def ofInstructions (instructions : List Instruction) : Body :=
  { entries := numberedEntries instructions }

/-- Number of instructions. -/
def length (b : Body) : Nat := b.entries.length

/-- Whether two bodies have the same entries and locals; their supplies of labels do not count. -/
def same (a b : Body) : Bool :=
  a.entries.length == b.entries.length
    && (a.entries.zip b.entries).all (fun (x, y) => x.same y)
    && a.locals == b.locals

/-- The instruction at a position. -/
def instruction? (b : Body) (index : Nat) : Option Instruction :=
  b.entries[index]?.map (·.instruction)

/-- The last position, counted from `index`, that carries a label. -/
def lastPosition? (l : Label) : List Entry → Nat → Option Nat
  | [], _ => none
  | e :: rest, index =>
    match lastPosition? l rest (index + 1) with
    | some position => some position
    | none => if e.label = l then some index else none

/-- Where a jump to a label goes. -/
def position? (b : Body) (l : Label) : Option Nat := lastPosition? l b.entries 0

/-- Every label with the place a jump to it goes to, in ascending order of labels. -/
def labelPositions (b : Body) : List (Label × Nat) :=
  let labels := (b.entries.map (·.label)).eraseDups.mergeSort fun a b => a.id ≤ b.id
  labels.filterMap fun l => (b.position? l).map ((l, ·))

/-- Positions of the instructions that jump to a label. -/
def incoming (b : Body) (l : Label) : List Nat :=
  b.entries.zipIdx.filterMap fun (e, i) => if e.instruction.target? = some l then some i else none

/-- The supply of labels, started past every label of the body if none has been drawn. -/
def labelSource (b : Body) : LabelSource :=
  b.labels.getD (LabelSource.after (b.entries.map (·.label)))

/-- Draw a fresh label. -/
def freshLabel (b : Body) : Label × Body :=
  let (l, source) := b.labelSource.draw
  (l, { b with labels := some source })

/-- Index of the slot that the next local variable gets: slots are 16 bits wide. -/
def nextSlot (b : Body) : Slot := UInt16.ofNat b.locals.length

/-- Add a local variable. -/
def allocate (b : Body) (type : FieldType) : Slot × Body :=
  (b.nextSlot, { b with locals := b.locals ++ [type] })

/-- Replace `count` entries from `index` on; there have to be that many. -/
def splice? (b : Body) (index count : Nat) (entries : List Entry) : Option Body :=
  if index + count ≤ b.length then
    some { b with entries := b.entries.take index ++ entries ++ b.entries.drop (index + count) }
  else none

/-- Point every jump to `old` at `new`. -/
def retarget (b : Body) (old new : Label) : Body :=
  { b with entries := b.entries.map (·.retarget old new) }

/-! ### Small facts. -/

@[simp]
theorem entries_freshLabel (b : Body) : b.freshLabel.2.entries = b.entries := rfl

@[simp]
theorem locals_freshLabel (b : Body) : b.freshLabel.2.locals = b.locals := rfl

@[simp]
theorem entries_allocate (b : Body) (type : FieldType) :
    (b.allocate type).2.entries = b.entries := rfl

@[simp]
theorem locals_allocate (b : Body) (type : FieldType) :
    (b.allocate type).2.locals = b.locals ++ [type] := rfl

@[simp]
theorem locals_retarget (b : Body) (old new : Label) : (b.retarget old new).locals = b.locals :=
  rfl

theorem length_splice? {b c : Body} {index count : Nat} {entries : List Entry}
    (h : b.splice? index count entries = some c) :
    c.length + count = b.length + entries.length := by
  unfold splice? at h
  split at h
  · next hle =>
    injection h with h
    subst h
    simp only [length, List.length_append, List.length_take, List.length_drop] at *
    omega
  · contradiction

end Body

/-! ## §3. Listings. -/

/-- Lines joined to a text, each with its line end. -/
def unlines (lines : List String) : String := String.join (lines.map (· ++ "\n"))

/-- A text filled up with spaces in front to a width. -/
def padLeft (width : Nat) (s : String) : String :=
  String.ofList (List.replicate (width - s.length) ' ') ++ s

/-- One line of a listing, without its line end. -/
def Entry.listingLine (e : Entry) (index : Nat) : String :=
  e.origin.tag.toString ++ padLeft 4 (toString index) ++ " " ++ padLeft 5 e.label.render ++ ": "
    ++ e.instruction.render

/-- Lines of the listing of entries. -/
def listingLines (entries : List Entry) : List String :=
  entries.zipIdx.map fun (e, i) => e.listingLine i

/-- The listing of a body. -/
def Body.render (b : Body) : String := unlines (listingLines b.entries)

instance : ToString Body := ⟨Body.render⟩

end PatchWeaver

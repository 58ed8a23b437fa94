/-
  PatchWeaver.Mixin.Selector
  ──────────────────────────
  **SELECTORS OF INSTRUCTIONS.**

  A selector says which instructions of a method a patch goes to: a shape
  to look for, possibly which match in order of occurrence, and by how many
  instructions to move on from a match.

      By n      moves by n
      Before    moves back by the distance of the settings
      After     moves forward by the distance of the settings

  Distances are unsigned 64-bit words taken as signed ones, and turning a
  distance around stops at the largest signed word.
-/
import PatchWeaver.Machine.Body

namespace PatchWeaver

/-! ## §1. Literals. -/

/-- A literal that a selector of constants looks for. -/
inductive Literal where
  | int (value : Int32)
  | long (value : Int64)
  | float (value : Single)
  | double (value : Double)
  | string (value : String)
  /-- Booleans are pushed as the ints `0` and `1`. -/
  | boolean (value : Bool)
  deriving Repr, DecidableEq

/-- The int that a boolean is pushed as. -/
def boolConstant (b : Bool) : Int32 := if b then 1 else 0

/-- Whether a constant is the one looked for. Types have to agree, so an int never matches a
long of the same value. -/
def Literal.matches? : Literal → Constant → Bool
  | .int a, .int b => a == b
  | .boolean a, .int b => boolConstant a == b
  | .long a, .long b => a == b
  | .float a, .float b => a.same b
  | .double a, .double b => a.same b
  | .string a, .string b => a == b
  | _, _ => false

/-! ## §2. Shapes. -/

/-- The shape of instruction that a selector looks for. -/
inductive SelectorKind where
  /-- The common base of the other kinds, which matches nothing itself. -/
  | base
  /-- The first instruction. -/
  | head
  /-- The last instruction. -/
  | tail
  /-- Every return. -/
  | ret
  /-- Calls of a method; no parameters stand for any overload. -/
  | invoke (owner : ClassName) (name : MemberName) (parameters : Option (List FieldType))
      (kinds : CallKinds)
  /-- Pushes of a literal. -/
  | loadConstant (value : Literal)
  deriving Repr, DecidableEq

namespace SelectorKind

/-- Name of a kind of selector. -/
def name : SelectorKind → String
  | .base => "At"
  | .head => "Head"
  | .tail => "Tail"
  | .ret => "Return"
  | .invoke .. => "Invoke"
  | .loadConstant _ => "LoadConstant"

/-- Whether the instruction at a position of a body of the given length has the shape. -/
def matches? (kind : SelectorKind) (length position : Nat) (instruction : Instruction) : Bool :=
  match kind, instruction with
  | .base, _ => false
  | .head, _ => position = 0
  | .tail, _ => position + 1 = length
  | .ret, i => i.isReturn
  | .invoke owner name parameters kinds, .invoke kind callee =>
    kinds.accepts kind && callee.owner == owner && callee.name == name
      && (match parameters with
        | none => true
        | some types => types == callee.descriptor.parameters)
  | .invoke .., _ => false
  | .loadConstant value, .push constant => value.matches? constant
  | .loadConstant _, _ => false

/-- Positions of a body whose instruction has the shape. -/
def positions (kind : SelectorKind) (body : Body) : List Nat :=
  body.entries.zipIdx.filterMap fun (e, i) =>
    if kind.matches? body.length i e.instruction then some i else none

end SelectorKind

/-! ## §3. Shifts. -/

/-- How far to move on from a match. -/
inductive Shift where
  | by (distance : Int64)
  /-- Back by the distance that the settings give. -/
  | before
  /-- Forward by the distance that the settings give. -/
  | after
  deriving Repr, DecidableEq

/-- The parts of the settings that shifts refer to. -/
structure ShiftSettings where
  /-- The shift of selectors that give none. -/
  standard : Shift := .by 0
  /-- Distance of `Shift.before`. -/
  before : UInt64 := 1
  /-- Distance of `Shift.after`. -/
  after : UInt64 := 1
  deriving Repr, DecidableEq

/-- The largest signed 64-bit word. -/
def maxWord : Int := 0x7fffffffffffffff

/-- The negation of a signed 64-bit word; the least word turns into the largest. -/
def negateWord (i : Int) : Int := min (-i) maxWord

/-- The number of instructions to move forward by. -/
def Shift.resolve (settings : ShiftSettings) : Shift → Int
  | .by distance => distance.toInt
  | .before => negateWord settings.before.toInt64.toInt
  | .after => settings.after.toInt64.toInt

/-- A position moved by a shift, if that stays inside a body of the given length. -/
def shifted? (position : Nat) (shift : Int) (length : Nat) : Option Nat :=
  let target := (position : Int) + shift
  if 0 ≤ target ∧ target < length then some target.toNat else none

/-! ## §4. Selectors. -/

/-- Which instructions of a method a patch goes to. -/
structure Selector where
  kind : SelectorKind
  /-- Which match to keep, counted from 0; all of them if there is none. -/
  ordinal : Option Nat := none
  shift : Option Shift := none
  /-- Name in messages, instead of the name of the kind. -/
  id : Option String := none
  deriving Repr, DecidableEq

namespace Selector

/-- The selector in messages. -/
def describe (s : Selector) (mixin : ClassName) : String :=
  "selector '" ++ s.id.getD s.kind.name ++ "' in " ++ mixin.text

/-- The shift of the selector's matches. -/
def resolveShift (s : Selector) (settings : ShiftSettings) : Int :=
  (s.shift.getD settings.standard).resolve settings

end Selector

end PatchWeaver

/-
  PatchWeaver.Machine.Instruction
  ───────────────────────────────
  **INSTRUCTIONS OF THE STACK MACHINE.**

  An instruction takes values off the operand stack and puts values on it
  (`effect`), and it determines where control goes (`flow`).  A return takes
  nothing: how many values it leaves behind is checked elsewhere.
-/
import PatchWeaver.Access
import PatchWeaver.Machine.Label
import PatchWeaver.Member
import PatchWeaver.Numeral.Scaled
import PatchWeaver.Text.Quoted

namespace PatchWeaver

/-! ## §1. Constants. -/

/-- Values that an instruction can push. -/
inductive Constant where
  | null
  | int (value : Int32)
  | long (value : Int64)
  | float (value : Single)
  | double (value : Double)
  | string (value : String)
  deriving Repr, DecidableEq

namespace Constant

/-- Type of a constant. -/
def type : Constant → FieldType
  | .null => .object .object
  | .int _ => .int
  | .long _ => .long
  | .float _ => .float
  | .double _ => .double
  | .string _ => .string

/-- Whether two constants are equal as values: the two zeros of a floating-point type are. -/
def same : Constant → Constant → Bool
  | .float x, .float y => x.same y
  | .double x, .double y => x.same y
  | x, y => x == y

/-- Listings show the larger of two equally short decimals, and powers of ten only for leading
digits beyond `10^-4` and `10^15`. -/
def listingLayout : DecimalLayout := ⟨.up, -4, 15⟩

/-- A floating-point number in listings. -/
def floatText {format : FloatFormat} (x : BinaryFloat format) : String :=
  match x.literal? listingLayout with
  | some literal => literal.render false
  | none => if x = .infinite true then "-inf" else "inf"

/-- A constant in listings; a mark behind a number tells its type. -/
def render : Constant → String
  | .null => "null"
  | .int value => toString value.toInt
  | .long value => toString value.toInt ++ "L"
  | .float value => floatText value ++ "f"
  | .double value => floatText value ++ "d"
  | .string value => quoted value

instance : ToString Constant := ⟨render⟩

end Constant

/-! ## §2. Instructions. -/

/-- Binary operations on numbers. -/
inductive ArithmeticOp where
  | add | sub | mul | div | rem | and | or | xor | shl | shr
  deriving Repr, DecidableEq

namespace ArithmeticOp

/-- Every operation. -/
def all : List ArithmeticOp := [.add, .sub, .mul, .div, .rem, .and, .or, .xor, .shl, .shr]

/-- Name of an operation. -/
def name : ArithmeticOp → String
  | .add => "Add"
  | .sub => "Sub"
  | .mul => "Mul"
  | .div => "Div"
  | .rem => "Rem"
  | .and => "And"
  | .or => "Or"
  | .xor => "Xor"
  | .shl => "Shl"
  | .shr => "Shr"

end ArithmeticOp

/-- Comparisons of two values. -/
inductive Comparison where
  | eq | ne | lt | ge | gt | le
  deriving Repr, DecidableEq

namespace Comparison

/-- Every comparison. -/
def all : List Comparison := [.eq, .ne, .lt, .ge, .gt, .le]

/-- Name of a comparison. -/
def name : Comparison → String
  | .eq => "Eq"
  | .ne => "Ne"
  | .lt => "Lt"
  | .ge => "Ge"
  | .gt => "Gt"
  | .le => "Le"

end Comparison

/-- Index of an argument or a local variable. -/
abbrev Slot := UInt16

/-- Instructions of the stack machine. -/
inductive Instruction where
  | nop
  | push (constant : Constant)
  | loadArg (slot : Slot)
  | storeArg (slot : Slot)
  | loadLocal (slot : Slot)
  | storeLocal (slot : Slot)
  | pop
  | dup
  | arithmetic (op : ArithmeticOp)
  | neg
  | compare (comparison : Comparison)
  | convert (type : BaseType)
  /-- Cast a reference, or unbox it when the type is primitive. -/
  | checkCast (type : FieldType)
  /-- Read a field; a static one takes no receiver. -/
  | getField (field : FieldRef)
  /-- Write a field; a static one takes no receiver. -/
  | putField (field : FieldRef)
  /-- Allocate an object and run the constructor on it. -/
  | new (constructor : MethodRef)
  | invoke (kind : CallKind) (callee : MethodRef)
  | branch (target : Label)
  /-- Pop a value and jump if its truth is `expected`. -/
  | branchIf (expected : Bool) (target : Label)
  /-- Pop two values and jump if the comparison holds. -/
  | branchCompare (comparison : Comparison) (target : Label)
  | ret
  | throw
  deriving Repr, DecidableEq

/-- Where control goes after an instruction. -/
inductive Flow where
  | next
  | jump (target : Label)
  /-- To the label or to the next instruction. -/
  | conditional (target : Label)
  | ret
  | throw
  deriving Repr, DecidableEq

/-- Name of a flow with its target. -/
def Flow.render : Flow → String
  | .next => "Next"
  | .jump target => s!"Jump({target})"
  | .conditional target => s!"Conditional({target})"
  | .ret => "Return"
  | .throw => "Throw"

/-- How many values an instruction takes off the stack, and then puts on it. -/
structure StackEffect where
  pop : Nat
  push : Nat
  deriving Repr, DecidableEq

namespace Instruction

/-- Effect on the operand stack. -/
def effect : Instruction → StackEffect
  | .nop => ⟨0, 0⟩
  | .push _ => ⟨0, 1⟩
  | .loadArg _ => ⟨0, 1⟩
  | .storeArg _ => ⟨1, 0⟩
  | .loadLocal _ => ⟨0, 1⟩
  | .storeLocal _ => ⟨1, 0⟩
  | .pop => ⟨1, 0⟩
  | .dup => ⟨1, 2⟩
  | .arithmetic _ => ⟨2, 1⟩
  | .neg => ⟨1, 1⟩
  | .compare _ => ⟨2, 1⟩
  | .convert _ => ⟨1, 1⟩
  | .checkCast _ => ⟨1, 1⟩
  | .getField field => ⟨(!field.isStatic).toNat, 1⟩
  | .putField field => ⟨(!field.isStatic).toNat + 1, 0⟩
  | .new constructor => ⟨constructor.descriptor.parameters.length, 1⟩
  | .invoke _ callee => ⟨callee.argumentCount, callee.returns.isSome.toNat⟩
  | .branch _ => ⟨0, 0⟩
  | .branchIf _ _ => ⟨1, 0⟩
  | .branchCompare _ _ => ⟨2, 0⟩
  | .ret => ⟨0, 0⟩
  | .throw => ⟨1, 0⟩

/-- Where control goes. -/
def flow : Instruction → Flow
  | .branch target => .jump target
  | .branchIf _ target => .conditional target
  | .branchCompare _ target => .conditional target
  | .ret => .ret
  | .throw => .throw
  | _ => .next

/-- Whether the instruction returns from the method. -/
def isReturn : Instruction → Bool
  | .ret => true
  | _ => false

/-- The label that the instruction may jump to. -/
def target? (i : Instruction) : Option Label :=
  match i.flow with
  | .jump target | .conditional target => some target
  | _ => none

/-- Replace the target of a jump. -/
def withTarget (new : Label) : Instruction → Instruction
  | .branch _ => .branch new
  | .branchIf expected _ => .branchIf expected new
  | .branchCompare comparison _ => .branchCompare comparison new
  | i => i

/-- Point a jump to `old` at `new`; anything else stays. -/
def retarget (old new : Label) (i : Instruction) : Instruction :=
  if i.target? = some old then i.withTarget new else i

/-- Type of the one value that the instruction leaves on the stack, where it is known. The method
that the instruction belongs to and the types of its locals decide about loads. -/
def pushedType? (method : MethodRef) (locals : List FieldType) : Instruction → Option FieldType
  | .push constant => some constant.type
  | .loadArg slot => method.argumentType? slot.toNat
  | .loadLocal slot => locals[slot.toNat]?
  | .checkCast type => some type
  | .convert type => some (.base type)
  | .getField field => some field.descriptor
  | .new constructor => some (.object constructor.owner)
  | .invoke _ callee => callee.returns
  | _ => none

/-- Whether two instructions are equal up to equal values of their constants. -/
def same : Instruction → Instruction → Bool
  | .push x, .push y => x.same y
  | i, j => i == j

/-- The instruction in listings. -/
def render : Instruction → String
  | .nop => "nop"
  | .push constant => s!"push {constant}"
  | .loadArg slot => s!"ldarg {slot}"
  | .storeArg slot => s!"starg {slot}"
  | .loadLocal slot => s!"ldloc {slot}"
  | .storeLocal slot => s!"stloc {slot}"
  | .pop => "pop"
  | .dup => "dup"
  | .arithmetic op => op.name.toLower
  | .neg => "neg"
  | .compare comparison => "cmp." ++ comparison.name.toLower
  | .convert type => "conv " ++ type.name
  | .checkCast type => s!"checkcast {type}"
  | .getField field => (if field.isStatic then "getstatic " else "getfield ") ++ field.render
  | .putField field => (if field.isStatic then "putstatic " else "putfield ") ++ field.render
  | .new constructor => s!"new {constructor}"
  | .invoke .direct callee => s!"call {callee}"
  | .invoke .virtual callee => s!"callvirt {callee}"
  | .branch target => s!"br {target}"
  | .branchIf true target => s!"brtrue {target}"
  | .branchIf false target => s!"brfalse {target}"
  | .branchCompare comparison target => "b." ++ comparison.name.toLower ++ s!" {target}"
  | .ret => "ret"
  | .throw => "throw"

instance : ToString Instruction := ⟨render⟩

/-! ## §3. Retargeting. -/

/-- A new target changes no effect on the stack. -/
@[simp]
theorem effect_withTarget (new : Label) (i : Instruction) :
    (i.withTarget new).effect = i.effect := by
  cases i <;> rfl

/-- Retargeting changes no effect on the stack. -/
@[simp]
theorem effect_retarget (old new : Label) (i : Instruction) :
    (i.retarget old new).effect = i.effect := by
  unfold retarget
  split <;> simp

/-- A jump to the old label jumps to the new one afterwards; every other target stays. -/
theorem target?_retarget (old new : Label) (i : Instruction) :
    (i.retarget old new).target? = i.target?.map fun l => if l = old then new else l := by
  unfold retarget
  split
  · next h =>
    rw [h]
    cases i <;> simp_all [target?, flow, withTarget]
  · next h =>
    cases ht : i.target? with
    | none => rfl
    | some l =>
      have : l ≠ old := fun hl => h (by rw [ht, hl])
      simp [this]

end Instruction

end PatchWeaver

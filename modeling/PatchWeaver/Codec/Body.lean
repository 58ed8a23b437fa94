/-
  PatchWeaver.Codec.Body
  ──────────────────────
  **BODIES AS JSON.**

  Constants and instructions are choices; an instruction with two operands
  has them in an array.  Floating-point numbers are written with the fewest
  digits that read back, the even one of two equally near decimals, and
  positionally unless they are very large or very small.  An infinite
  number is written as `null`, which no constant is read from.

  The supply of labels is not written: it is started anew from the labels
  of the body.
-/
import PatchWeaver.Codec.Member
import PatchWeaver.Machine.Body

namespace PatchWeaver

open Json

/-! ## §1. Constants. -/

/-- How 32-bit numbers are written. -/
def singleLayout : DecimalLayout := ⟨.even, -6, 12⟩

/-- How 64-bit numbers are written. -/
def doubleLayout : DecimalLayout := ⟨.even, -5, 15⟩

/-- A binary number; an infinite one is `null`. -/
def Json.float {format : FloatFormat} (layout : DecimalLayout) (x : BinaryFloat format) : Json :=
  ofOption .number (x.literal? layout)

/-- A number, read as one of 32 bits; there is nothing to read from `null`. -/
def Json.single? : Json → Option Single
  | .number literal => literal.toSingle?
  | _ => none

/-- A number, read as one of 64 bits. -/
def Json.double? : Json → Option Double
  | .number literal => literal.toDouble?
  | _ => none

namespace Constant

/-- A choice of the kind of constant, with the value as its payload. -/
def toJson : Constant → Json
  | .null => .string "Null"
  | .int value => chosen "Int" (.int value.toInt)
  | .long value => chosen "Long" (.int value.toInt)
  | .float value => chosen "Float" (.float singleLayout value)
  | .double value => chosen "Double" (.float doubleLayout value)
  | .string value => chosen "String" (.string value)

/-- The constant of a choice, if its payload is a value of the kind. -/
def ofJson? (j : Json) : Option Constant := do
  match ← j.choice? with
  | ("Null", none) | ("Null", some .null) => return .null
  | ("Int", some j) => return .int (← j.int32?)
  | ("Long", some j) => return .long (← j.int64?)
  | ("Float", some j) => return .float (← j.single?)
  | ("Double", some j) => return .double (← j.double?)
  | ("String", some j) => return .string (← j.string?)
  | _ => none

end Constant

/-! ## §2. Instructions. -/

/-- A label goes by its number. -/
def Label.toJson (l : Label) : Json := .nat l.id

/-- A number that fits into a word of 64 bits is that of a label. -/
def Label.ofJson? (j : Json) : Option Label := j.word?.map Label.mk

/-- A slot goes by its index. -/
def slotToJson (s : Slot) : Json := .nat s.toNat

/-- A number of 16 bits is the index of a slot. -/
def slot? (j : Json) : Option Slot := (j.natOfBits? 16).map UInt16.ofNat

/-- Comparisons go by their names. -/
def Comparison.toJson (c : Comparison) : Json := .string c.name

/-- The comparison of a name. -/
def Comparison.ofJson? : Json → Option Comparison := named? Comparison.all Comparison.name

/-- The operation of a name. -/
def ArithmeticOp.ofJson? : Json → Option ArithmeticOp := named? ArithmeticOp.all ArithmeticOp.name

/-- Name of a kind of call. -/
def CallKind.name : CallKind → String
  | .direct => "Direct"
  | .virtual => "Virtual"

/-- The kind of call of a name. -/
def CallKind.ofJson? : Json → Option CallKind := named? [.direct, .virtual] CallKind.name

namespace Instruction

/-- An instruction without operands is a string. Otherwise it is a choice: one operand is the
payload, two are the items of an array. -/
def toJson : Instruction → Json
  | .nop => .string "Nop"
  | .push constant => chosen "Push" constant.toJson
  | .loadArg slot => chosen "LoadArg" (slotToJson slot)
  | .storeArg slot => chosen "StoreArg" (slotToJson slot)
  | .loadLocal slot => chosen "LoadLocal" (slotToJson slot)
  | .storeLocal slot => chosen "StoreLocal" (slotToJson slot)
  | .pop => .string "Pop"
  | .dup => .string "Dup"
  | .arithmetic op => chosen "Arithmetic" (.string op.name)
  | .neg => .string "Neg"
  | .compare comparison => chosen "Compare" comparison.toJson
  | .convert type => chosen "Convert" (.string type.name)
  | .checkCast type => chosen "CheckCast" type.toJson
  | .getField field => chosen "GetField" field.toJson
  | .putField field => chosen "PutField" field.toJson
  | .new constructor => chosen "New" constructor.toJson
  | .invoke kind callee => chosen "Invoke" (.array [.string kind.name, callee.toJson])
  | .branch target => chosen "Branch" target.toJson
  | .branchIf expected target => chosen "BranchIf" (.array [.bool expected, target.toJson])
  | .branchCompare comparison target =>
    chosen "BranchCompare" (.array [comparison.toJson, target.toJson])
  | .ret => .string "Return"
  | .throw => .string "Throw"

/-- The instructions without operands, by name. -/
def plain? : String → Option Instruction
  | "Nop" => some .nop
  | "Pop" => some .pop
  | "Dup" => some .dup
  | "Neg" => some .neg
  | "Return" => some .ret
  | "Throw" => some .throw
  | _ => none

/-- The instruction of a name with its operands. -/
def withOperands? (name : String) (j : Json) : Option Instruction :=
  match name with
  | "Push" => return .push (← Constant.ofJson? j)
  | "LoadArg" => return .loadArg (← slot? j)
  | "StoreArg" => return .storeArg (← slot? j)
  | "LoadLocal" => return .loadLocal (← slot? j)
  | "StoreLocal" => return .storeLocal (← slot? j)
  | "Arithmetic" => return .arithmetic (← ArithmeticOp.ofJson? j)
  | "Compare" => return .compare (← Comparison.ofJson? j)
  | "Convert" => return .convert (← BaseType.ofJson? j)
  | "CheckCast" => return .checkCast (← FieldType.ofJson? j)
  | "GetField" => return .getField (← FieldRef.ofJson? j)
  | "PutField" => return .putField (← FieldRef.ofJson? j)
  | "New" => return .new (← MethodRef.ofJson? j)
  | "Invoke" => do
    let (kind, callee) ← j.pair?
    return .invoke (← CallKind.ofJson? kind) (← MethodRef.ofJson? callee)
  | "Branch" => return .branch (← Label.ofJson? j)
  | "BranchIf" => do
    let (expected, target) ← j.pair?
    return .branchIf (← expected.bool?) (← Label.ofJson? target)
  | "BranchCompare" => do
    let (comparison, target) ← j.pair?
    return .branchCompare (← Comparison.ofJson? comparison) (← Label.ofJson? target)
  | _ => none

/-- The instruction of a choice; one without operands may have `null` as its payload. -/
def ofJson? (j : Json) : Option Instruction := do
  match ← j.choice? with
  | (name, none) => plain? name
  | (name, some .null) => plain? name
  | (name, some operands) => withOperands? name operands

end Instruction

/-! ## §3. Bodies. -/

/-- The origin of a name. -/
def Origin.ofJson? : Json → Option Origin := named? Origin.all Origin.name

namespace Entry

/-- An entry is a record of its three parts. -/
def toJson (e : Entry) : Json := .object [
  ("label", e.label.toJson),
  ("origin", .string e.origin.name),
  ("instruction", e.instruction.toJson)]

/-- The entry of a record; without an origin, it counts as declared. -/
def ofJson? (j : Json) : Option Entry := do
  let r ← j.record? ["label", "origin", "instruction"]
  return {
    label := ← r.field? "label" Label.ofJson?
    origin := ← r.fieldD? "origin" Origin.ofJson? .declared
    instruction := ← r.field? "instruction" Instruction.ofJson? }

end Entry

namespace Body

/-- A body is a record of its entries and of the types of its locals. The supply of labels is left
out. -/
def toJson (b : Body) : Json := .object [
  ("entries", ofList Entry.toJson b.entries),
  ("locals", ofList FieldType.toJson b.locals)]

/-- The body of a record, whose locals may be left out. Its supply of labels is not started yet. -/
def ofJson? (j : Json) : Option Body := do
  let r ← j.record? ["entries", "locals"]
  return {
    entries := ← r.field? "entries" (list? Entry.ofJson?)
    locals := ← r.listD? "locals" FieldType.ofJson? }

end Body

end PatchWeaver

/-
  PatchWeaver.Descriptor.Basic
  ────────────────────────────
  **TYPES AND THEIR DESCRIPTORS.**

  The type of a value is a base type, the objects of a class, or the arrays
  over an element type; a method has parameter types and possibly a result
  type.  Every type has one written form, its descriptor:

      I  J  Z …            base types, one letter each
      Lpkg/Klass;          objects of a class
      [D                   arrays of doubles
      (IJ)V                method: parameters, then result (`V` for none)

  Written forms are lists of characters here; `render` packs them into text.
-/
import PatchWeaver.Name

namespace PatchWeaver

/-! ## §1. Types of values. -/

/-- Primitive value types. -/
inductive BaseType where
  | byte | char | double | float | int | long | short | boolean
  deriving Repr, DecidableEq

namespace BaseType

/-- The letter of a base type in descriptors. -/
def letter : BaseType → Char
  | .byte => 'B'
  | .char => 'C'
  | .double => 'D'
  | .float => 'F'
  | .int => 'I'
  | .long => 'J'
  | .short => 'S'
  | .boolean => 'Z'

/-- The base type of a letter. -/
def ofLetter? : Char → Option BaseType
  | 'B' => some .byte
  | 'C' => some .char
  | 'D' => some .double
  | 'F' => some .float
  | 'I' => some .int
  | 'J' => some .long
  | 'S' => some .short
  | 'Z' => some .boolean
  | _ => none

theorem ofLetter?_letter (b : BaseType) : ofLetter? b.letter = some b := by
  cases b <;> rfl

theorem letter_of_ofLetter? {c : Char} {b : BaseType} (h : ofLetter? c = some b) :
    b.letter = c := by
  unfold ofLetter? at h
  split at h <;> first | (injection h with h; subst h; rfl) | contradiction

/-- Every base type. -/
def all : List BaseType := [.byte, .char, .double, .float, .int, .long, .short, .boolean]

/-- The name of a base type. -/
def name : BaseType → String
  | .byte => "Byte"
  | .char => "Char"
  | .double => "Double"
  | .float => "Float"
  | .int => "Int"
  | .long => "Long"
  | .short => "Short"
  | .boolean => "Boolean"

end BaseType

/-- Type of a value, local variable, field or parameter. -/
inductive FieldType where
  | base (type : BaseType)
  | object (className : ClassName)
  | array (element : FieldType)
  deriving Repr, DecidableEq

/-- Types whose values are references. -/
inductive RefType where
  | object (className : ClassName)
  | array (element : FieldType)
  deriving Repr, DecidableEq

/-- A reference type is a type of values. -/
def RefType.toFieldType : RefType → FieldType
  | .object className => .object className
  | .array element => .array element

namespace FieldType

/-- Type of 32-bit integers. -/
def int : FieldType := .base .int

/-- Type of 64-bit integers. -/
def long : FieldType := .base .long

/-- Type of 32-bit binary numbers. -/
def float : FieldType := .base .float

/-- Type of 64-bit binary numbers. -/
def double : FieldType := .base .double

/-- Type of truth values. -/
def boolean : FieldType := .base .boolean

/-- Type of string constants. -/
def string : FieldType := .object .string

/-- Number of array dimensions of a type. -/
def dimensions : FieldType → Nat
  | .array element => element.dimensions + 1
  | _ => 0

/-- Type of the innermost elements: the type itself when it is no array. -/
def innermost : FieldType → FieldType
  | .array element => element.innermost
  | type => type

end FieldType

/-- Parameter types and result type of a method (a receiver is not a parameter). -/
structure MethodDescriptor where
  parameters : List FieldType
  /-- `none` for a method that returns nothing. -/
  returns : Option FieldType
  deriving Repr, DecidableEq

/-- Number of values that an invocation consumes. -/
def MethodDescriptor.argumentCount (d : MethodDescriptor) (hasReceiver : Bool) : Nat :=
  d.parameters.length + hasReceiver.toNat

/-! ## §2. Written forms. -/

/-- Written form of the objects of a class. -/
def ClassName.descriptor (n : ClassName) : List Char :=
  'L' :: n.text.toList ++ [';']

/-- Written form of a type. -/
def FieldType.chars : FieldType → List Char
  | .base type => [type.letter]
  | .object className => className.descriptor
  | .array element => '[' :: element.chars

/-- Written form of a reference type. -/
def RefType.chars (t : RefType) : List Char := t.toFieldType.chars

/-- Written form of a method descriptor. -/
def MethodDescriptor.chars (d : MethodDescriptor) : List Char :=
  '(' :: d.parameters.flatMap FieldType.chars ++ ')' ::
    (match d.returns with
    | none => ['V']
    | some type => type.chars)

/-- Descriptor of a type, as a text. -/
def FieldType.render (t : FieldType) : String := String.ofList t.chars

/-- Descriptor of a reference type, as a text. -/
def RefType.render (t : RefType) : String := String.ofList t.chars

/-- Descriptor of a method, as a text. -/
def MethodDescriptor.render (d : MethodDescriptor) : String := String.ofList d.chars

instance : ToString FieldType := ⟨FieldType.render⟩

instance : ToString MethodDescriptor := ⟨MethodDescriptor.render⟩

/-- A result type in messages: `V` for none. -/
def renderResult : Option FieldType → String
  | none => "V"
  | some type => type.render

end PatchWeaver

/-
  PatchWeaver.Codec.Member
  ────────────────────────
  **NAMES, TYPES AND REFERENCES AS JSON.**

  Names and descriptors are strings; a string that is no legal name or
  descriptor stands for nothing.  References are records.
-/
import PatchWeaver.Descriptor.Reader
import PatchWeaver.Json.Record
import PatchWeaver.Member

namespace PatchWeaver

open Json

/-- A string that has to be read further. -/
def Json.parsed? {ε α : Type} (parse : String → Except ε α) (j : Json) : Option α := do
  (parse (← j.string?)).toOption

/-! ## §1. Names and descriptors. -/

/-- A name is written as its text. -/
def MemberName.toJson (n : MemberName) : Json := .string n.text

/-- A text that is a legal name of a member. -/
def MemberName.ofJson? : Json → Option MemberName := parsed? MemberName.ofString

/-- The name of a class is written as its text, with slashes. -/
def ClassName.toJson (n : ClassName) : Json := .string n.text

/-- A text that is a legal name of a class. -/
def ClassName.ofJson? : Json → Option ClassName := parsed? ClassName.ofString

/-- A type is written as its descriptor. -/
def FieldType.toJson (t : FieldType) : Json := .string t.render

/-- A text that is the descriptor of a type, from its first to its last character. -/
def FieldType.ofJson? : Json → Option FieldType := parsed? FieldType.parse

/-- The types of a method are written as its descriptor. -/
def MethodDescriptor.toJson (d : MethodDescriptor) : Json := .string d.render

/-- A text that is the descriptor of a method, from its first to its last character. -/
def MethodDescriptor.ofJson? : Json → Option MethodDescriptor := parsed? MethodDescriptor.parse

/-- Base types go by their names. -/
def BaseType.ofJson? : Json → Option BaseType := named? BaseType.all BaseType.name

/-! ## §2. References. -/

namespace MethodRef

/-- A reference to a method is a record: its class, its name, its types and whether it is static. -/
def toJson (m : MethodRef) : Json := .object [
  ("class", m.owner.toJson),
  ("name", m.name.toJson),
  ("descriptor", m.descriptor.toJson),
  ("is_static", .bool m.isStatic)]

/-- The reference of a record; unless it says otherwise, the method is not static. -/
def ofJson? (j : Json) : Option MethodRef := do
  let r ← j.record? ["class", "name", "descriptor", "is_static"]
  return {
    owner := ← r.field? "class" ClassName.ofJson?
    name := ← r.field? "name" MemberName.ofJson?
    descriptor := ← r.field? "descriptor" MethodDescriptor.ofJson?
    isStatic := ← r.fieldD? "is_static" bool? false }

end MethodRef

namespace FieldRef

/-- A reference to a field has the form of one to a method, with the type as its descriptor. -/
def toJson (f : FieldRef) : Json := .object [
  ("class", f.owner.toJson),
  ("name", f.name.toJson),
  ("descriptor", f.descriptor.toJson),
  ("is_static", .bool f.isStatic)]

/-- The reference of a record; unless it says otherwise, the field is not static. -/
def ofJson? (j : Json) : Option FieldRef := do
  let r ← j.record? ["class", "name", "descriptor", "is_static"]
  return {
    owner := ← r.field? "class" ClassName.ofJson?
    name := ← r.field? "name" MemberName.ofJson?
    descriptor := ← r.field? "descriptor" FieldType.ofJson?
    isStatic := ← r.fieldD? "is_static" bool? false }

end FieldRef

end PatchWeaver

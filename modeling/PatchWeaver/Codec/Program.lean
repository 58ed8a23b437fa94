/-
  PatchWeaver.Codec.Program
  ─────────────────────────
  **PROGRAMS AS JSON.**

  A program is an object from class names to classes, written in ascending
  order of the names.  Of several classes of one name the last one is read.
-/
import PatchWeaver.Codec.Body
import PatchWeaver.Json.Printer
import PatchWeaver.Program.Basic

namespace PatchWeaver

open Json

/-! ## §1. Members. -/

namespace MethodFlags

/-- Flags go by their bits. -/
def toJson (f : MethodFlags) : Json := .nat f.toBits

/-- The flags of some bits, if there are no other bits among them. -/
def ofJson? (j : Json) : Option MethodFlags := (j.natOfBits? 16).bind ofBits?

end MethodFlags

namespace MethodDef

/-- A method is a record; without a body its `code` is `null`. -/
def toJson (m : MethodDef) : Json := .object [
  ("name", m.name.toJson),
  ("descriptor", m.descriptor.toJson),
  ("access_flags", m.flags.toJson),
  ("code", ofOption Body.toJson m.body)]

/-- The method of a record, of which its name and its descriptor have to be given. -/
def ofJson? (j : Json) : Option MethodDef := do
  let r ← j.record? ["name", "descriptor", "access_flags", "code"]
  return {
    name := ← r.field? "name" MemberName.ofJson?
    descriptor := ← r.field? "descriptor" MethodDescriptor.ofJson?
    flags := ← r.fieldD? "access_flags" MethodFlags.ofJson? {}
    body := ← r.optional? "code" Body.ofJson? }

end MethodDef

namespace FieldDef

/-- A field is a record of its name, its type and whether it is static. -/
def toJson (f : FieldDef) : Json := .object [
  ("name", f.name.toJson),
  ("descriptor", f.descriptor.toJson),
  ("is_static", .bool f.isStatic)]

/-- The field of a record; unless it says otherwise, it is not static. -/
def ofJson? (j : Json) : Option FieldDef := do
  let r ← j.record? ["name", "descriptor", "is_static"]
  return {
    name := ← r.field? "name" MemberName.ofJson?
    descriptor := ← r.field? "descriptor" FieldType.ofJson?
    isStatic := ← r.fieldD? "is_static" bool? false }

end FieldDef

/-! ## §2. Classes and programs. -/

namespace ClassDef

/-- A class is a record of its superclass, if it has one, and its members. -/
def toJson (c : ClassDef) : Json := .object [
  ("superclass", ofOption ClassName.toJson c.superclass),
  ("methods", ofList MethodDef.toJson c.methods),
  ("fields", ofList FieldDef.toJson c.fields)]

/-- The class of a record, in which nothing has to be given. -/
def ofJson? (j : Json) : Option ClassDef := do
  let r ← j.record? ["superclass", "methods", "fields"]
  return {
    superclass := ← r.optional? "superclass" ClassName.ofJson?
    methods := ← r.listD? "methods" MethodDef.ofJson?
    fields := ← r.listD? "fields" FieldDef.ofJson? }

end ClassDef

namespace Program

/-- A program is an object whose members are its classes, by their names. -/
def toJson (p : Program) : Json :=
  .object (p.classes.map fun (name, c) => (name.text, c.toJson))

/-- A class with its name. -/
def ofMember? (member : String × Json) : Option (ClassName × ClassDef) := do
  return (← (ClassName.ofString member.1).toOption, ← ClassDef.ofJson? member.2)

/-- The program of an object, if every member of it is a class with a legal name. -/
def ofJson? : Json → Option Program
  | .object members => (members.mapM ofMember?).map ofList
  | _ => none

/-- The text of a program: indented, with a line end. -/
def text (p : Program) : String := p.toJson.pretty ++ "\n"

end Program

end PatchWeaver

/-
  PatchWeaver.Codec.Mixin
  ───────────────────────
  **MIXINS AS JSON.**

  Declarations are records; kinds of injectors and of selectors are tagged
  records, so their own fields stand beside their `type`.
-/
import PatchWeaver.Codec.Program
import PatchWeaver.Mixin.Declaration

namespace PatchWeaver

open Json

/-! ## §1. Selectors. -/

namespace Literal

/-- A choice of the kind of literal, with the value as its payload. -/
def toJson : Literal → Json
  | .int value => chosen "Int" (.int value.toInt)
  | .long value => chosen "Long" (.int value.toInt)
  | .float value => chosen "Float" (.float singleLayout value)
  | .double value => chosen "Double" (.float doubleLayout value)
  | .string value => chosen "String" (.string value)
  | .boolean value => chosen "Boolean" (.bool value)

/-- The literal of a choice, if its payload is a value of the kind. -/
def ofJson? (j : Json) : Option Literal := do
  match ← j.choice? with
  | ("Int", some j) => return .int (← j.int32?)
  | ("Long", some j) => return .long (← j.int64?)
  | ("Float", some j) => return .float (← j.single?)
  | ("Double", some j) => return .double (← j.double?)
  | ("String", some j) => return .string (← j.string?)
  | ("Boolean", some j) => return .boolean (← j.bool?)
  | _ => none

end Literal

namespace CallKinds

/-- A set of kinds of calls goes by its bits. -/
def toJson (s : CallKinds) : Json := .nat s.toBits

/-- The set of some bits, if there are no other bits among them. -/
def ofJson? (j : Json) : Option CallKinds := (j.natOfBits? 8).bind ofBits?

end CallKinds

namespace SelectorKind

/-- A tagged record; only calls and constants have fields besides the tag. -/
def toJson : SelectorKind → Json
  | .invoke owner name parameters kinds => tagged "Invoke" [
    ("class", owner.toJson),
    ("name", name.toJson),
    ("parameters", ofOption (ofList FieldType.toJson) parameters),
    ("kinds", kinds.toJson)]
  | .loadConstant value => tagged "LoadConstant" [("value", value.toJson)]
  | kind => tagged kind.name []

/-- The kind of selector with a name and the fields of that kind. -/
def withFields? (name : String) (rest : Json) : Option SelectorKind :=
  match name with
  | "At" => rest.noFields?.map fun _ => .base
  | "Head" => rest.noFields?.map fun _ => .head
  | "Tail" => rest.noFields?.map fun _ => .tail
  | "Return" => rest.noFields?.map fun _ => .ret
  | "Invoke" => do
    let r ← rest.record? ["class", "name", "parameters", "kinds"]
    return .invoke (← r.field? "class" ClassName.ofJson?) (← r.field? "name" MemberName.ofJson?)
      (← r.optional? "parameters" (list? FieldType.ofJson?))
      (← r.fieldD? "kinds" CallKinds.ofJson? .all)
  | "LoadConstant" => do
    let r ← rest.record? ["value"]
    return .loadConstant (← r.field? "value" Literal.ofJson?)
  | _ => none

/-- The kind of selector that the tag of a record names. -/
def ofJson? (j : Json) : Option SelectorKind := do
  let (name, rest) ← j.tagged?
  withFields? name rest

end SelectorKind

namespace Shift

/-- A choice: a distance is a payload, and a direction has none. -/
def toJson : Shift → Json
  | .by distance => chosen "By" (.int distance.toInt)
  | .before => .string "Before"
  | .after => .string "After"

/-- The shift of a choice; a direction may have `null` as its payload. -/
def ofJson? (j : Json) : Option Shift := do
  match ← j.choice? with
  | ("By", some j) => return .by (← j.int64?)
  | ("Before", none) | ("Before", some .null) => return .before
  | ("After", none) | ("After", some .null) => return .after
  | _ => none

end Shift

namespace Selector

/-- A selector is a record, in which what it does not give is `null`. -/
def toJson (s : Selector) : Json := .object [
  ("at", s.kind.toJson),
  ("ordinal", ofOption .nat s.ordinal),
  ("shift", ofOption Shift.toJson s.shift),
  ("id", ofOption .string s.id)]

/-- The selector of a record, of which only `at` has to be given. -/
def ofJson? (j : Json) : Option Selector := do
  let r ← j.record? ["at", "ordinal", "shift", "id"]
  return {
    kind := ← r.field? "at" SelectorKind.ofJson?
    ordinal := ← r.optional? "ordinal" word?
    shift := ← r.optional? "shift" Shift.ofJson?
    id := ← r.optional? "id" string? }

end Selector

/-! ## §2. Injectors and targets. -/

/-- A way to treat locals goes by its name. -/
def LocalCapture.toJson (l : LocalCapture) : Json := .string l.name

/-- The way to treat locals of a name, which always stands inside a tagged record. -/
def LocalCapture.ofJson? : Json → Option LocalCapture :=
  taggedNamed? LocalCapture.all LocalCapture.name

namespace InjectorKind

/-- A tagged record with the fields that the kind has. -/
def toJson : InjectorKind → Json
  | .inject cancellable locals => tagged "Inject" [
    ("cancellable", .bool cancellable),
    ("locals", locals.toJson)]
  | .modifyConstant locals => tagged "ModifyConstant" [("locals", locals.toJson)]
  | kind => tagged kind.name []

/-- The kind of injector with a name and the fields of that kind. -/
def withFields? (name : String) (rest : Json) : Option InjectorKind :=
  match name with
  | "Injector" => rest.noFields?.map fun _ => .base
  | "Inject" => do
    let r ← rest.record? ["cancellable", "locals"]
    return .inject (← r.fieldD? "cancellable" bool? false)
      (← r.fieldD? "locals" LocalCapture.ofJson? .dont)
  | "ModifyConstant" => do
    let r ← rest.record? ["locals"]
    return .modifyConstant (← r.fieldD? "locals" LocalCapture.ofJson? .dont)
  | "Redirect" => rest.noFields?.map fun _ => .redirect
  | "ModifyValue" => rest.noFields?.map fun _ => .modifyValue
  | _ => none

/-- The kind of injector that the tag of a record names. -/
def ofJson? (j : Json) : Option InjectorKind := do
  let (name, rest) ← j.tagged?
  withFields? name rest

end InjectorKind

namespace Injector

/-- An injector is a record, in which what it does not give is `null`. -/
def toJson (i : Injector) : Json := .object [
  ("kind", i.kind.toJson),
  ("id", ofOption .string i.id),
  ("priority", ofOption (.int ·.toInt) i.priority),
  ("disabled", .bool i.disabled),
  ("required", .bool i.required),
  ("min_injections", .nat i.minInjections),
  ("max_injections", ofOption .nat i.maxInjections)]

/-- The injector of a record. Only its kind has to be given: then one application is expected, with
no limit, and the injector is neither disabled nor required. -/
def ofJson? (j : Json) : Option Injector := do
  let r ← j.record? ["kind", "id", "priority", "disabled", "required", "min_injections",
    "max_injections"]
  return {
    kind := ← r.field? "kind" InjectorKind.ofJson?
    id := ← r.optional? "id" string?
    priority := ← r.optional? "priority" int32?
    disabled := ← r.fieldD? "disabled" bool? false
    required := ← r.fieldD? "required" bool? false
    minInjections := ← r.fieldD? "min_injections" word? 1
    maxInjections := ← r.optional? "max_injections" word? }

end Injector

/-- The policy of a name. -/
def MissPolicy.ofJson? : Json → Option MissPolicy := named? MissPolicy.all MissPolicy.name

namespace Target

/-- A target is a record; parameters that it leaves open are `null`. -/
def toJson (t : Target) : Json := .object [
  ("name", t.name.toJson),
  ("parameters", ofOption (ofList FieldType.toJson) t.parameters),
  ("on_failure", .string t.onMiss.name)]

/-- The target of a record; unless it says otherwise, a miss ends the run. -/
def ofJson? (j : Json) : Option Target := do
  let r ← j.record? ["name", "parameters", "on_failure"]
  return {
    name := ← r.field? "name" MemberName.ofJson?
    parameters := ← r.optional? "parameters" (list? FieldType.ofJson?)
    onMiss := ← r.fieldD? "on_failure" MissPolicy.ofJson? .abort }

end Target

/-! ## §3. Mixins. -/

namespace MixinMethod

/-- A method entry is a record of all that is declared for the method. -/
def toJson (m : MixinMethod) : Json := .object [
  ("name", m.name.toJson),
  ("descriptor", m.descriptor.toJson),
  ("is_static", .bool m.isStatic),
  ("shadow", .bool m.shadow),
  ("injectors", ofList Injector.toJson m.injectors),
  ("targets", ofList Target.toJson m.targets),
  ("selectors", ofList Selector.toJson m.selectors)]

/-- The method entry of a record. Only its name and its descriptor have to be given: then it is a
method of an instance, no shadow, and without injectors. -/
def ofJson? (j : Json) : Option MixinMethod := do
  let r ← j.record? ["name", "descriptor", "is_static", "shadow", "injectors", "targets",
    "selectors"]
  return {
    name := ← r.field? "name" MemberName.ofJson?
    descriptor := ← r.field? "descriptor" MethodDescriptor.ofJson?
    isStatic := ← r.fieldD? "is_static" bool? false
    shadow := ← r.fieldD? "shadow" bool? false
    injectors := ← r.listD? "injectors" Injector.ofJson?
    targets := ← r.listD? "targets" Target.ofJson?
    selectors := ← r.listD? "selectors" Selector.ofJson? }

end MixinMethod

namespace Mixin

/-- A mixin is a record of all that it declares. -/
def toJson (m : Mixin) : Json := .object [
  ("name", m.name.toJson),
  ("targets", ofList ClassName.toJson m.targets),
  ("priority", .int m.priority.toInt),
  ("methods", ofList MixinMethod.toJson m.methods),
  ("shadow_fields", ofList FieldDef.toJson m.shadowFields)]

/-- The mixin of a record, of which its name and its targets have to be given. -/
def ofJson? (j : Json) : Option Mixin := do
  let r ← j.record? ["name", "targets", "priority", "methods", "shadow_fields"]
  return {
    name := ← r.field? "name" ClassName.ofJson?
    targets := ← r.field? "targets" (list? ClassName.ofJson?)
    priority := ← r.fieldD? "priority" int32? 0
    methods := ← r.listD? "methods" MixinMethod.ofJson?
    shadowFields := ← r.listD? "shadow_fields" FieldDef.ofJson? }

end Mixin

end PatchWeaver

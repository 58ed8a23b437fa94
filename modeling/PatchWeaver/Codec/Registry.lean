/-
  PatchWeaver.Codec.Registry
  ──────────────────────────
  **REGISTRIES AS JSON.**

  A registry is only ever written: it tells what a scan has found.
-/
import PatchWeaver.Codec.Mixin
import PatchWeaver.Weave.Patch

namespace PatchWeaver

open Json

namespace Patch

/-- A patch is a record of all that a scan found for it. -/
def toJson (p : Patch) : Json := .object [
  ("id", .nat p.id),
  ("mixin", p.mixin.toJson),
  ("body", p.body.toJson),
  ("injector", p.injector.toJson),
  ("priority", .int p.priority.toInt),
  ("selectors", ofList Selector.toJson p.selectors),
  ("targets", ofList Target.toJson p.targets)]

end Patch

namespace MixinInfo

/-- A mixin is a record of the classes it goes to, and of its members by what becomes of them. -/
def toJson (m : MixinInfo) : Json := .object [
  ("name", m.name.toJson),
  ("target_classes", ofList ClassName.toJson m.targetClasses),
  ("patches", ofList .nat m.patches),
  ("methods_to_remap", ofList MethodRef.toJson m.copied),
  ("shadow_methods", ofList MethodRef.toJson m.shadowMethods),
  ("shadow_fields", ofList FieldRef.toJson m.shadowFields)]

end MixinInfo

namespace Registry

/-- A registry is a record of its mixins and its patches. -/
def toJson (r : Registry) : Json := .object [
  ("mixins", ofList MixinInfo.toJson r.mixins),
  ("patches", ofList Patch.toJson r.patches)]

/-- The text of a registry: indented, with a line end. -/
def text (r : Registry) : String := r.toJson.pretty ++ "\n"

end Registry

end PatchWeaver

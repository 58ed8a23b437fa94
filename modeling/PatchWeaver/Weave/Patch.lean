/-
  PatchWeaver.Weave.Patch
  ───────────────────────
  **PATCHES AND THEIR REGISTRY.**

  A registry holds every enabled patch, in the order of discovery, and what
  every mixin contributes.  A patch is identified by its place.
-/
import PatchWeaver.Mixin.Declaration

namespace PatchWeaver

/-- Place of a patch in the registry. -/
abbrev PatchId := Nat

/-- One injector on one method of a mixin. -/
structure Patch where
  id : PatchId
  mixin : ClassName
  /-- The method of the mixin that the patch calls. -/
  body : MethodRef
  injector : Injector
  /-- Priority of the injector, or else of the mixin. -/
  priority : Int32
  selectors : List Selector
  targets : List Target
  deriving Repr, DecidableEq

namespace Patch

/-- The patch in messages. -/
def describe (p : Patch) : String := p.injector.describe p.mixin

/-- What the patch does. -/
def kind (p : Patch) : InjectorKind := p.injector.kind

end Patch

/-- What a mixin contributes. -/
structure MixinInfo where
  name : ClassName
  /-- The targets that exist. -/
  targetClasses : List ClassName
  patches : List PatchId
  /-- The methods that are copied onto every target class. -/
  copied : List MethodRef
  shadowMethods : List MethodRef
  shadowFields : List FieldRef
  deriving Repr, DecidableEq

/-- Every mixin and every enabled patch. -/
structure Registry where
  mixins : List MixinInfo
  patches : List Patch
  deriving Repr, DecidableEq

namespace Registry

/-- The patch at a place. -/
def patch? (r : Registry) (id : PatchId) : Option Patch := r.patches[id]?

/-- The mixin of a patch: the first one of that name. -/
def mixinOf? (r : Registry) (p : Patch) : Option MixinInfo := r.mixins.find? (·.name = p.mixin)

end Registry

end PatchWeaver

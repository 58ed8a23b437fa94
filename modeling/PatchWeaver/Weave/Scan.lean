/-
  PatchWeaver.Weave.Scan
  ──────────────────────
  **FROM DECLARATIONS TO A REGISTRY.**

  Mixins are taken in order, and their methods in order.  A shadow method is
  only recorded; every other method is recorded for copying, and one with an
  enabled injector becomes a patch, numbered by its place.

  A run ends at the first declaration that makes no sense: two injectors on
  one method, a shadow with an injector, an injector or a selector of the
  base kind, a patch without targets, or a mixin with patches none of whose
  target classes exists.  A target class that does not exist is reported.
-/
import PatchWeaver.Weave.Trace

namespace PatchWeaver

/-! ## §1. One mixin. -/

/-- The patches found so far, and what the mixin at hand has contributed so far. -/
structure ScanState where
  patches : List Patch
  info : MixinInfo
  deriving Repr, DecidableEq

namespace ScanState

/-- Record a method as a shadow. -/
def addShadow (s : ScanState) (m : MethodRef) : ScanState :=
  { s with info := { s.info with shadowMethods := s.info.shadowMethods ++ [m] } }

/-- Record a method for copying. -/
def addCopied (s : ScanState) (m : MethodRef) : ScanState :=
  { s with info := { s.info with copied := s.info.copied ++ [m] } }

/-- Record a patch, which has to be numbered by its place. -/
def addPatch (s : ScanState) (p : Patch) : ScanState where
  patches := s.patches ++ [p]
  info := { s.info with patches := s.info.patches ++ [p.id] }

end ScanState

/-- The declared targets that exist, each once. -/
def targetClasses (program : Program) (mixin : Mixin) : List ClassName :=
  (mixin.targets.filter program.hasClass).eraseDups

/-- A report for every declared target that does not exist. -/
def missingTargets (program : Program) (mixin : Mixin) : List Event :=
  (mixin.targets.filter (!program.hasClass ·)).map fun c =>
    .error .scan (.unresolvedClass mixin.name c)

/-- Make a patch of a method with an injector, unless the injector is disabled. -/
def scanInjector (mixin : Mixin) (method : MixinMethod) (injector : Injector) (s : ScanState) :
    Traced ScanState := do
  let body := method.ref mixin.name
  let description := injector.describe mixin.name
  if injector.kind = .base then Traced.fail (.abstractInjector description)
  else if injector.disabled then
    Traced.note .debug .scan s!"Skipping disabled {description}"
    return s
  else
    match method.selectors.find? (·.kind = .base) with
    | some selector => Traced.fail (.abstractSelector (selector.describe mixin.name))
    | none =>
      if method.targets.isEmpty then Traced.fail (.noTargets description)
      else
        let priority := injector.priority.getD mixin.priority
        let shown := toString priority.toInt
        Traced.note .debug .register s!"Registered {description} on {body} (priority {shown})"
        return s.addPatch {
          id := s.patches.length
          mixin := mixin.name
          body, injector, priority
          selectors := method.selectors
          targets := method.targets }

/-- Record one method of a mixin. -/
def scanMethod (mixin : Mixin) (s : ScanState) (method : MixinMethod) : Traced ScanState :=
  let body := method.ref mixin.name
  match method.injectors with
  | _ :: _ :: _ => Traced.fail (.multipleInjectors body)
  | [] => pure (if method.shadow then s.addShadow body else s.addCopied body)
  | [injector] =>
    if method.shadow then Traced.fail (.shadowInjector body)
    else scanInjector mixin method injector (s.addCopied body)

/-- Record a mixin. -/
def scanMixin (program : Program) (r : Registry) (mixin : Mixin) : Traced Registry := do
  Traced.note .debug .scan ("Scanning mixin " ++ mixin.name.text)
  Traced.tell (missingTargets program mixin)
  let s ← mixin.methods.foldlM (scanMethod mixin) {
    patches := r.patches
    info := {
      name := mixin.name
      targetClasses := targetClasses program mixin
      patches := []
      copied := []
      shadowMethods := []
      shadowFields := mixin.shadowFields.map (·.ref mixin.name) } }
  if ¬s.info.patches.isEmpty ∧ s.info.targetClasses.isEmpty then
    Traced.fail (.noTargetClasses mixin.name)
  else return { mixins := r.mixins ++ [s.info], patches := s.patches }

/-! ## §2. All mixins. -/

/-- Validate declarations and collect their patches. -/
def Registry.scan (program : Program) (mixins : List Mixin) : Traced Registry := do
  let r ← mixins.foldlM (scanMixin program) { mixins := [], patches := [] }
  let patchCount := r.patches.length
  let mixinCount := r.mixins.length
  Traced.note .info .scan s!"Found {patchCount} patches in {mixinCount} mixins"
  return r

end PatchWeaver

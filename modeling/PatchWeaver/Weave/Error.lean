/-
  PatchWeaver.Weave.Error
  ───────────────────────
  **WHAT ABORTS A RUN.**

  A run that fails with one of these has changed nothing.  The last group
  names what a run on scanned mixins cannot meet: an identity of a patch
  outside of the registry, and a position outside of a body.
-/
import PatchWeaver.Weave.Expectation

namespace PatchWeaver

/-- Conditions that abort a run. Patches, targets and selectors are given by their description. -/
inductive WeaveError where
  | machine (error : MachineError)
  | stackAnalysis (method : MethodRef) (error : MachineError)
  | multipleInjectors (method : MethodRef)
  | shadowInjector (method : MethodRef)
  | abstractInjector (patch : String)
  | abstractSelector (selector : String)
  | noTargets (patch : String)
  | noTargetClasses (mixin : ClassName)
  | unresolvedTarget (patch target : String) (className : ClassName)
  | requiredDisplaced (patch winner : String) (method : MethodRef) (offset : Nat)
  | missingCopy (className : ClassName) (body : MethodRef)
  | missingPatchBody (method : MethodRef)
  | missingShadowMethod (method : MethodRef) (className : ClassName)
  | missingShadowField (field : FieldRef) (className : ClassName)
  | invalidSite (patch : String) (method : MethodRef) (reason : Rejection)
  | copyCollision (method : MethodRef)
  /-- The file for the patches found cannot be written. -/
  | snapshotFailed (path : String)
  /-- No patch has this identity. -/
  | unknownPatch (id : PatchId)
  /-- The body has no such position. -/
  | positionOutOfRange (position : Nat)
  deriving Repr, DecidableEq

/-- The wording of an error. -/
def WeaveError.message : WeaveError → String
  | .machine error => error.message
  | .stackAnalysis method error => s!"stack analysis of {method} failed: " ++ error.message
  | .multipleInjectors method => s!"{method} declares more than one injector"
  | .shadowInjector method => s!"{method} cannot be both a shadow and an injector"
  | .abstractInjector patch => s!"{patch} uses the abstract injector kind directly"
  | .abstractSelector selector => s!"{selector} uses the abstract selector kind directly"
  | .noTargets patch => s!"{patch} has no target methods"
  | .noTargetClasses mixin => s!"mixin {mixin} has no resolvable target classes"
  | .unresolvedTarget patch target className =>
    s!"{patch}: no method on {className} matches target {target}"
  | .requiredDisplaced patch winner method offset =>
    s!"{patch} is required but {winner} replaces instruction {offset} of {method}"
  | .missingCopy className body => s!"no remapped copy of {body} exists on {className}"
  | .missingPatchBody method => s!"patch body {method} has no code"
  | .missingShadowMethod method className =>
    s!"shadow member {method} has no counterpart on {className}"
  | .missingShadowField field className =>
    s!"shadow member {field} has no counterpart on {className}"
  | .invalidSite patch method reason => s!"{patch} cannot apply to {method}: " ++ reason.message
  | .copyCollision method => s!"remapped method {method} already exists"
  | .snapshotFailed path => s!"cannot write {path}"
  | .unknownPatch id => s!"there is no patch {id}"
  | .positionOutOfRange position => s!"there is no instruction {position}"

/-- A result of the program model as a result of a run. -/
def liftMachine {α : Type} (result : Except MachineError α) : Except WeaveError α :=
  result.mapError .machine

end PatchWeaver

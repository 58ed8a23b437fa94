/-
  PatchWeaver.Weave.Signature
  ───────────────────────────
  **WHICH BODIES CAN BE CALLED FROM A METHOD.**

  A patch body is called from a target method with synthetic arguments
  first and then, as far as it declares more parameters, the target's own
  arguments:

      parameters of the body = synthetic types ++ some of the target's, from the first on

  The result type has to be the expected one, and a body that needs a
  receiver cannot be called from a static method.  Types are compared as
  they are; nothing is converted.
-/
import PatchWeaver.Member

namespace PatchWeaver

/-- Why a body cannot be called from a target method. -/
inductive SignatureError where
  | instanceOnStatic
  | returnType (expected found : Option FieldType)
  | missingParameters (expected found : Nat)
  | tooManyParameters (max found : Nat)
  | parameterType (index : Nat) (expected found : FieldType)
  deriving Repr, DecidableEq

/-- The wording of a signature error. -/
def SignatureError.message : SignatureError → String
  | .instanceOnStatic => "an instance patch cannot target a static method"
  | .returnType expected found =>
    "patch returns " ++ renderResult found ++ " but " ++ renderResult expected ++ " is required"
  | .missingParameters expected found =>
    s!"patch takes {found} parameters but needs at least {expected}"
  | .tooManyParameters max found =>
    s!"patch takes {found} parameters but at most {max} are available"
  | .parameterType index expected found =>
    s!"patch parameter {index} is {found} but {expected} is required"

/-- The first place, counted from `index`, at which two lists of types differ, with the type
found there and the type expected; nothing is compared behind the end of the shorter list. -/
def firstMismatch? : List FieldType → List FieldType → Nat → Option (Nat × FieldType × FieldType)
  | found :: rest, expected :: rest', index =>
    if found = expected then firstMismatch? rest rest' (index + 1)
    else some (index, found, expected)
  | _, _, _ => none

/-- Check that a body can be called from a target with the given synthetic arguments. -/
def validateSignature (target body : MethodRef) (expectedReturn : Option FieldType)
    (synthetic : List FieldType) : Except SignatureError Unit :=
  let parameters := body.descriptor.parameters
  let available := synthetic ++ target.descriptor.parameters
  if body.isStatic = false ∧ target.isStatic = true then .error .instanceOnStatic
  else if body.returns ≠ expectedReturn then .error (.returnType expectedReturn body.returns)
  else if parameters.length < synthetic.length then
    .error (.missingParameters synthetic.length parameters.length)
  else if available.length < parameters.length then
    .error (.tooManyParameters available.length parameters.length)
  else
    match firstMismatch? parameters available 0 with
    | some (index, found, expected) => .error (.parameterType index expected found)
    | none => .ok ()

end PatchWeaver

/-
  PatchWeaver.Weave.Expectation
  ─────────────────────────────
  **WHERE PATCHES OF A KIND CAN GO.**

  Each kind of injector expects a result type and synthetic parameters:

      inject           nothing back; a callback
      modifyConstant   the constant's type back; the constant
      redirect         the callee's result type back; its receiver and arguments
      modifyValue      the value's type back; the value

  What `inject` expects depends on the target method alone; the others look
  at the instruction selected.  The base kind can go nowhere.
-/
import PatchWeaver.Program.Support
import PatchWeaver.Weave.Patch
import PatchWeaver.Weave.Signature

namespace PatchWeaver

/-- Why a patch cannot go to a method or to an instruction. -/
inductive Rejection where
  | signature (error : SignatureError)
  | noBody
  | notAConstant (instruction : Instruction)
  | notAnInvoke (instruction : Instruction)
  | unknownValueType (instruction : Instruction)
  | abstractKind
  deriving Repr, DecidableEq

/-- The wording of a rejection. -/
def Rejection.message : Rejection → String
  | .signature error => error.message
  | .noBody => "the method has no body"
  | .notAConstant instruction => s!"`{instruction}` does not push a constant"
  | .notAnInvoke instruction => s!"`{instruction}` is not a method call"
  | .unknownValueType instruction => s!"the type of the value pushed by `{instruction}` is unknown"
  | .abstractKind => "the abstract injector kind generates no code"

/-- Result type and synthetic parameter types that a patch body has to declare. -/
structure Expectation where
  returns : Option FieldType
  synthetic : List FieldType
  deriving Repr, DecidableEq

/-- Type of the callback for a target method. -/
def callbackType (target : MethodRef) : FieldType :=
  .object (Support.callbackClass target.returns.isSome)

/-- The constant that an instruction pushes; the null reference does not count. -/
def pushedConstant : Instruction → Except Rejection Constant
  | .push .null => .error (.notAConstant (.push .null))
  | .push constant => .ok constant
  | i => .error (.notAConstant i)

/-- The method that an instruction calls. -/
def calledMethod : Instruction → Except Rejection MethodRef
  | .invoke _ callee => .ok callee
  | i => .error (.notAnInvoke i)

/-- Type of the one value that an instruction pushes. -/
def pushedValue (target : MethodRef) (locals : List FieldType) (i : Instruction) :
    Except Rejection FieldType :=
  if i.effect.push ≠ 1 then .error (.unknownValueType i)
  else match i.pushedType? target locals with
    | some type => .ok type
    | none => .error (.unknownValueType i)

/-- What a patch of a kind has to declare in order to go to an instruction. -/
def expectation (kind : InjectorKind) (target : MethodRef) (locals : List FieldType)
    (i : Instruction) : Except Rejection Expectation :=
  match kind with
  | .base => .error .abstractKind
  | .inject .. => .ok ⟨none, [callbackType target]⟩
  | .modifyConstant _ => do
    let constant ← pushedConstant i
    .ok ⟨some constant.type, [constant.type]⟩
  | .redirect => do
    let callee ← calledMethod i
    .ok ⟨callee.returns, callee.argumentTypes⟩
  | .modifyValue => do
    let type ← pushedValue target locals i
    .ok ⟨some type, [type]⟩

/-- A signature check whose error is a rejection. -/
def checkSignature (target : MethodRef) (patch : Patch) (e : Expectation) :
    Except Rejection Unit :=
  (validateSignature target patch.body e.returns e.synthetic).mapError .signature

/-- Check a patch against a target method, before any instruction is looked at. -/
def validateMethod (patch : Patch) (target : MethodRef) : Except Rejection Unit :=
  match patch.kind with
  | .inject .. => checkSignature target patch ⟨none, [callbackType target]⟩
  | .base => .error .abstractKind
  | .modifyConstant _ | .redirect | .modifyValue => .ok ()

/-- Check a patch against the instruction at a position of the target method. -/
def validateInstruction (patch : Patch) (target : MethodRef) (body : Body) (offset : Nat) :
    Except Rejection Unit :=
  match patch.kind with
  | .inject .. => .ok ()
  | kind =>
    match body.instruction? offset with
    | none => .error .noBody
    | some i => do checkSignature target patch (← expectation kind target body.locals i)

end PatchWeaver

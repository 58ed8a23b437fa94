/-
  PatchWeaver.Machine.Error
  ─────────────────────────
  **FAILURES OF THE PROGRAM MODEL.**

  What the stack analysis, the assembly of blocks and the changes to a
  program can fail on.
-/
import PatchWeaver.Machine.Instruction

namespace PatchWeaver

/-- Failures of the program model. -/
inductive MachineError where
  /-- Two paths reach an instruction with different numbers of values on the stack. -/
  | inconsistentStack (index existing incoming : Nat)
  /-- More than one value is left on the stack at a return. -/
  | invalidReturnStack (index depth : Nat)
  | stackUnderflow (index pop depth : Nat)
  | unknownLabel (index : Nat) (label : Label)
  /-- A label was placed while another one was waiting for its instruction. -/
  | labelAlreadyPlaced (label : Label)
  /-- A placed label never got its instruction. -/
  | unplacedLabel (label : Label)
  | missingClass (className : ClassName)
  | missingMember (method : MethodRef)
  | duplicateMethod (method : MethodRef)
  | missingBody (method : MethodRef)
  deriving Repr, DecidableEq

/-- The wording of a failure. -/
def MachineError.message : MachineError → String
  | .inconsistentStack index existing incoming =>
    s!"inconsistent stack depth at instruction {index}: {existing} vs {incoming}"
  | .invalidReturnStack index depth =>
    s!"return at instruction {index} leaves {depth} values on the stack"
  | .stackUnderflow index pop depth =>
    s!"instruction {index} pops {pop} values from a stack of depth {depth}"
  | .unknownLabel index label => s!"instruction {index} jumps to unknown label {label}"
  | .labelAlreadyPlaced label => s!"label {label} is already waiting for an instruction"
  | .unplacedLabel label => s!"label {label} was placed but no instruction followed"
  | .missingClass className => s!"missing class {className}"
  | .missingMember method => s!"missing member {method}"
  | .duplicateMethod method => s!"method {method} is already defined"
  | .missingBody method => "method " ++ method.renderFull ++ " has no body"

end PatchWeaver

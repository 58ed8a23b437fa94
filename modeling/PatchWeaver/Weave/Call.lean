/-
  PatchWeaver.Weave.Call
  ──────────────────────
  **CALLS OF PATCH BODIES.**

  A target method calls the copy of a patch body that its class declares.
  The operands are put on the stack in the order in which the copy takes
  them:

      receiver             that of the target, if the copy is an instance method
      synthetic arguments  loaded, or on the stack already
      target arguments     as many from the first on as the copy declares besides
-/
import PatchWeaver.Machine.Instruction

namespace PatchWeaver

/-- An argument that is none of the target's own. -/
structure SyntheticArgument where
  type : FieldType
  /-- Instructions that push the value; none if it is on the stack already. -/
  load : List Instruction
  deriving Repr, DecidableEq

/-- An argument that is on the stack when the call starts. -/
def SyntheticArgument.onStack (type : FieldType) : SyntheticArgument := ⟨type, []⟩

/-- The argument slot that holds a parameter of a method; slots are 16 bits wide. -/
def MethodRef.parameterSlot (m : MethodRef) (parameter : Nat) : Slot :=
  UInt16.ofNat (parameter + (!m.isStatic).toNat)

/-- How many of the target's arguments a call passes on. -/
def forwardedCount (target copy : MethodRef) (syntheticCount : Nat) : Nat :=
  min (copy.descriptor.parameters.length - syntheticCount) target.descriptor.parameters.length

/-- Pushes the receiver of the call. -/
def loadReceiver (copy : MethodRef) : List Instruction :=
  if copy.isStatic then [] else [.loadArg 0]

/-- Pushes the target's arguments that are passed on. -/
def loadForwarded (target copy : MethodRef) (syntheticCount : Nat) : List Instruction :=
  (List.range (forwardedCount target copy syntheticCount)).map fun i =>
    .loadArg (target.parameterSlot i)

/-- A call of the copy of a patch body from its target. -/
def callInstructions (target copy : MethodRef) (synthetic : List SyntheticArgument) :
    List Instruction :=
  loadReceiver copy ++ synthetic.flatMap (·.load) ++ loadForwarded target copy synthetic.length
    ++ [.invoke .direct copy]

end PatchWeaver

/-
  PatchWeaver.Weave.CopyTable
  ───────────────────────────
  **COPIES OF MIXIN METHODS.**

  Every method of a mixin that is no shadow is copied onto each of the
  mixin's target classes, under a name of its own.  The copies are made
  first and declared later: the table lists them in the order in which they
  will be declared.

  In a copy, references to the mixin point at the target class instead:

      call of a copied method          call of its copy
      call of a shadow method          call of the target's method
      access of a shadow field         access of the target's field

  A copy whose place is taken, by a method of the program or by a copy for
  another mixin, is refused, and so is a shadow without a counterpart.
-/
import PatchWeaver.Weave.Trace

namespace PatchWeaver

/-! ## §1. Copies. -/

/-- A copy of a mixin method, to be declared on a target class. -/
structure MethodCopy where
  /-- The mixin method. -/
  source : MethodRef
  /-- The copy. -/
  ref : MethodRef
  flags : MethodFlags
  body : Body
  deriving Repr, DecidableEq

/-- The copies of a run, in the order in which they are declared. -/
structure CopyTable where
  copies : List MethodCopy := []
  deriving Repr, DecidableEq

namespace CopyTable

/-- The copy of a mixin method on a class; the newest one counts. -/
def find? (t : CopyTable) (owner : ClassName) (source : MethodRef) : Option MethodRef :=
  (t.copies.reverse.find? fun c => c.ref.owner = owner ∧ c.source = source).map (·.ref)

/-- The copy of a mixin method on a class, which has to exist. -/
def find (t : CopyTable) (owner : ClassName) (source : MethodRef) : Except WeaveError MethodRef :=
  match t.find? owner source with
  | some ref => .ok ref
  | none => .error (.missingCopy owner source)

/-- Whether a method is the place of a copy. -/
def hasRef (t : CopyTable) (method : MethodRef) : Bool := t.copies.any (·.ref = method)

end CopyTable

/-! ## §2. Pointing references at the target class. -/

/-- The place of the copy of a mixin method. -/
def MixinInfo.copyRef (mixin : MixinInfo) (owner : ClassName) (method : MethodRef) : MethodRef where
  owner := owner
  name := MemberName.mangled mixin.name method.name
  descriptor := method.descriptor
  isStatic := method.isStatic

/-- Where a copy on a class calls instead of `callee`. -/
def redirectCall (program : Program) (mixin : MixinInfo) (owner : ClassName) (callee : MethodRef) :
    Except WeaveError MethodRef :=
  if callee ∈ mixin.copied then .ok (mixin.copyRef owner callee)
  else if callee ∈ mixin.shadowMethods then
    if program.hasMethod (callee.onClass owner) then .ok (callee.onClass owner)
    else .error (.missingShadowMethod callee owner)
  else .ok callee

/-- Which field a copy on a class accesses instead of `field`. -/
def redirectField (program : Program) (mixin : MixinInfo) (owner : ClassName) (field : FieldRef) :
    Except WeaveError FieldRef :=
  if field ∈ mixin.shadowFields then
    if program.hasField (field.onClass owner) then .ok (field.onClass owner)
    else .error (.missingShadowField field owner)
  else .ok field

/-- An instruction of a mixin method as it stands in a copy on a class. -/
def redirectInstruction (program : Program) (mixin : MixinInfo) (owner : ClassName) :
    Instruction → Except WeaveError Instruction
  | .invoke kind callee => do return .invoke kind (← redirectCall program mixin owner callee)
  | .getField field => do return .getField (← redirectField program mixin owner field)
  | .putField field => do return .putField (← redirectField program mixin owner field)
  | i => .ok i

/-- The body of a copy on a class. -/
def redirectBody (program : Program) (mixin : MixinInfo) (owner : ClassName) (body : Body) :
    Except WeaveError Body := do
  let entries ← body.entries.mapM fun e => do
    return { e with instruction := ← redirectInstruction program mixin owner e.instruction }
  return { body with entries }

/-! ## §3. Making copies. -/

/-- Refuse a mixin on a class if the place of one of its copies is taken. -/
def checkPlaces (program : Program) (mixin : MixinInfo) (t : CopyTable) (owner : ClassName) :
    Except WeaveError Unit :=
  match (mixin.copied.map (mixin.copyRef owner)).find? fun m =>
      program.hasMethod m || t.hasRef m with
  | some taken => .error (.copyCollision taken)
  | none => .ok ()

/-- The copy of a mixin method on a class. -/
def makeCopy (program : Program) (mixin : MixinInfo) (owner : ClassName) (method : MethodRef) :
    Except WeaveError MethodCopy :=
  match program.body? method with
  | none => .error (.missingPatchBody method)
  | some body => do
    return {
      source := method
      ref := mixin.copyRef owner method
      flags := .copied method.isStatic
      body := ← redirectBody program mixin owner body }

/-- Add the copy of a mixin method on a class. -/
def addCopy (program : Program) (mixin : MixinInfo) (owner : ClassName) (t : CopyTable)
    (method : MethodRef) : Traced CopyTable := do
  let copy ← Traced.lift (makeCopy program mixin owner method)
  let place := copy.ref
  Traced.note .debug .register s!"Remapped {method} to {place}"
  return ⟨t.copies ++ [copy]⟩

/-- Add the copies of a mixin on a class. -/
def addCopies (program : Program) (mixin : MixinInfo) (t : CopyTable) (owner : ClassName) :
    Traced CopyTable := do
  Traced.lift (checkPlaces program mixin t owner)
  mixin.copied.foldlM (addCopy program mixin owner) t

/-- Copy every mixin onto each of its target classes. -/
def CopyTable.build (program : Program) (r : Registry) : Traced CopyTable :=
  r.mixins.foldlM (fun t mixin => mixin.targetClasses.foldlM (addCopies program mixin) t) {}

/-! ## §4. Declaring copies. -/

/-- Check copies in order, given the places that copies before them take. -/
def checkDeclarable (program : Program) : List MethodCopy → List MethodRef → Except WeaveError Unit
  | [], _ => .ok ()
  | copy :: rest, taken =>
    if !program.hasClass copy.ref.owner then .error (.machine (.missingClass copy.ref.owner))
    else if program.hasMethod copy.ref ∨ copy.ref ∈ taken then .error (.copyCollision copy.ref)
    else checkDeclarable program rest (copy.ref :: taken)

/-- Check that all copies of a table can be declared. -/
def CopyTable.check (t : CopyTable) (program : Program) : Except WeaveError Unit :=
  checkDeclarable program t.copies []

/-- Declare copies in order; a failure leaves those before it declared. -/
def declareAll : List MethodCopy → Program → Except WeaveError (List MethodRef) × Program
  | [], program => (.ok [], program)
  | copy :: rest, program =>
    match program.addMethod copy.ref copy.flags (some copy.body) with
    | .error e => (.error (.machine e), program)
    | .ok program =>
      let (added, program) := declareAll rest program
      (added.map (copy.ref :: ·), program)

/-- Declare all copies of a table. The places are those of the methods added. -/
def CopyTable.declare (t : CopyTable) (program : Program) :
    Except WeaveError (List MethodRef) × Program := declareAll t.copies program

end PatchWeaver

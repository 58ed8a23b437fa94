/-
  PatchWeaver.Weave.Emission
  ──────────────────────────
  **THE CODE OF A PATCH.**

  What is put into a target method for a patch depends on its kind.

      inject           make a callback, call the copy with it; then, if the patch
                       may cancel and has done so, return from the target
      modifyConstant   push the constant and call the copy
      redirect         call the copy, the callee's operands being on the stack
      modifyValue      call the copy, the value being on the stack

  Operands on the stack stay there for a static copy.  An instance copy
  needs its receiver underneath, so they are moved to fresh locals and
  loaded back from them.  All callbacks of one instruction share a local.

  An emission that fails changes nothing.
-/
import PatchWeaver.Machine.Block
import PatchWeaver.Weave.Call
import PatchWeaver.Weave.Error

namespace PatchWeaver

/-! ## §1. Sites. -/

/-- The instruction that patches are applied to. -/
structure Site where
  method : MethodRef
  instruction : Instruction
  /-- Stack depth just before the instruction. -/
  depth : Nat
  deriving Repr, DecidableEq

/-- The body that code is emitted for, which grows locals and draws labels. -/
structure Workbench where
  body : Body
  /-- The local that holds the callback, once there is one. -/
  callback : Option Slot := none
  deriving Repr, DecidableEq

namespace Workbench

/-- The local for the callback, made on first use. -/
def callbackSlot (w : Workbench) (type : FieldType) : Slot × Workbench :=
  match w.callback with
  | some slot => (slot, w)
  | none =>
    let (slot, body) := w.body.allocate type
    (slot, ⟨body, some slot⟩)

end Workbench

/-- Add one local for each type. -/
def Body.allocateAll (b : Body) : List FieldType → List Slot × Body
  | [] => ([], b)
  | type :: rest =>
    let (slot, b) := b.allocate type
    let (slots, b) := b.allocateAll rest
    (slot :: slots, b)

/-! ## §2. Operands on the stack. -/

/-- How operands that are on the stack get to a copy: the instructions that put them aside, and
the arguments they become. -/
structure Operands where
  setAside : List Instruction
  arguments : List SyntheticArgument
  deriving Repr, DecidableEq

/-- Operands of the given types that are on the stack, the last one on top. -/
def operands (types : List FieldType) (copy : MethodRef) (body : Body) : Operands × Body :=
  if copy.isStatic then (⟨[], types.map .onStack⟩, body)
  else
    let (slots, body) := body.allocateAll types
    (⟨slots.reverse.map .storeLocal,
      (types.zip slots).map fun (type, slot) => ⟨type, [.loadLocal slot]⟩⟩, body)

/-- A call of the copy with operands that are on the stack. -/
def callWithOperands (site : Site) (copy : MethodRef) (types : List FieldType) (body : Body) :
    List Instruction × Body :=
  let (given, body) := operands types copy body
  (given.setAside ++ callInstructions site.method copy given.arguments, body)

/-! ## §3. Callbacks. -/

/-- Make a callback, keep it in a local, and call the copy with it. -/
def callbackCall (site : Site) (copy : MethodRef) (cancellable : Bool) (slot : Slot) :
    List Instruction :=
  [.push (.int (boolConstant cancellable)),
    .new (Support.constructor site.method.returns.isSome),
    .storeLocal slot]
    ++ callInstructions site.method copy [⟨callbackType site.method, [.loadLocal slot]⟩]

/-- Push the value that the callback says to return, if the method returns one. -/
def callbackResult (method : MethodRef) (slot : Slot) : List Instruction :=
  match method.returns with
  | none => []
  | some type =>
    [.loadLocal slot, .invoke .virtual Support.getReturnValue, .checkCast type]

/-- Return from the method if the callback was cancelled; go on at a label otherwise. -/
def cancellation (site : Site) (slot : Slot) (resume : Label) : List Instruction :=
  [.loadLocal slot, .invoke .virtual Support.isCancelled, .branchIf false resume]
    ++ List.replicate site.depth .pop ++ callbackResult site.method slot ++ [.ret]

/-- The block of a patch that runs before the instruction. -/
def emitInject (site : Site) (copy : MethodRef) (cancellable : Bool) (w : Workbench) :
    Except WeaveError (Block × Workbench) := do
  let (slot, w) := w.callbackSlot (callbackType site.method)
  let block := (Block.empty .injected).pushAll (callbackCall site copy cancellable slot)
  if cancellable then
    let (resume, body) := w.body.freshLabel
    let block := block.pushAll (cancellation site slot resume)
    let block ← liftMachine (block.place resume)
    return (block.push .nop, { w with body })
  else return (block, w)

/-! ## §4. Patches. -/

/-- A block of instructions that were made while the body changed to another one. -/
def Workbench.emitted (w : Workbench) (code : List Instruction × Body) : Block × Workbench :=
  ((Block.empty .injected).pushAll code.1, { w with body := code.2 })

/-- The block that applies a patch, whose copy is given, at a site. -/
def emit (patch : Patch) (site : Site) (copy : MethodRef) (w : Workbench) :
    Except WeaveError (Block × Workbench) :=
  let demand {α : Type} (r : Except Rejection α) : Except WeaveError α :=
    r.mapError (.invalidSite patch.describe site.method)
  match patch.kind with
  | .base => .error (.invalidSite patch.describe site.method .abstractKind)
  | .inject cancellable _ => emitInject site copy cancellable w
  | .modifyConstant _ => do
    let constant ← demand (pushedConstant site.instruction)
    return w.emitted
      (callInstructions site.method copy [⟨constant.type, [.push constant]⟩], w.body)
  | .redirect => do
    let callee ← demand (calledMethod site.instruction)
    return w.emitted (callWithOperands site copy callee.argumentTypes w.body)
  | .modifyValue => do
    let type ← demand (pushedValue site.method w.body.locals site.instruction)
    return w.emitted (callWithOperands site copy [type] w.body)

end PatchWeaver

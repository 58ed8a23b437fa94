/-
  PatchWeaver.Mixin.Declaration
  ─────────────────────────────
  **DECLARATIONS OF MIXINS.**

  A mixin is a class of patch methods and the classes they apply to.  Each
  of its methods is one of three:

      a patch     — it has an injector, targets and selectors
      a helper    — it has no injector; it is copied along with the patches
      a shadow    — it stands for the method of that name in the target

  An injector says what a patch does at the instructions selected.
-/
import PatchWeaver.Mixin.Selector
import PatchWeaver.Program.Basic

namespace PatchWeaver

/-! ## §1. Injectors. -/

/-- What was asked for about the locals of the target. Locals are never captured, so the answer
is the same for all of them. -/
inductive LocalCapture where
  | failException
  | failHard
  | failSoft
  | dont
  deriving Repr, DecidableEq

namespace LocalCapture

/-- Every wish. -/
def all : List LocalCapture := [.failException, .failHard, .failSoft, .dont]

/-- Name of a wish. -/
def name : LocalCapture → String
  | .failException => "FailException"
  | .failHard => "FailHard"
  | .failSoft => "FailSoft"
  | .dont => "Dont"

end LocalCapture

/-- What a patch does at an instruction. -/
inductive InjectorKind where
  /-- The common base of the other kinds, which does nothing itself. -/
  | base
  /-- Call the patch before the instruction, with a callback that can cancel the method. -/
  | inject (cancellable : Bool) (locals : LocalCapture)
  /-- Replace the push of a constant by a call that gets the constant. -/
  | modifyConstant (locals : LocalCapture)
  /-- Replace a call by a call of the patch, which gets the receiver and the arguments. -/
  | redirect
  /-- Pass the value that the instruction pushes through the patch. -/
  | modifyValue
  deriving Repr, DecidableEq

/-- Where a patch goes relative to its instruction. -/
inductive Placement where
  | before
  | replace
  | after
  deriving Repr, DecidableEq

/-- Name of a placement. -/
def Placement.name : Placement → String
  | .before => "Before"
  | .replace => "Replace"
  | .after => "After"

namespace InjectorKind

/-- Name of a kind of injector. -/
def name : InjectorKind → String
  | .base => "Injector"
  | .inject .. => "Inject"
  | .modifyConstant _ => "ModifyConstant"
  | .redirect => "Redirect"
  | .modifyValue => "ModifyValue"

/-- Where patches of the kind go; the base kind goes nowhere. -/
def placement? : InjectorKind → Option Placement
  | .base => none
  | .inject .. => some .before
  | .modifyConstant _ => some .replace
  | .redirect => some .replace
  | .modifyValue => some .after

end InjectorKind

/-- Turns a method into a patch. -/
structure Injector where
  kind : InjectorKind
  /-- Name in messages, instead of the name of the kind. -/
  id : Option String := none
  /-- Priority, instead of that of the mixin. -/
  priority : Option Int32 := none
  disabled : Bool := false
  /-- Whether losing a replacement to a patch of higher priority is fatal. -/
  required : Bool := false
  minInjections : Nat := 1
  /-- `none` for no upper bound. -/
  maxInjections : Option Nat := none
  deriving Repr, DecidableEq

/-- The injector in messages. -/
def Injector.describe (i : Injector) (mixin : ClassName) : String :=
  "injector '" ++ i.id.getD i.kind.name ++ "' in " ++ mixin.text

/-! ## §2. Targets. -/

/-- What to do about a target that names no method of a class. -/
inductive MissPolicy where
  /-- Abort the run. -/
  | abort
  /-- Report an error and carry on. -/
  | log
  /-- Carry on. -/
  | silent
  deriving Repr, DecidableEq

namespace MissPolicy

/-- Every policy. -/
def all : List MissPolicy := [.abort, .log, .silent]

/-- Name of a policy. -/
def name : MissPolicy → String
  | .abort => "Abort"
  | .log => "Log"
  | .silent => "Silent"

end MissPolicy

/-- Names methods of the target classes. -/
structure Target where
  name : MemberName
  /-- Exact parameter types; none stand for every overload. -/
  parameters : Option (List FieldType) := none
  onMiss : MissPolicy := .abort
  deriving Repr, DecidableEq

namespace Target

/-- The target in messages. -/
def describe (t : Target) : String :=
  match t.parameters with
  | none => t.name.text
  | some types => t.name.text ++ "(" ++ String.join (types.map FieldType.render) ++ ")"

/-- Whether a method of the target's name has its parameters. -/
def acceptsParameters (t : Target) (m : MethodRef) : Bool :=
  match t.parameters with
  | none => true
  | some types => types == m.descriptor.parameters

end Target

/-! ## §3. Mixins. -/

/-- A method declared on a mixin. -/
structure MixinMethod where
  name : MemberName
  descriptor : MethodDescriptor
  isStatic : Bool := false
  /-- Stands for the method of the target instead of being copied. -/
  shadow : Bool := false
  /-- At most one is allowed. -/
  injectors : List Injector := []
  targets : List Target := []
  selectors : List Selector := []
  deriving Repr, DecidableEq

/-- The identity of a method that a mixin declares. -/
def MixinMethod.ref (m : MixinMethod) (mixin : ClassName) : MethodRef :=
  ⟨mixin, m.name, m.descriptor, m.isStatic⟩

/-- A class of patches and the classes it applies to. -/
structure Mixin where
  /-- The class that holds the bodies of the methods. -/
  name : ClassName
  targets : List ClassName
  /-- Priority of injectors that have none of their own. -/
  priority : Int32 := 0
  methods : List MixinMethod := []
  /-- Fields that stand for those of the target. -/
  shadowFields : List FieldDef := []
  deriving Repr, DecidableEq

/-! ## §4. Settings. -/

/-- A file that the patches found are written to. -/
structure SnapshotFile where
  path : String
  /-- Whether the file can be written. -/
  writable : Bool := true
  deriving Repr, DecidableEq

/-- Settings of a run. -/
structure Settings where
  /-- Mark the regions of woven code so that they stand out in listings. -/
  debugMarkers : Bool := false
  shifts : ShiftSettings := {}
  /-- Where to write the patches found. -/
  snapshot : Option SnapshotFile := none
  deriving Repr, DecidableEq

end PatchWeaver

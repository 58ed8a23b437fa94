/-
  PatchWeaver.Program.Support
  ───────────────────────────
  **THE SUPPORT CLASSES OF WOVEN CODE.**

  A patch that runs before an instruction is handed a callback, through
  which it can cancel the rest of the method.  The callback of a method that
  returns a value also carries the value to return instead.  Woven code
  calls the members listed here; `addSupport` declares what of them is
  missing, and a program that has them all is left as it is.
-/
import PatchWeaver.Program.Basic

namespace PatchWeaver

namespace Support

/-- Class of the callback for a method that returns a value, or that returns none. -/
def callbackClass (returnsValue : Bool) : ClassName :=
  if returnsValue then .callbackInfoReturn else .callbackInfo

/-- Constructor of a callback; its argument says whether the patch may cancel. -/
def constructor (returnsValue : Bool) : MethodRef where
  owner := callbackClass returnsValue
  name := .init
  descriptor := ⟨[.boolean], none⟩
  isStatic := false

/-- Whether the patch may cancel. -/
def isCancellable : MethodRef := ⟨.callbackInfo, .isCancellable, ⟨[], some .boolean⟩, false⟩

/-- Whether the patch has cancelled. -/
def isCancelled : MethodRef := ⟨.callbackInfo, .isCancelled, ⟨[], some .boolean⟩, false⟩

/-- Cancelling, with a value to return where the method returns one. -/
def cancel (returnsValue : Bool) : MethodRef where
  owner := callbackClass returnsValue
  name := .cancel
  descriptor := ⟨if returnsValue then [.object .object] else [], none⟩
  isStatic := false

/-- The value to return, as an object of any class. -/
def getReturnValue : MethodRef :=
  ⟨.callbackInfoReturn, .getReturnValue, ⟨[], some (.object .object)⟩, false⟩

/-- Every member of the callbacks. -/
def members : List MethodRef :=
  [constructor false, constructor true, isCancellable, isCancelled, cancel false, cancel true,
    getReturnValue]

end Support

namespace Program

/-- Declare a support member, unless it is declared. -/
def addSupportMember (p : Program) (m : MethodRef) : Program :=
  match p.addMethod m .exposed none with
  | .ok p => p
  | .error _ => p

/-- Add the support classes and their members, as far as they are missing. -/
def addSupport (p : Program) : Program :=
  let p := p.addClass .object none
  let p := p.addClass .string (some .object)
  let p := p.addClass .callbackInfo (some .object)
  let p := p.addClass .callbackInfoReturn (some .callbackInfo)
  Support.members.foldl addSupportMember p

end Program

end PatchWeaver

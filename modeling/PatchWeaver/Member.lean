/-
  PatchWeaver.Member
  ──────────────────
  **REFERENCES TO METHODS AND FIELDS.**

  A member is identified by its class, its name, its descriptor and whether
  it is static; two references mean the same member exactly when all four
  agree.  Moving a reference to another class keeps the other three.
-/
import PatchWeaver.Descriptor.Basic

namespace PatchWeaver

/-- Identity of a method. -/
structure MethodRef where
  owner : ClassName
  name : MemberName
  descriptor : MethodDescriptor
  isStatic : Bool
  deriving Repr, DecidableEq

namespace MethodRef

/-- `pkg/Klass.name:(I)V`; staticness is not shown. -/
def render (m : MethodRef) : String :=
  m.owner.text ++ "." ++ m.name.text ++ ":" ++ m.descriptor.render

instance : ToString MethodRef := ⟨render⟩

/-- The rendering that shows staticness too, so distinct methods are told apart. -/
def renderFull (m : MethodRef) : String :=
  if m.isStatic then "static " ++ m.render else m.render

/-- Number of argument slots, the receiver of an instance method included. -/
def argumentCount (m : MethodRef) : Nat :=
  m.descriptor.argumentCount (!m.isStatic)

/-- Result type. -/
def returns (m : MethodRef) : Option FieldType := m.descriptor.returns

/-- Types held by the argument slots, in slot order. -/
def argumentTypes (m : MethodRef) : List FieldType :=
  if m.isStatic then m.descriptor.parameters else .object m.owner :: m.descriptor.parameters

/-- Type held by one argument slot. -/
def argumentType? (m : MethodRef) (slot : Nat) : Option FieldType := m.argumentTypes[slot]?

/-- There is one type per argument slot. -/
theorem length_argumentTypes (m : MethodRef) : m.argumentTypes.length = m.argumentCount := by
  unfold argumentTypes argumentCount MethodDescriptor.argumentCount
  cases m.isStatic <;> simp

/-- The same method, declared on another class. -/
def onClass (m : MethodRef) (owner : ClassName) : MethodRef := { m with owner }

@[simp]
theorem onClass_owner (m : MethodRef) (c : ClassName) : (m.onClass c).owner = c := rfl

@[simp]
theorem onClass_descriptor (m : MethodRef) (c : ClassName) :
    (m.onClass c).descriptor = m.descriptor := rfl

@[simp]
theorem onClass_isStatic (m : MethodRef) (c : ClassName) :
    (m.onClass c).isStatic = m.isStatic := rfl

end MethodRef

/-- Identity of a field. -/
structure FieldRef where
  owner : ClassName
  name : MemberName
  descriptor : FieldType
  isStatic : Bool
  deriving Repr, DecidableEq

namespace FieldRef

/-- `pkg/Klass.name:I`; staticness is not shown. -/
def render (f : FieldRef) : String :=
  f.owner.text ++ "." ++ f.name.text ++ ":" ++ f.descriptor.render

instance : ToString FieldRef := ⟨render⟩

/-- The same field, declared on another class. -/
def onClass (f : FieldRef) (owner : ClassName) : FieldRef := { f with owner }

end FieldRef

end PatchWeaver

/-
  PatchWeaver.Access
  ──────────────────
  **ACCESS FLAGS AND KINDS OF CALLS.**

  A method carries six access flags; a selector of calls accepts direct
  calls, virtual calls, or both.  Outside the program each set is written as
  one number with a bit per member, and a number with any other bit set
  stands for no set at all:

      ofBits? n = some s   ↔   n = s.toBits
-/

namespace PatchWeaver

/-! ## §1. Method flags. -/

/-- Access flags of a method. -/
structure MethodFlags where
  isPublic : Bool := false
  isPrivate : Bool := false
  isStatic : Bool := false
  isFinal : Bool := false
  isAbstract : Bool := false
  isSynthetic : Bool := false
  deriving Repr, DecidableEq

namespace MethodFlags

/-- The number that stands for a set of flags. -/
def toBits (f : MethodFlags) : Nat :=
  f.isPublic.toNat * 0x1 + f.isPrivate.toNat * 0x2 + f.isStatic.toNat * 0x8
    + f.isFinal.toNat * 0x10 + f.isAbstract.toNat * 0x400 + f.isSynthetic.toNat * 0x1000

/-- The flags whose bits are set in a number, whatever else is set. -/
def ofBitsTruncated (bits : Nat) : MethodFlags where
  isPublic := bits.testBit 0
  isPrivate := bits.testBit 1
  isStatic := bits.testBit 3
  isFinal := bits.testBit 4
  isAbstract := bits.testBit 10
  isSynthetic := bits.testBit 12

/-- The set of flags that a number stands for, if it stands for one. -/
def ofBits? (bits : Nat) : Option MethodFlags :=
  if (ofBitsTruncated bits).toBits = bits then some (ofBitsTruncated bits) else none

theorem ofBitsTruncated_toBits (f : MethodFlags) : ofBitsTruncated f.toBits = f := by
  obtain ⟨a, b, c, d, e, g⟩ := f
  revert a b c d e g
  decide

theorem ofBits?_toBits (f : MethodFlags) : ofBits? f.toBits = some f := by
  simp [ofBits?, ofBitsTruncated_toBits]

theorem toBits_of_ofBits? {n : Nat} {f : MethodFlags} (h : ofBits? n = some f) : f.toBits = n := by
  unfold ofBits? at h
  split at h
  · next hn => injection h with h; rw [← h]; exact hn
  · contradiction

/-- Flags of the members of the runtime support classes. -/
def exposed : MethodFlags := { isPublic := true }

/-- Flags of a copied mixin method. -/
def copied (isStatic : Bool) : MethodFlags := { isPrivate := true, isSynthetic := true, isStatic }

end MethodFlags

/-! ## §2. Kinds of calls. -/

/-- How the callee of a call is bound. -/
inductive CallKind where
  /-- Bound statically: static methods and non-virtual instance calls. -/
  | direct
  /-- Dispatched on the class of the receiver. -/
  | virtual
  deriving Repr, DecidableEq

/-- A set of kinds of calls. -/
structure CallKinds where
  direct : Bool
  virtual : Bool
  deriving Repr, DecidableEq

namespace CallKinds

/-- Both kinds. -/
def all : CallKinds := ⟨true, true⟩

/-- Membership in a set of kinds. -/
def accepts (s : CallKinds) : CallKind → Bool
  | .direct => s.direct
  | .virtual => s.virtual

/-- The number that stands for a set of kinds. -/
def toBits (s : CallKinds) : Nat := s.direct.toNat + s.virtual.toNat * 2

/-- The set of kinds that a number stands for, if it stands for one. -/
def ofBits? : Nat → Option CallKinds
  | 0 => some ⟨false, false⟩
  | 1 => some ⟨true, false⟩
  | 2 => some ⟨false, true⟩
  | 3 => some ⟨true, true⟩
  | _ => none

theorem ofBits?_toBits (s : CallKinds) : ofBits? s.toBits = some s := by
  obtain ⟨a, b⟩ := s
  revert a b
  decide

end CallKinds

end PatchWeaver

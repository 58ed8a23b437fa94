/-
  PatchWeaver.Proofs.Signatures
  ─────────────────────────────
  **WHICH BODIES PASS THE CHECK, AND WHAT THE OTHERS ARE TOLD.**

  A body can be called from a target if its parameters are the synthetic
  ones and then some of the target's, from the first on:

      body        s₀ s₁ … sₘ  t₀ … tₖ
      available   s₀ s₁ … sₘ  t₀ … tₖ … tₙ

  The check compares lengths before it compares types, and it compares types
  only as far as the shorter list goes.  Nothing is missed: once the lengths
  are as they should be, the shorter list is that of the body.

  A body that cannot be called has one complaint or several; the check raises
  the one that comes first, and of two types that differ the first ones.

  Main results:
    * `firstMismatch?_eq_some_iff` — where two lists of types differ first.
    * `Complaint.eq_of_rank_eq` — no two complaints have the same rank.
    * `yields_validateSignature` — the contract of the check.
    * `validateSignature_decides` — what the check lets through, and what it
      says otherwise.
-/
import PatchWeaver.Proofs.Contracts
import PatchWeaver.Weave.Expectation

namespace PatchWeaver

/-! ## §1. Where two lists of types differ first. -/

/-- Two lists differ first at `k`, with these types. -/
structure DifferAt (found expected : List FieldType) (k : Nat) (x y : FieldType) : Prop where
  left : found[k]? = some x
  right : expected[k]? = some y
  ne : x ≠ y
  agree : ∀ j < k, found[j]? = expected[j]?

namespace DifferAt

variable {found expected : List FieldType} {k l : Nat} {x y z : FieldType}

theorem zero_iff : DifferAt (x :: found) (y :: expected) 0 x y ↔ x ≠ y :=
  ⟨fun h => h.ne, fun hne => ⟨rfl, rfl, hne, fun _ hj => absurd hj (Nat.not_lt_zero _)⟩⟩

theorem succ_iff {a b : FieldType} :
    DifferAt (a :: found) (b :: expected) (k + 1) x y ↔ a = b ∧ DifferAt found expected k x y := by
  constructor
  · rintro ⟨hleft, hright, hne, hagree⟩
    exact ⟨Option.some_inj.mp (hagree 0 k.succ_pos), hleft, hright, hne,
      fun j hj => hagree (j + 1) (Nat.succ_lt_succ hj)⟩
  · rintro ⟨rfl, hleft, hright, hne, hagree⟩
    refine ⟨hleft, hright, hne, fun j hj => ?_⟩
    cases j with
    | zero => rfl
    | succ j => exact hagree j (Nat.lt_of_succ_lt_succ hj)

/-- Two lists that differ do so first at one place only. -/
theorem unique {x' y' : FieldType} (h : DifferAt found expected k x y)
    (h' : DifferAt found expected l x' y') : k = l ∧ x = x' ∧ y = y' := by
  obtain hlt | rfl | hgt := Nat.lt_trichotomy k l
  · -- in front of the first place the lists agree
    have := h'.agree k hlt
    rw [h.left, h.right] at this
    exact absurd (Option.some_inj.mp this) h.ne
  · exact ⟨rfl, Option.some_inj.mp (h.left.symm.trans h'.left),
      Option.some_inj.mp (h.right.symm.trans h'.right)⟩
  · have := h.agree l hgt
    rw [h'.left, h'.right] at this
    exact absurd (Option.some_inj.mp this) h'.ne

/-- A list does not differ from one that it is the beginning of. -/
theorem not_of_prefix (h : found <+: expected) : ¬ DifferAt found expected k x y := by
  rintro ⟨hleft, hright, hne, -⟩
  obtain ⟨rest, rfl⟩ := h
  rw [List.getElem?_append_left (List.getElem?_eq_some_iff.mp hleft).1, hleft] at hright
  exact hne (Option.some_inj.mp hright)

end DifferAt

/-- **The place that a comparison finds is where the lists differ first**, counted from the place
that it starts with. -/
theorem firstMismatch?_eq_some_iff {found expected : List FieldType} {start index : Nat}
    {x y : FieldType} : firstMismatch? found expected start = some (index, x, y) ↔
      ∃ k, index = start + k ∧ DifferAt found expected k x y := by
  induction found generalizing expected start with
  | nil =>
    simp only [firstMismatch?, reduceCtorEq, false_iff]
    rintro ⟨k, -, h⟩
    exact absurd h.left (by simp)
  | cons a found ih =>
    cases expected with
    | nil =>
      simp only [firstMismatch?, reduceCtorEq, false_iff]
      rintro ⟨k, -, h⟩
      exact absurd h.right (by simp)
    | cons b expected =>
      unfold firstMismatch?
      by_cases heq : a = b
      · subst heq
        rw [if_pos rfl, ih]
        constructor
        · rintro ⟨k, rfl, h⟩
          exact ⟨k + 1, by omega, DifferAt.succ_iff.mpr ⟨rfl, h⟩⟩
        · rintro ⟨_ | k, rfl, h⟩
          · exact absurd (Option.some_inj.mp (h.left.symm.trans h.right)) h.ne
          · exact ⟨k, by omega, (DifferAt.succ_iff.mp h).2⟩
      · rw [if_neg heq]
        constructor
        · intro h
          obtain ⟨rfl, rfl, rfl⟩ : start = index ∧ a = x ∧ b = y := by simpa using h
          exact ⟨0, rfl, DifferAt.zero_iff.mpr heq⟩
        · rintro ⟨k, rfl, h⟩
          obtain ⟨rfl, rfl, rfl⟩ := h.unique (DifferAt.zero_iff.mpr heq)
          rfl

/-- Types that do not differ anywhere from as many expected ones are those. -/
theorem eq_take_of_firstMismatch? {found expected : List FieldType} {index : Nat}
    (h : firstMismatch? found expected index = none) (hlength : found.length ≤ expected.length) :
    found = expected.take found.length := by
  induction found generalizing expected index with
  | nil => rfl
  | cons type rest ih =>
    cases expected with
    | nil => simp at hlength
    | cons type' rest' =>
      unfold firstMismatch? at h
      split at h
      · next heq =>
        rw [List.length_cons, List.take_succ_cons, ← ih h (by simpa using hlength), heq]
      · contradiction

/-! ## §2. What can be said for and against a call. -/

/-- What a body declares that can be called from a target: after the synthetic parameters, as many
of the target's as it has parameters left. -/
structure Accepts (target body : MethodRef) (e : Expectation) : Prop where
  receiver : body.isStatic = false → target.isStatic = false
  returns : body.returns = e.returns
  parameters : body.descriptor.parameters = e.synthetic
    ++ target.descriptor.parameters.take (body.descriptor.parameters.length - e.synthetic.length)

/-- What there is to say against a call of a body from a target. -/
inductive Complaint (target body : MethodRef) (returns : Option FieldType)
    (synthetic : List FieldType) : SignatureError → Prop where
  | instanceOnStatic (hbody : body.isStatic = false) (htarget : target.isStatic = true) :
    Complaint target body returns synthetic .instanceOnStatic
  | returnType (h : body.returns ≠ returns) :
    Complaint target body returns synthetic (.returnType returns body.returns)
  | missingParameters (h : body.descriptor.parameters.length < synthetic.length) :
    Complaint target body returns synthetic
      (.missingParameters synthetic.length body.descriptor.parameters.length)
  | tooManyParameters
      (h : synthetic.length + target.descriptor.parameters.length
        < body.descriptor.parameters.length) :
    Complaint target body returns synthetic
      (.tooManyParameters (synthetic.length + target.descriptor.parameters.length)
        body.descriptor.parameters.length)
  | parameterType {index : Nat} {expected found : FieldType}
      (h : DifferAt body.descriptor.parameters (synthetic ++ target.descriptor.parameters) index
        found expected) :
    Complaint target body returns synthetic (.parameterType index expected found)

/-- The order in which complaints are raised: the receiver, the result, too few parameters, too
many, and their types. -/
def SignatureError.rank : SignatureError → Nat
  | .instanceOnStatic => 0
  | .returnType .. => 1
  | .missingParameters .. => 2
  | .tooManyParameters .. => 3
  | .parameterType .. => 4

section

variable {target body : MethodRef} {returns : Option FieldType} {synthetic : List FieldType}
  {e e' : SignatureError}

/-- **There is at most one complaint of each rank.** -/
theorem Complaint.eq_of_rank_eq (h : Complaint target body returns synthetic e)
    (h' : Complaint target body returns synthetic e') (hrank : e.rank = e'.rank) : e = e' := by
  cases h with
  | parameterType h =>
    cases h' with
    | parameterType h' =>
      obtain ⟨rfl, rfl, rfl⟩ := h.unique h'
      rfl
    | _ => simp [SignatureError.rank] at hrank
  | _ => cases h' <;> simp [SignatureError.rank] at hrank ⊢

/-- A body that can be called gives no reason to complain. -/
theorem Accepts.no_complaint (h : Accepts target body ⟨returns, synthetic⟩) :
    ¬ Complaint target body returns synthetic e := by
  obtain ⟨hreceiver, hreturns, hparameters⟩ := h
  have hlength := congrArg List.length hparameters
  rw [List.length_append, List.length_take] at hlength
  intro hcomplaint
  cases hcomplaint with
  | instanceOnStatic hbody htarget => simp [hreceiver hbody] at htarget
  | returnType hne => exact hne hreturns
  | missingParameters hshort => dsimp only at hlength; omega
  | tooManyParameters hlong => dsimp only at hlength; omega
  | parameterType hdiffer =>
    refine DifferAt.not_of_prefix ?_ hdiffer
    rw [hparameters]
    exact (List.prefix_append_right_inj _).mpr (List.take_prefix _ _)

end

/-! ## §3. The check. -/

/-- **The contract of the check**: what passes it can be called, and it raises the first complaint
that there is. -/
theorem yields_validateSignature (target body : MethodRef) (returns : Option FieldType)
    (synthetic : List FieldType) :
    Yields (fun _ => Accepts target body ⟨returns, synthetic⟩)
      (fun e => Complaint target body returns synthetic e
        ∧ ∀ e', Complaint target body returns synthetic e' → e.rank ≤ e'.rank)
      (validateSignature target body returns synthetic) := by
  unfold validateSignature
  dsimp only
  -- a test that is passed rules out the complaints of its rank
  split
  · next hreceiver =>
    exact .error ⟨.instanceOnStatic hreceiver.1 hreceiver.2, fun _ _ => Nat.zero_le _⟩
  next hreceiver =>
  split
  · next hreturns =>
    refine .error ⟨.returnType hreturns, fun e' he' => ?_⟩
    cases he' with
    | instanceOnStatic hbody htarget => exact absurd ⟨hbody, htarget⟩ hreceiver
    | _ => simp [SignatureError.rank]
  next hreturns =>
  split
  · next hshort =>
    refine .error ⟨.missingParameters hshort, fun e' he' => ?_⟩
    cases he' with
    | instanceOnStatic hbody htarget => exact absurd ⟨hbody, htarget⟩ hreceiver
    | returnType hne => exact absurd hne hreturns
    | _ => simp [SignatureError.rank]
  next hshort =>
  split
  · next hlong =>
    rw [List.length_append] at hlong ⊢
    refine .error ⟨.tooManyParameters hlong, fun e' he' => ?_⟩
    cases he' with
    | instanceOnStatic hbody htarget => exact absurd ⟨hbody, htarget⟩ hreceiver
    | returnType hne => exact absurd hne hreturns
    | missingParameters hlt => exact absurd hlt hshort
    | _ => simp [SignatureError.rank]
  next hlong =>
  split
  · next index found expected hmismatch =>
    obtain ⟨k, rfl, hdiffer⟩ := firstMismatch?_eq_some_iff.mp hmismatch
    rw [Nat.zero_add]
    refine .error ⟨.parameterType hdiffer, fun e' he' => ?_⟩
    cases he' with
    | instanceOnStatic hbody htarget => exact absurd ⟨hbody, htarget⟩ hreceiver
    | returnType hne => exact absurd hne hreturns
    | missingParameters hlt => exact absurd hlt hshort
    | tooManyParameters hlt => exact absurd (by rwa [List.length_append]) hlong
    | parameterType => exact Nat.le_refl _
  next hmismatch =>
  -- the body has at least the synthetic parameters, and no more than there are
  refine .ok ⟨fun hstatic => ?_, Decidable.not_not.mp hreturns, ?_⟩
  · cases htarget : target.isStatic with
    | false => rfl
    | true => exact absurd ⟨hstatic, htarget⟩ hreceiver
  · have heq := eq_take_of_firstMismatch? hmismatch (Nat.le_of_not_lt hlong)
    rwa [List.take_append, List.take_of_length_le (Nat.le_of_not_lt hshort)] at heq

section

variable {target body : MethodRef} {returns : Option FieldType} {synthetic : List FieldType}

theorem accepts_of_validateSignature
    (h : validateSignature target body returns synthetic = .ok ()) :
    Accepts target body ⟨returns, synthetic⟩ :=
  (yields_validateSignature target body returns synthetic).of_ok h

/-- What a body takes, without counting: the synthetic parameters, and then a beginning of the
target's. -/
theorem accepts_iff : Accepts target body ⟨returns, synthetic⟩ ↔
    (body.isStatic = true ∨ target.isStatic = false) ∧ body.returns = returns
      ∧ ∃ own, own <+: target.descriptor.parameters
        ∧ body.descriptor.parameters = synthetic ++ own := by
  have hreceiver : (body.isStatic = false → target.isStatic = false)
      ↔ body.isStatic = true ∨ target.isStatic = false := by
    cases body.isStatic <;> simp
  constructor
  · rintro ⟨h, hreturns, hparameters⟩
    exact ⟨hreceiver.mp h, hreturns, _, List.take_prefix _ _, hparameters⟩
  · rintro ⟨h, hreturns, own, hprefix, hparameters⟩
    refine ⟨hreceiver.mpr h, hreturns, ?_⟩
    rw [hparameters, List.length_append, Nat.add_sub_cancel_left,
      ← List.prefix_iff_eq_take.mp hprefix]

end

/-- **A check passes exactly the bodies that can be called, and says of any other the first thing
that is wrong.** -/
theorem validateSignature_decides (target body : MethodRef) (returns : Option FieldType)
    (synthetic : List FieldType) :
    (validateSignature target body returns synthetic = .ok () ↔
        (body.isStatic = true ∨ target.isStatic = false) ∧ body.returns = returns
          ∧ ∃ own, own <+: target.descriptor.parameters
            ∧ body.descriptor.parameters = synthetic ++ own)
      ∧ ∀ e, validateSignature target body returns synthetic = .error e ↔
          Complaint target body returns synthetic e
            ∧ ∀ e', Complaint target body returns synthetic e' → e.rank ≤ e'.rank := by
  rw [← accepts_iff]
  refine ⟨⟨accepts_of_validateSignature, fun haccepts => ?_⟩,
    fun e => ⟨(yields_validateSignature target body returns synthetic).of_error, ?_⟩⟩
  · cases hcheck : validateSignature target body returns synthetic with
    | ok u => rfl
    | error e =>
      have hcomplaint := (yields_validateSignature target body returns synthetic).of_error hcheck
      exact absurd hcomplaint.1 haccepts.no_complaint
  · rintro ⟨hcomplaint, hfirst⟩
    cases hcheck : validateSignature target body returns synthetic with
    | ok u => exact absurd hcomplaint (accepts_of_validateSignature hcheck).no_complaint
    | error e' =>
      obtain ⟨hcomplaint', hfirst'⟩ :=
        (yields_validateSignature target body returns synthetic).of_error hcheck
      have hrank := Nat.le_antisymm (hfirst e' hcomplaint') (hfirst' e hcomplaint)
      rw [hcomplaint.eq_of_rank_eq hcomplaint' hrank]

end PatchWeaver

/-
  PatchWeaver.Proofs.Validation
  ─────────────────────────────
  **WHAT A VALIDATED PATCH PROMISES.**

  A patch is validated against an instruction of the body as it was
  declared.  By the time its code is made, jumps of the instruction may have
  been sent elsewhere, and locals added.  Neither matters: only jumps are
  sent elsewhere, which patches of most kinds cannot go to, and locals are
  never taken away.

      validated at i in b  →  applicable to (rename f i) in b with more locals

  Main results:
    * `exists_expectation_of_validate` — what the checks of a patch come to.
    * `Fits.ready` — a validated patch is applicable.
    * `Applies.rename`, `Applies.mono` — and stays so.
-/
import PatchWeaver.Proofs.Renaming
import PatchWeaver.Proofs.Signatures
import PatchWeaver.Weave.Splice

namespace PatchWeaver

/-! ## §1. Signatures. -/

/-- What a body has to be like for a call to work out. -/
structure Meets (target body : MethodRef) (e : Expectation) : Prop where
  returns : body.returns = e.returns
  takes : TakesArguments target body e.synthetic.length

/-- A passed check fixes how many arguments a call takes. -/
theorem Accepts.meets {target body : MethodRef} {e : Expectation} (h : Accepts target body e) :
    Meets target body e := by
  refine ⟨h.returns, ?_⟩
  have hlength := congrArg List.length h.parameters
  rw [List.length_append, List.length_take] at hlength
  unfold TakesArguments forwardedCount
  exact hlength

/-- A copy of a body can be called where the body can. -/
theorem Accepts.of_copy {target body copy : MethodRef} {e : Expectation} (h : Accepts target body e)
    (hdescriptor : copy.descriptor = body.descriptor) (hstatic : copy.isStatic = body.isStatic) :
    Accepts target copy e := by
  obtain ⟨hreceiver, hreturns, hparameters⟩ := h
  unfold MethodRef.returns at hreturns
  rw [← hdescriptor] at hreturns hparameters
  rw [← hstatic] at hreceiver
  exact ⟨hreceiver, hreturns, hparameters⟩

/-- A copy with the descriptor of a body can be called where the body can. -/
theorem Meets.of_descriptor_eq {target body copy : MethodRef} {e : Expectation}
    (h : Meets target body e) (hcopy : copy.descriptor = body.descriptor) :
    Meets target copy e := by
  obtain ⟨hreturns, htakes⟩ := h
  unfold MethodRef.returns at hreturns
  unfold TakesArguments forwardedCount at htakes
  rw [← hcopy] at hreturns htakes
  exact ⟨hreturns, htakes⟩

theorem accepts_of_checkSignature {target : MethodRef} {patch : Patch} {e : Expectation}
    (h : checkSignature target patch e = .ok ()) : Accepts target patch.body e := by
  unfold checkSignature at h
  cases hv : validateSignature target patch.body e.returns e.synthetic with
  | error error => simp [hv] at h
  | ok u => exact accepts_of_validateSignature hv

/-! ## §2. Applicable patches. -/

/-- A copy can be called on behalf of a patch of the kind at an instruction. -/
def Applies (kind : InjectorKind) (target : MethodRef) (locals : List FieldType) (i : Instruction)
    (copy : MethodRef) : Prop :=
  ∃ e, expectation kind target locals i = .ok e ∧ Meets target copy e

/-- Patches of most kinds go to instructions behind which control goes on. -/
theorem flow_of_expectation {kind : InjectorKind} {target : MethodRef} {locals : List FieldType}
    {i : Instruction} {e : Expectation} (h : expectation kind target locals i = .ok e) :
    kind.placement? = some .before ∨ i.flow = .next := by
  cases kind with
  | base => contradiction
  | inject => exact .inl rfl
  | modifyConstant =>
    refine .inr ?_
    cases i <;> first | rfl | contradiction
  | redirect =>
    refine .inr ?_
    cases i <;> first | rfl | contradiction
  | modifyValue =>
    refine .inr ?_
    cases i <;> first | rfl | contradiction

/-- Sending jumps elsewhere does not change what a patch has to declare. -/
theorem expectation_rename {kind : InjectorKind} {target : MethodRef} {locals : List FieldType}
    {i : Instruction} {e : Expectation} (h : expectation kind target locals i = .ok e)
    (f : Label → Label) : expectation kind target locals (i.rename f) = .ok e := by
  rcases flow_of_expectation h with hbefore | hflow
  · cases kind with
    | inject => exact h
    | _ => simp [InjectorKind.placement?] at hbefore
  · have hsame : i.rename f = i := by
      refine Instruction.rename_eq_self fun l hl => ?_
      exact absurd hflow (Instruction.flow_ne_of_target? hl)
    rw [hsame]
    exact h

/-- Sending jumps elsewhere keeps a patch applicable. -/
theorem Applies.rename {kind : InjectorKind} {target : MethodRef} {locals : List FieldType}
    {i : Instruction} {copy : MethodRef} (h : Applies kind target locals i copy)
    (f : Label → Label) : Applies kind target locals (i.rename f) copy := by
  obtain ⟨e, he, hmeets⟩ := h
  exact ⟨e, expectation_rename he f, hmeets⟩

/-- The type of a value that is pushed stays the same when locals are added. -/
theorem pushedType?_mono {target : MethodRef} {locals locals' : List FieldType} {i : Instruction}
    {type : FieldType} (h : i.pushedType? target locals = some type) (hl : locals <+: locals') :
    i.pushedType? target locals' = some type := by
  cases i with
  | loadLocal slot =>
    obtain ⟨more, rfl⟩ := hl
    simp only [Instruction.pushedType?] at h ⊢
    rw [List.getElem?_append_left (List.getElem?_eq_some_iff.mp h).1, h]
  | _ => exact h

theorem pushedValue_eq_ok_iff {target : MethodRef} {locals : List FieldType} {i : Instruction}
    {type : FieldType} :
    pushedValue target locals i = .ok type
      ↔ i.effect.push = 1 ∧ i.pushedType? target locals = some type := by
  unfold pushedValue
  by_cases hpush : i.effect.push = 1
  · cases i.pushedType? target locals <;> simp [hpush]
  · simp [hpush]

/-- Adding locals does not change what a patch has to declare. -/
theorem expectation_mono {kind : InjectorKind} {target : MethodRef}
    {locals locals' : List FieldType}
    {i : Instruction} {e : Expectation} (h : expectation kind target locals i = .ok e)
    (hl : locals <+: locals') : expectation kind target locals' i = .ok e := by
  cases kind with
  | modifyValue =>
    -- the one kind that looks at locals, for the type of the value
    obtain ⟨type, htype, heq⟩ := bind_eq_ok_iff.mp h
    obtain ⟨hpush, hpushed⟩ := pushedValue_eq_ok_iff.mp htype
    have htype' : pushedValue target locals' i = .ok type :=
      pushedValue_eq_ok_iff.mpr ⟨hpush, pushedType?_mono hpushed hl⟩
    exact bind_eq_ok_iff.mpr ⟨type, htype', heq⟩
  | _ => exact h

/-- Adding locals keeps a patch applicable. -/
theorem Applies.mono {kind : InjectorKind} {target : MethodRef} {locals locals' : List FieldType}
    {i : Instruction} {copy : MethodRef} (h : Applies kind target locals i copy)
    (hl : locals <+: locals') : Applies kind target locals' i copy := by
  obtain ⟨e, he, hmeets⟩ := h
  exact ⟨e, expectation_mono he hl, hmeets⟩

/-! ## §3. Patches of a run. -/

/-- A patch of the registry with a copy of its body on the target's class, where it has passed the
checks of the method and of the instruction. -/
def Splicer.Fits (s : Splicer) (method : MethodRef) (body : Body) (offset : Nat) (id : PatchId) :
    Prop :=
  ∃ patch copy, s.registry.patch? id = some patch
    ∧ s.copies.find? method.owner patch.body = some copy
    ∧ copy.descriptor = patch.body.descriptor ∧ copy.isStatic = patch.body.isStatic
    ∧ validateMethod patch method = .ok () ∧ validateInstruction patch method body offset = .ok ()

/-- A patch of the registry whose copy can be called at an instruction. -/
structure Splicer.Ready (s : Splicer) (method : MethodRef) (locals : List FieldType)
    (i : Instruction) (id : PatchId) (patch : Patch) (copy : MethodRef) : Prop where
  patch_eq : s.registry.patch? id = some patch
  copy_eq : s.copies.find? method.owner patch.body = some copy
  applies : Applies patch.kind method locals i copy

/-- **What the checks of a patch come to**: its body has what its kind expects at the
instruction. -/
theorem exists_expectation_of_validate {patch : Patch} {method : MethodRef} {body : Body}
    {offset : Nat} {i : Instruction} (hi : body.instruction? offset = some i)
    (hmethod : validateMethod patch method = .ok ())
    (hinstruction : validateInstruction patch method body offset = .ok ()) :
    ∃ e, expectation patch.kind method body.locals i = .ok e ∧ Accepts method patch.body e := by
  have hchecked : ∃ e, expectation patch.kind method body.locals i = .ok e
      ∧ checkSignature method patch e = .ok () := by
    unfold validateMethod at hmethod
    unfold validateInstruction at hinstruction
    cases hkind : patch.kind with
    | base => simp [hkind] at hmethod
    | inject cancellable capture =>
      -- what such a patch gets depends on the method alone
      rw [hkind] at hmethod
      exact ⟨_, rfl, hmethod⟩
    | modifyConstant capture =>
      rw [hkind, hi] at hinstruction
      exact bind_eq_ok_iff.mp hinstruction
    | redirect =>
      rw [hkind, hi] at hinstruction
      exact bind_eq_ok_iff.mp hinstruction
    | modifyValue =>
      rw [hkind, hi] at hinstruction
      exact bind_eq_ok_iff.mp hinstruction
  obtain ⟨e, he, hcheck⟩ := hchecked
  exact ⟨e, he, accepts_of_checkSignature hcheck⟩

/-- **A validated patch is applicable.** -/
theorem Splicer.Fits.ready {s : Splicer} {method : MethodRef} {body : Body} {offset : Nat}
    {id : PatchId} {i : Instruction} (h : s.Fits method body offset id)
    (hi : body.instruction? offset = some i) :
    ∃ patch copy, s.Ready method body.locals i id patch copy := by
  obtain ⟨patch, copy, hpatch, hcopy, hdescriptor, -, hmethod, hinstruction⟩ := h
  obtain ⟨e, he, haccepts⟩ := exists_expectation_of_validate hi hmethod hinstruction
  exact ⟨patch, copy, hpatch, hcopy, e, he, haccepts.meets.of_descriptor_eq hdescriptor⟩

end PatchWeaver

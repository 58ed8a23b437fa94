/-
  PatchWeaver.Proofs.Copies
  ─────────────────────────
  **WHICH COPIES A RUN MAKES.**

  The table of copies lists one copy for every place, in the order of the
  places: mixin by mixin, for each of its target classes, its methods in
  order.  So a patch finds the copy of its method on each target class of
  its mixin.

      places   m₀ c₀ f₀   m₀ c₀ f₁   …   m₀ c₁ f₀   …   m₁ c₀ f₀   …
      copies   made for the places, one by one

  Making copies fails where a place is taken, where a method of a mixin has
  no body, or where a shadow has no counterpart.

  Main results:
    * `yields_build` — the contract of the table.
    * `CopyTable.MadeFor.exists_copy` — the copy for a place is found.
-/
import PatchWeaver.Proofs.Contracts
import PatchWeaver.Weave.CopyTable

namespace PatchWeaver

/-! ## §1. Places. -/

/-- A method of a mixin and a class that it is copied onto. -/
structure CopyPlace where
  mixin : MixinInfo
  owner : ClassName
  source : MethodRef

namespace CopyPlace

/-- The copy for a place. -/
def copy (program : Program) (p : CopyPlace) : Except WeaveError MethodCopy :=
  makeCopy program p.mixin p.owner p.source

/-- What the copy for a place is called. -/
def ref (p : CopyPlace) : MethodRef := p.mixin.copyRef p.owner p.source

end CopyPlace

/-- The places of a mixin on a class. -/
def MixinInfo.placesOn (mixin : MixinInfo) (owner : ClassName) : List CopyPlace :=
  mixin.copied.map (⟨mixin, owner, ·⟩)

/-- The places of a mixin, class by class. -/
def MixinInfo.places (mixin : MixinInfo) : List CopyPlace :=
  mixin.targetClasses.flatMap mixin.placesOn

/-- All places, mixin by mixin. -/
def Registry.places (r : Registry) : List CopyPlace := r.mixins.flatMap MixinInfo.places

theorem mem_places {r : Registry} {p : CopyPlace} :
    p ∈ r.places ↔ p.mixin ∈ r.mixins ∧ p.owner ∈ p.mixin.targetClasses
      ∧ p.source ∈ p.mixin.copied := by
  unfold Registry.places MixinInfo.places MixinInfo.placesOn
  simp only [List.mem_flatMap, List.mem_map]
  constructor
  · rintro ⟨mixin, hmixin, owner, howner, source, hsource, rfl⟩
    exact ⟨hmixin, howner, hsource⟩
  · rintro ⟨hmixin, howner, hsource⟩
    exact ⟨_, hmixin, _, howner, _, hsource, rfl⟩

/-! ## §2. One copy. -/

/-- What can go wrong in making copies. -/
inductive CopyFailure : WeaveError → Prop where
  | taken (m : MethodRef) : CopyFailure (.copyCollision m)
  | noBody (m : MethodRef) : CopyFailure (.missingPatchBody m)
  | shadowMethod (m : MethodRef) (owner : ClassName) : CopyFailure (.missingShadowMethod m owner)
  | shadowField (f : FieldRef) (owner : ClassName) : CopyFailure (.missingShadowField f owner)

section

variable {program : Program} {mixin : MixinInfo} {owner : ClassName}

theorem failure_of_redirectCall {callee : MethodRef} {e : WeaveError}
    (h : redirectCall program mixin owner callee = .error e) : CopyFailure e := by
  unfold redirectCall at h
  split at h
  · contradiction
  · split at h
    · split at h
      · contradiction
      · obtain rfl := Except.error.inj h
        exact .shadowMethod _ _
    · contradiction

theorem failure_of_redirectField {field : FieldRef} {e : WeaveError}
    (h : redirectField program mixin owner field = .error e) : CopyFailure e := by
  unfold redirectField at h
  split at h
  · split at h
    · contradiction
    · obtain rfl := Except.error.inj h
      exact .shadowField _ _
  · contradiction

/-- What redirecting makes of an instruction: only a call and an access to a field go elsewhere. -/
theorem of_redirectInstruction {i i' : Instruction}
    (h : redirectInstruction program mixin owner i = .ok i') :
    i' = i
      ∨ (∃ kind callee callee', redirectCall program mixin owner callee = .ok callee'
        ∧ i = .invoke kind callee ∧ i' = .invoke kind callee')
      ∨ ∃ field field', redirectField program mixin owner field = .ok field'
        ∧ (i = .getField field ∧ i' = .getField field'
          ∨ i = .putField field ∧ i' = .putField field') := by
  cases i with
  | invoke kind callee =>
    obtain ⟨callee', hcallee, heq⟩ := bind_eq_ok_iff.mp h
    exact .inr (.inl ⟨kind, callee, callee', hcallee, rfl, (Except.ok.inj heq).symm⟩)
  | getField field =>
    obtain ⟨field', hfield, heq⟩ := bind_eq_ok_iff.mp h
    exact .inr (.inr ⟨field, field', hfield, .inl ⟨rfl, (Except.ok.inj heq).symm⟩⟩)
  | putField field =>
    obtain ⟨field', hfield, heq⟩ := bind_eq_ok_iff.mp h
    exact .inr (.inr ⟨field, field', hfield, .inr ⟨rfl, (Except.ok.inj heq).symm⟩⟩)
  | _ => exact .inl (Except.ok.inj h).symm

theorem failure_of_redirectInstruction {i : Instruction} {e : WeaveError}
    (h : redirectInstruction program mixin owner i = .error e) : CopyFailure e := by
  cases i with
  | invoke kind callee =>
    rcases bind_eq_error_iff.mp h with h | ⟨_, -, h⟩
    · exact failure_of_redirectCall h
    · contradiction
  | getField field =>
    rcases bind_eq_error_iff.mp h with h | ⟨_, -, h⟩
    · exact failure_of_redirectField h
    · contradiction
  | putField field =>
    rcases bind_eq_error_iff.mp h with h | ⟨_, -, h⟩
    · exact failure_of_redirectField h
    · contradiction
  | _ => contradiction

theorem failure_of_redirectBody {body : Body} {e : WeaveError}
    (h : redirectBody program mixin owner body = .error e) : CopyFailure e := by
  unfold redirectBody at h
  rcases bind_eq_error_iff.mp h with h | ⟨_, -, h⟩
  · obtain ⟨entry, -, h⟩ := exists_of_mapM_error h
    rcases bind_eq_error_iff.mp h with h | ⟨_, -, h⟩
    · exact failure_of_redirectInstruction h
    · contradiction
  · contradiction

end

namespace CopyPlace

variable {program : Program} {p : CopyPlace}

/-- What the copy for a place is like. -/
structure Gets (program : Program) (p : CopyPlace) (c : MethodCopy) : Prop where
  source_eq : c.source = p.source
  ref_eq : c.ref = p.ref
  flags_eq : c.flags = .copied p.source.isStatic
  body_eq : ∃ body, program.body? p.source = some body
    ∧ redirectBody program p.mixin p.owner body = .ok c.body

theorem gets_of_copy {c : MethodCopy} (h : p.copy program = .ok c) : p.Gets program c := by
  unfold copy makeCopy at h
  split at h
  · contradiction
  · next body hbody =>
    obtain ⟨redirected, hredirected, hmade⟩ := bind_eq_ok_iff.mp h
    obtain rfl := Except.ok.inj hmade
    exact ⟨rfl, rfl, rfl, body, hbody, hredirected⟩

theorem failure_of_copy {e : WeaveError} (h : p.copy program = .error e) : CopyFailure e := by
  unfold copy makeCopy at h
  split at h
  · obtain rfl := Except.error.inj h
    exact .noBody _
  · rcases bind_eq_error_iff.mp h with h | ⟨_, -, h⟩
    · exact failure_of_redirectBody h
    · contradiction

end CopyPlace

/-! ## §3. The table. -/

/-- A table lists the copies for places, in their order. -/
def CopyTable.MadeFor (t : CopyTable) (program : Program) (places : List CopyPlace) : Prop :=
  places.mapM (·.copy program) = .ok t.copies

section

variable {program : Program} {mixin : MixinInfo} {owner : ClassName} {t : CopyTable}
  {places : List CopyPlace}

theorem yields_addCopy {fails : WeaveError → Prop} (h : t.MadeFor program places)
    (method : MethodRef)
    (hcopy : ∀ e, (⟨mixin, owner, method⟩ : CopyPlace).copy program = .error e → fails e) :
    Yields (fun t' : CopyTable => t'.MadeFor program (places ++ [⟨mixin, owner, method⟩])) fails
      (addCopy program mixin owner t method).outcome := by
  unfold addCopy
  rw [Traced.outcome_bind, Traced.outcome_lift]
  refine (Yields.of_errors hcopy).bind fun c hc => .ok ?_
  refine mapM_append_eq_ok h ?_
  have hmade : (⟨mixin, owner, method⟩ : CopyPlace).copy program = .ok c := hc
  simp [hmade, pure, Except.pure]

theorem yields_addCopies {fails : WeaveError → Prop} (h : t.MadeFor program places)
    (htaken : ∀ p ∈ mixin.placesOn owner, (program.hasMethod p.ref || t.hasRef p.ref) = true →
      fails (.copyCollision p.ref))
    (hcopy : ∀ p ∈ mixin.placesOn owner, ∀ e, p.copy program = .error e → fails e) :
    Yields (fun t' : CopyTable => t'.MadeFor program (places ++ mixin.placesOn owner)) fails
      (addCopies program mixin t owner).outcome := by
  unfold addCopies
  rw [Traced.outcome_bind, Traced.outcome_lift, Traced.outcome_foldlM]
  have hplaces : Yields (fun _ => True) fails (checkPlaces program mixin t owner) := by
    unfold checkPlaces
    split
    · next taken hfind =>
      obtain ⟨method, hmethod, rfl⟩ := List.mem_map.mp (List.mem_of_find?_eq_some hfind)
      have hplace := List.find?_some hfind
      exact .error (htaken ⟨mixin, owner, method⟩ (List.mem_map_of_mem hmethod) hplace)
    · exact .ok trivial
  refine hplaces.bind fun _ _ => ?_
  refine .foldlM (fun done (t' : CopyTable) =>
    t'.MadeFor program (places ++ done.map (⟨mixin, owner, ·⟩))) (by simpa using h) ?_
  intro done method rest t' hcopied ht'
  rw [List.map_append, ← List.append_assoc]
  refine yields_addCopy ht' method (hcopy ⟨mixin, owner, method⟩ (List.mem_map_of_mem ?_))
  simp [hcopied]

/-- **The contract of the table of copies**: it fails at a place that is taken by the program or by
a copy for a place before it, or where there is nothing to copy. -/
theorem yields_build {fails : WeaveError → Prop} (program : Program) (r : Registry)
    (htaken : ∀ done rest, r.places = done ++ rest → ∀ t : CopyTable, t.MadeFor program done →
      ∀ p ∈ rest, (program.hasMethod p.ref || t.hasRef p.ref) = true → fails (.copyCollision p.ref))
    (hcopy : ∀ p ∈ r.places, ∀ e, p.copy program = .error e → fails e) :
    Yields (fun t : CopyTable => t.MadeFor program r.places) fails
      (CopyTable.build program r).outcome := by
  unfold CopyTable.build
  rw [Traced.outcome_foldlM]
  refine .foldlM (fun done (t : CopyTable) => t.MadeFor program (done.flatMap MixinInfo.places))
    rfl ?_
  intro done mixin rest t hmixins ht
  rw [Traced.outcome_foldlM, List.flatMap_append, List.flatMap_singleton]
  refine .foldlM (fun classes (t : CopyTable) =>
    t.MadeFor program (done.flatMap MixinInfo.places ++ classes.flatMap mixin.placesOn))
    (by simpa using ht) ?_
  intro classes owner rest' t hclasses ht
  rw [List.flatMap_append, List.flatMap_singleton, ← List.append_assoc]
  -- the places of the mixin on the class stand right behind those that have been gone through
  have hplaces : r.places = (done.flatMap MixinInfo.places ++ classes.flatMap mixin.placesOn)
      ++ (mixin.placesOn owner
        ++ (rest'.flatMap mixin.placesOn ++ rest.flatMap MixinInfo.places)) := by
    unfold Registry.places
    rw [hmixins, List.flatMap_append, List.flatMap_cons, MixinInfo.places, hclasses]
    simp
  refine yields_addCopies ht (fun p hp => htaken _ _ hplaces t ht p (List.mem_append_left _ hp))
    fun p hp => hcopy p ?_
  rw [hplaces]
  simp [hp]

end

namespace CopyTable.MadeFor

variable {program : Program} {t : CopyTable} {places : List CopyPlace}

/-- There is one table for some places. -/
theorem unique {t' : CopyTable} (h : t.MadeFor program places) (h' : t'.MadeFor program places) :
    t = t' :=
  congrArg CopyTable.mk (Except.ok.inj (h.symm.trans h'))

theorem exists_place (h : t.MadeFor program places) {c : MethodCopy} (hc : c ∈ t.copies) :
    ∃ p ∈ places, p.Gets program c := by
  obtain ⟨p, hp, hcopy⟩ := exists_of_mem_mapM h hc
  exact ⟨p, hp, CopyPlace.gets_of_copy hcopy⟩

/-- **The copy for a place is found** on its class, with the descriptor of the method copied. -/
theorem exists_copy (h : t.MadeFor program places) {p : CopyPlace} (hp : p ∈ places) :
    ∃ copy, t.find? p.owner p.source = some copy ∧ copy.owner = p.owner
      ∧ copy.descriptor = p.source.descriptor ∧ copy.isStatic = p.source.isStatic := by
  obtain ⟨c, hc, hcopy⟩ := exists_of_mapM_ok h hp
  have hmade := CopyPlace.gets_of_copy hcopy
  have hsome : (t.copies.reverse.find? fun c => c.ref.owner = p.owner ∧ c.source = p.source).isSome
      = true := by
    rw [List.find?_isSome]
    refine ⟨c, List.mem_reverse.mpr hc, ?_⟩
    simp [hmade.source_eq, hmade.ref_eq, CopyPlace.ref, MixinInfo.copyRef]
  -- the newest copy counts; any copy has the descriptor of its method
  obtain ⟨found, hfound⟩ := Option.isSome_iff_exists.mp hsome
  obtain ⟨howner, hsource⟩ : found.ref.owner = p.owner ∧ found.source = p.source := by
    simpa using List.find?_some hfound
  obtain ⟨p', -, hmade'⟩ :=
    h.exists_place (List.mem_reverse.mp (List.mem_of_find?_eq_some hfound))
  refine ⟨found.ref, ?_, howner, ?_, ?_⟩
  · unfold find?
    rw [hfound]
    rfl
  · rw [hmade'.ref_eq, ← hsource, hmade'.source_eq]
    rfl
  · rw [hmade'.ref_eq, ← hsource, hmade'.source_eq]
    rfl

end CopyTable.MadeFor

end PatchWeaver

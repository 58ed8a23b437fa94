/-
  PatchWeaver.Proofs.Plans
  ────────────────────────
  **WHERE THE PATCHES OF A PLAN COME FROM.**

  A plan is made of the patches selected at its instruction and of no
  others, and puts every one of them where its kind says:

      id in a list of the plan at o  →  id selected at o, of that placement

  So if every patch selected has passed its checks, all patches of a plan
  can be called at the instruction of the plan.

  Main results:
    * `exists_of_mem_patchesOf` — the patches of a plan were selected.
    * `Validated.workable` — the plans of validated selections can be
      carried out.
-/
import PatchWeaver.Proofs.DepthAnalysis
import PatchWeaver.Proofs.Layout

namespace PatchWeaver

/-! ## §1. The patches of a plan. -/

/-- The patches of one placement. -/
def SitePlan.patchesOf (plan : SitePlan) : Placement → List PatchId
  | .before => plan.before
  | .replace => plan.replace.toList
  | .after => plan.after

/-- A patch of a plan is one of some placement. -/
theorem SitePlan.mem_patches_iff {plan : SitePlan} {id : PatchId} :
    id ∈ plan.patches ↔ ∃ placement, id ∈ plan.patchesOf placement := by
  unfold patches
  rw [List.mem_append, List.mem_append]
  constructor
  · rintro ((hid | hid) | hid)
    · exact ⟨.before, hid⟩
    · exact ⟨.replace, hid⟩
    · exact ⟨.after, hid⟩
  · rintro ⟨placement, hid⟩
    cases placement with
    | before => exact .inl (.inl hid)
    | replace => exact .inl (.inr hid)
    | after => exact .inr hid

theorem mem_patchesOf_planOf {ordered : List Contender} {placement : Placement} {id : PatchId}
    (h : id ∈ (planOf ordered).patchesOf placement) :
    ∃ c ∈ ordered, c.id = id ∧ c.placement? = some placement := by
  have hplaced : ∀ c ∈ placed placement ordered, c ∈ ordered ∧ c.placement? = some placement := by
    intro c hc
    obtain ⟨hmem, hplacement⟩ := List.mem_filter.mp hc
    exact ⟨hmem, by simpa using hplacement⟩
  have hmem : id ∈ (placed placement ordered).map (·.id) := by
    cases placement with
    | before => exact h
    | after => exact h
    | replace =>
      -- only the first replacing patch is planned
      have hhead : (placed .replace ordered).head?.map (·.id) = some id := by
        simpa [SitePlan.patchesOf, planOf] using h
      obtain ⟨c, hc, hid⟩ := Option.map_eq_some_iff.mp hhead
      exact List.mem_map.mpr ⟨c, List.mem_of_head? hc, hid⟩
  obtain ⟨c, hc, hid⟩ := List.mem_map.mp hmem
  exact ⟨c, (hplaced c hc).1, hid, (hplaced c hc).2⟩

theorem of_mem_contenders {r : Registry} {ids : List PatchId} {contenders : List Contender}
    (h : r.contenders ids = .ok contenders) {c : Contender} (hc : c ∈ contenders) :
    c.id ∈ ids ∧ r.patch? c.id = some c.patch := by
  obtain ⟨id, hid, hmade⟩ := exists_of_mem_mapM h hc
  split at hmade
  · next patch hpatch =>
    injection hmade with hmade
    subst hmade
    exact ⟨hid, hpatch⟩
  · contradiction

/-- Every plan is made of the patches selected at its offset. -/
theorem exists_of_mem_plans {r : Registry} {method : MethodRef} {offsets : Offsets}
    {plans : SitePlans} (h : (r.resolveMethod method offsets).outcome = .ok plans) {offset : Nat}
    {plan : SitePlan} (hmem : (offset, plan) ∈ plans) :
    ∃ ids contenders, (offset, ids) ∈ offsets ∧ r.contenders ids = .ok contenders
      ∧ plan = planOf (byPriority contenders) := by
  unfold Registry.resolveMethod at h
  rw [Traced.outcome_mapM] at h
  obtain ⟨⟨o, ids⟩, hids, hmade⟩ := exists_of_mem_mapM h hmem
  simp only [Traced.outcome_bind, Registry.resolveSite, Traced.outcome_lift] at hmade
  obtain ⟨plan', hplan', heq⟩ := bind_eq_ok_iff.mp hmade
  obtain ⟨rfl, rfl⟩ : o = offset ∧ plan' = plan := by simpa using heq
  obtain ⟨contenders, hcontenders, hrest⟩ := bind_eq_ok_iff.mp hplan'
  obtain ⟨-, -, hplanOf⟩ := bind_eq_ok_iff.mp hrest
  exact ⟨ids, contenders, hids, hcontenders, by simpa using hplanOf.symm⟩

/-- **The patches of a plan were selected** at its instruction. -/
theorem exists_of_mem_patchesOf {r : Registry} {method : MethodRef} {offsets : Offsets}
    {plans : SitePlans} (h : (r.resolveMethod method offsets).outcome = .ok plans) {offset : Nat}
    {placement : Placement} {id : PatchId} (hid : id ∈ (plans.at offset).patchesOf placement) :
    ∃ ids patch, (offset, ids) ∈ offsets ∧ id ∈ ids ∧ r.patch? id = some patch
      ∧ patch.kind.placement? = some placement := by
  unfold SitePlans.at at hid
  cases hfind : plans.find? (·.1 = offset) with
  | none =>
    rw [hfind] at hid
    cases placement <;> simp [SitePlan.patchesOf] at hid
  | some found =>
    obtain ⟨o, plan⟩ := found
    rw [hfind] at hid
    have ho : o = offset := by simpa using List.find?_some hfind
    subst ho
    obtain ⟨ids, contenders, hmem, hcontenders, rfl⟩ :=
      exists_of_mem_plans h (List.mem_of_find?_eq_some hfind)
    obtain ⟨c, hc, rfl, hplacement⟩ := mem_patchesOf_planOf hid
    obtain ⟨hselected, hpatch⟩ := of_mem_contenders hcontenders (List.mem_mergeSort.mp hc)
    exact ⟨ids, c.patch, hmem, hselected, hpatch, hplacement⟩

/-- A contender that goes somewhere leaves no plan empty. -/
theorem isEmpty_planOf {ordered : List Contender} {c : Contender} (hc : c ∈ ordered)
    {placement : Placement} (hplacement : c.placement? = some placement) :
    (planOf ordered).isEmpty = false := by
  have hplaced : c ∈ placed placement ordered :=
    List.mem_filter.mpr ⟨hc, by simpa using hplacement⟩
  have hne : placed placement ordered ≠ [] := List.ne_nil_of_mem hplaced
  cases placement <;> simp [planOf, SitePlan.isEmpty, hne]

/-- Every offset has its plan. -/
theorem mem_plans_at {r : Registry} {method : MethodRef} {offsets : Offsets} {plans : SitePlans}
    (h : (r.resolveMethod method offsets).outcome = .ok plans) {x : Nat × List PatchId}
    (hx : x ∈ offsets) : (x.1, plans.at x.1) ∈ plans := by
  unfold Registry.resolveMethod at h
  rw [Traced.outcome_mapM] at h
  obtain ⟨⟨o, plan⟩, hmem, hsite⟩ := exists_of_mapM_ok h hx
  simp only [Traced.outcome_bind] at hsite
  obtain ⟨plan', -, heq⟩ := bind_eq_ok_iff.mp hsite
  obtain ⟨ho, -⟩ : x.1 = o ∧ plan' = plan := by simpa using heq
  have hfound : (plans.find? (·.1 = x.1)).isSome = true := by
    rw [List.find?_isSome]
    exact ⟨_, hmem, by simp [ho]⟩
  obtain ⟨⟨o', found⟩, hfound⟩ := Option.isSome_iff_exists.mp hfound
  have ho' : o' = x.1 := by simpa using List.find?_some hfound
  unfold SitePlans.at
  rw [hfound, ← ho']
  exact List.mem_of_find?_eq_some hfound

/-- **No plan is empty** where every offset has patches, and these go somewhere. -/
theorem isEmpty_at_of_resolveMethod {r : Registry} {method : MethodRef} {offsets : Offsets}
    {plans : SitePlans} (h : (r.resolveMethod method offsets).outcome = .ok plans)
    (hplaced : ∀ x ∈ offsets, ∃ id ∈ x.2, ∃ patch, r.patch? id = some patch
      ∧ ∃ placement, patch.kind.placement? = some placement)
    {x : Nat × List PatchId} (hx : x ∈ offsets) : (plans.at x.1).isEmpty = false := by
  have hmade : ∀ y ∈ plans, y.2.isEmpty = false := by
    intro ⟨o, plan⟩ hy
    obtain ⟨ids, contenders, hids, hcontenders, rfl⟩ := exists_of_mem_plans h hy
    obtain ⟨id, hid, patch, hpatch, placement, hplacement⟩ := hplaced _ hids
    obtain ⟨c, hc, hcontender⟩ := exists_of_mapM_ok hcontenders hid
    rw [hpatch] at hcontender
    obtain rfl := Except.ok.inj hcontender
    exact isEmpty_planOf (List.mem_mergeSort.mpr hc) hplacement
  exact hmade _ (mem_plans_at h hx)

/-- Contenders that come in order already are planned in that order, if none loses that has to be
applied. -/
theorem outcome_resolveSite {r : Registry} {method : MethodRef} {offset : Nat} {ids : List PatchId}
    {contenders : List Contender} (hcontenders : r.contenders ids = .ok contenders)
    (horder : contenders.Pairwise fun a b => a.precedes b = true)
    (hlosers : (displaceLosers method offset (placed .replace contenders)).outcome = .ok ()) :
    (r.resolveSite method offset ids).outcome = .ok (planOf contenders) := by
  have hsorted : byPriority contenders = contenders := List.mergeSort_of_pairwise horder
  unfold Registry.resolveSite
  rw [Traced.outcome_bind, Traced.outcome_lift, hcontenders]
  refine bind_eq_ok_iff.mpr ⟨contenders, rfl, ?_⟩
  rw [hsorted, Traced.outcome_bind]
  exact bind_eq_ok_iff.mpr ⟨(), hlosers, rfl⟩

/-! ## §2. Validated selections. -/

/-- Patches go to instructions that are reached, and have passed the checks there. -/
def Splicer.Validated (s : Splicer) (method : MethodRef) (body : Body) (depths : Depths)
    (offsets : Offsets) : Prop :=
  ∀ offset ids, (offset, ids) ∈ offsets →
    depths.isReachable offset = true ∧ ∀ id ∈ ids, s.Fits method body offset id

theorem exists_mem_patchesOf {plan : SitePlan} (h : plan.isEmpty = false) :
    ∃ placement id, id ∈ plan.patchesOf placement := by
  have hne : plan.patches ≠ [] := by
    intro hnil
    rw [(plan.isEmpty_iff_patches_eq_nil).mpr hnil] at h
    contradiction
  obtain ⟨id, hid⟩ := List.exists_mem_of_ne_nil _ hne
  obtain ⟨placement, hid⟩ := SitePlan.mem_patches_iff.mp hid
  exact ⟨placement, id, hid⟩

/-- Plans are for instructions that are reached. -/
theorem Splicer.Validated.exists_depth {s : Splicer} {method : MethodRef} {body : Body}
    {depths : Depths} {offsets : Offsets} {plans : SitePlans}
    (h : s.Validated method body depths offsets)
    (hplans : (s.registry.resolveMethod method offsets).outcome = .ok plans) {index : Nat}
    (hplan : (plans.at index).isEmpty = false) : ∃ depth, depths.at? index = some depth := by
  obtain ⟨placement, id, hid⟩ := exists_mem_patchesOf hplan
  obtain ⟨ids, -, hoffset, -⟩ := exists_of_mem_patchesOf hplans hid
  exact Option.isSome_iff_exists.mp (h index ids hoffset).1

/-- **The plans of validated selections can be carried out.** -/
theorem Splicer.Validated.workable {s : Splicer} {method : MethodRef} {body : Body}
    {depths : Depths} {offsets : Offsets} {plans : SitePlans}
    (h : s.Validated method body depths offsets) (hdepths : body.depths = .ok depths)
    (hplans : (s.registry.resolveMethod method offsets).outcome = .ok plans) {index : Nat}
    {e : Entry} (he : body.entries[index]? = some e) (hplan : (plans.at index).isEmpty = false) :
    s.Workable method body.locals (depths.at? index) e.instruction (plans.at index) := by
  have hi : body.instruction? index = some e.instruction :=
    Body.instruction?_eq_some_iff.mpr ⟨e, he, rfl⟩
  -- a planned patch was selected for its instruction, and selecting validates
  have hplaceable : ∀ placement, ∀ id ∈ (plans.at index).patchesOf placement,
      s.Placeable method body.locals e.instruction placement id := by
    intro placement id hid
    obtain ⟨ids, patch, hoffset, hmem, hpatch, hplacement⟩ := exists_of_mem_patchesOf hplans hid
    obtain ⟨patch', copy, hready⟩ := ((h index ids hoffset).2 id hmem).ready hi
    obtain rfl : patch = patch' := Option.some_inj.mp (hpatch.symm.trans hready.patch_eq)
    exact ⟨patch, copy, hready, hplacement⟩
  refine ⟨⟨hplaceable .before, fun id hid => hplaceable .replace id ?_, hplaceable .after⟩, ?_⟩
  · simp [SitePlan.patchesOf, hid]
  · obtain ⟨depth, hdepth⟩ := h.exists_depth hplans hplan
    have hsound := Body.sound_of_depths hdepths
    exact ⟨depth, hdepth, (hsound.settled index depth hdepth (by simp)).covered e.instruction hi⟩

end PatchWeaver

/-
  PatchWeaver.Proofs.Renumbering
  ──────────────────────────────
  **THE NUMBERS OF PATCHES DO NOT MATTER.**

  A run speaks of patches by their numbers, from the selection to the plans
  of a body.  What it makes of a number is the patch behind it, and the copy
  of that patch's method.  So two splicers that know the same patches, one
  of them under `id` and the other one under `f id`, and that have the same
  copies on a class, weave the same bodies for the methods of the class:

      offsets             ─ plan ─▶  plans             ─ splice ─▶  body
      offsets.renumber f  ─ plan ─▶  plans.renumber f  ─ splice ─▶  body

  Main results:
    * `Registry.Renumbers.outcome_resolveMethod` — plans are renumbered.
    * `Splicer.Renumbers.outcome_splice` — bodies are the same.
    * `Splicer.Renumbers.weaves` — both, for a selected method.
-/
import PatchWeaver.Proofs.Preparing

namespace PatchWeaver

/-! ## §1. Other numbers. -/

/-- The same patch under another number. -/
def Patch.renumber (p : Patch) (id : PatchId) : Patch := { p with id }

section

variable (f : PatchId → PatchId)

/-- A contender whose patch has another number. -/
def Contender.renumber (c : Contender) : Contender := ⟨f c.id, c.patch.renumber (f c.id)⟩

/-- Offsets with other numbers. -/
def Offsets.renumber (offsets : Offsets) : Offsets := offsets.map fun x => (x.1, x.2.map f)

/-- A plan with other numbers. -/
def SitePlan.renumber (p : SitePlan) : SitePlan := ⟨p.before.map f, p.replace.map f, p.after.map f⟩

/-- Plans with other numbers. -/
def SitePlans.renumber (plans : SitePlans) : SitePlans := plans.map fun x => (x.1, x.2.renumber f)

/-- A step that has carried out a plan with other numbers. -/
def SpliceStep.renumber (step : SpliceStep) : SpliceStep :=
  { step with plan := step.plan.renumber f }

end

variable {f : PatchId → PatchId}

theorem Offsets.has_renumber {offsets : Offsets} {o : Nat} {id' : PatchId} :
    (offsets.renumber f).Has o id' ↔ ∃ id, offsets.Has o id ∧ f id = id' := by
  constructor
  · rintro ⟨ids', hmem, hid'⟩
    obtain ⟨⟨o, ids⟩, hold, heq⟩ := List.mem_map.mp hmem
    obtain ⟨rfl, rfl⟩ := Prod.mk.inj heq
    obtain ⟨id, hid, rfl⟩ := List.mem_map.mp hid'
    exact ⟨id, ⟨ids, hold, hid⟩, rfl⟩
  · rintro ⟨id, ⟨ids, hmem, hid⟩, rfl⟩
    exact ⟨ids.map f, List.mem_map.mpr ⟨(o, ids), hmem, rfl⟩, List.mem_map_of_mem hid⟩

/-- **Offsets that list where patches go do so under other numbers**, if these keep the order. -/
theorem Offsets.Lists.renumber {offsets : Offsets} {goes : Nat → PatchId → Prop}
    (h : offsets.Lists goes)
    (hmono : ∀ o o' id id', goes o id → goes o' id' → id < id' → f id < f id') :
    (offsets.renumber f).Lists fun o id' => ∃ id, goes o id ∧ f id = id' := by
  have hordered : (offsets.renumber f).Ordered := by
    intro x hx
    obtain ⟨⟨o, ids⟩, hold, rfl⟩ := List.mem_map.mp hx
    refine List.pairwise_map.mpr ((h.ordered _ hold).imp_of_mem fun hid hid' hlt => ?_)
    exact hmono o o _ _ ((h.mem_ids_iff hold).mp hid) ((h.mem_ids_iff hold).mp hid') hlt
  refine ⟨⟨?_, fun x hx => ?_, fun x hx => (hordered x hx).nodup⟩, hordered, fun o id' => ?_⟩
  · unfold Offsets.renumber
    rw [List.map_map]
    exact h.tidy.ascending
  · obtain ⟨x', hold, rfl⟩ := List.mem_map.mp hx
    simpa using h.tidy.inhabited x' hold
  · rw [Offsets.has_renumber]
    simp only [h.has_iff]

@[simp]
theorem SitePlan.isEmpty_renumber (p : SitePlan) : (p.renumber f).isEmpty = p.isEmpty := by
  simp [isEmpty, renumber]

theorem SitePlans.at_renumber (plans : SitePlans) (o : Nat) :
    SitePlans.at (plans.renumber f) o = (plans.at o).renumber f := by
  unfold SitePlans.at SitePlans.renumber
  rw [List.find?_map, Function.comp_def]
  cases plans.find? (·.1 = o) <;> rfl

/-! ## §2. Plans. -/

/-- Patches that one registry knows are known to another one, under other numbers. -/
def Registry.Renumbers (f : PatchId → PatchId) (known : PatchId → Prop) (r r' : Registry) : Prop :=
  ∀ id, known id → ∃ p, r.patch? id = some p ∧ r'.patch? (f id) = some (p.renumber (f id))

/-- Contenders keep their order, since no number decides it. -/
theorem byPriority_renumber (contenders : List Contender) :
    byPriority (contenders.map (Contender.renumber f))
      = (byPriority contenders).map (Contender.renumber f) :=
  (List.map_mergeSort (f := Contender.renumber f) fun _ _ _ _ => rfl).symm

theorem placed_renumber (placement : Placement) (ordered : List Contender) :
    placed placement (ordered.map (Contender.renumber f))
      = (placed placement ordered).map (Contender.renumber f) :=
  List.filter_map

theorem planOf_renumber (ordered : List Contender) :
    planOf (ordered.map (Contender.renumber f)) = (planOf ordered).renumber f := by
  simp [planOf, placed_renumber, SitePlan.renumber, Contender.renumber, Function.comp_def]

/-- Whether a patch may be left out does not depend on its number, and neither does what is told. -/
theorem displaceLosers_renumber (method : MethodRef) (offset : Nat) (replacing : List Contender) :
    displaceLosers method offset (replacing.map (Contender.renumber f))
      = displaceLosers method offset replacing := by
  cases replacing with
  | nil => rfl
  | cons winner losers => exact List.forM_map

namespace Registry.Renumbers

variable {known : PatchId → Prop} {r r' : Registry}

theorem contenders (h : r.Renumbers f known r') {ids : List PatchId} (hids : ∀ id ∈ ids, known id) :
    r'.contenders (ids.map f) = (r.contenders ids).map (·.map (Contender.renumber f)) := by
  unfold Registry.contenders
  refine mapM_map_eq_map fun id hid => ?_
  obtain ⟨p, hp, hp'⟩ := h id (hids id hid)
  rw [hp, hp']
  rfl

theorem outcome_resolveSite (h : r.Renumbers f known r') (method : MethodRef) (offset : Nat)
    {ids : List PatchId} (hids : ∀ id ∈ ids, known id) :
    (r'.resolveSite method offset (ids.map f)).outcome
      = (r.resolveSite method offset ids).outcome.map (SitePlan.renumber f) := by
  unfold Registry.resolveSite
  simp only [Traced.outcome_bind, Traced.outcome_lift, h.contenders hids]
  cases r.contenders ids with
  | error e => rfl
  | ok contenders =>
    show (do
      let _ ← (displaceLosers method offset (placed .replace (byPriority
        (contenders.map (Contender.renumber f))))).outcome
      _) = _
    simp only [byPriority_renumber, placed_renumber, displaceLosers_renumber, planOf_renumber,
      ok_bind]
    cases (displaceLosers method offset (placed .replace (byPriority contenders))).outcome <;> rfl

/-- **The plans for other numbers are the same plans with other numbers.** -/
theorem outcome_resolveMethod (h : r.Renumbers f known r') (method : MethodRef) {offsets : Offsets}
    (hoffsets : ∀ o id, offsets.Has o id → known id) :
    (r'.resolveMethod method (offsets.renumber f)).outcome
      = (r.resolveMethod method offsets).outcome.map (SitePlans.renumber f) := by
  unfold Registry.resolveMethod
  simp only [Traced.outcome_mapM]
  refine mapM_map_eq_map fun x hx => ?_
  simp only [Traced.outcome_bind]
  rw [h.outcome_resolveSite method x.1 fun id hid => hoffsets x.1 id ⟨x.2, hx, hid⟩]
  cases (r.resolveSite method x.1 x.2).outcome <;> rfl

end Registry.Renumbers

/-! ## §3. Bodies. -/

namespace Splicer

/-- Two splicers differ in the numbers of their patches, as far as a class is concerned. -/
structure Renumbers (f : PatchId → PatchId) (n : ClassName) (known : PatchId → Prop)
    (s s' : Splicer) : Prop where
  debugMarkers_eq : s'.debugMarkers = s.debugMarkers
  registry : s.registry.Renumbers f known s'.registry
  find_eq : ∀ source, s'.copies.find n source = s.copies.find n source

namespace Renumbers

variable {n : ClassName} {known : PatchId → Prop} {s s' : Splicer} {site : Site} {plan : SitePlan}

theorem patchBlock (h : s.Renumbers f n known s') (hsite : site.method.owner = n) {id : PatchId}
    (hid : known id) (w : Workbench) : s'.patchBlock site w (f id) = s.patchBlock site w id := by
  obtain ⟨p, hp, hp'⟩ := h.registry id hid
  unfold Splicer.patchBlock
  rw [hp, hp', hsite]
  show (s'.copies.find n p.body >>= fun copy => emit p site copy w) = _
  rw [h.find_eq]

theorem appendPatch (h : s.Renumbers f n known s') (hsite : site.method.owner = n) {id : PatchId}
    (hid : known id) (state : Block × Workbench) :
    s'.appendPatch site state (f id) = s.appendPatch site state id := by
  unfold Splicer.appendPatch
  rw [h.patchBlock hsite hid]

theorem foldlM_appendPatch (h : s.Renumbers f n known s') (hsite : site.method.owner = n)
    {ids : List PatchId} (hids : ∀ id ∈ ids, known id) (state : Block × Workbench) :
    (ids.map f).foldlM (s'.appendPatch site) state = ids.foldlM (s.appendPatch site) state := by
  induction ids generalizing state with
  | nil => rfl
  | cons id rest ih =>
    rw [List.forall_mem_cons] at hids
    rw [List.map_cons, List.foldlM_cons, List.foldlM_cons, h.appendPatch hsite hids.1]
    exact congrArg _ (funext fun state' => ih hids.2 state')

theorem appendReplacement (h : s.Renumbers f n known s') (hsite : site.method.owner = n)
    {replace : Option PatchId} (hreplace : ∀ id ∈ replace, known id) (kept : Entry)
    (state : Block × Workbench) :
    s'.appendReplacement site kept state (replace.map f)
      = s.appendReplacement site kept state replace := by
  cases replace with
  | none => rfl
  | some id => exact h.appendPatch hsite (hreplace id rfl) state

/-- **The container for a plan with other numbers is the same.** -/
theorem container (h : s.Renumbers f n known s') (hsite : site.method.owner = n)
    (hplan : ∀ id ∈ plan.patches, known id) (kept : Entry) (body : Body) :
    s'.container site kept (plan.renumber f) body = s.container site kept plan body := by
  have hbefore : ∀ id ∈ plan.before, known id := fun id hid =>
    hplan id (by simp [SitePlan.patches, hid])
  have hreplace : ∀ id ∈ plan.replace, known id := fun id hid =>
    hplan id (by simp [SitePlan.patches, Option.mem_def.mp hid])
  have hafter : ∀ id ∈ plan.after, known id := fun id hid =>
    hplan id (by simp [SitePlan.patches, hid])
  unfold Splicer.container Splicer.beginMarker Splicer.endMarker Splicer.markerInstructions
  simp only [SitePlan.renumber, h.debugMarkers_eq, h.foldlM_appendPatch hsite hbefore,
    h.appendReplacement hsite hreplace, h.foldlM_appendPatch hsite hafter]

theorem spliceAt (h : s.Renumbers f n known s') {method : MethodRef} (hmethod : method.owner = n)
    (hplan : ∀ id ∈ plan.patches, known id) (cursor depth : Nat) (body : Body) :
    s'.spliceAt method cursor depth (plan.renumber f) body
      = (s.spliceAt method cursor depth plan body).map fun x => (x.1.renumber f, x.2) := by
  unfold Splicer.spliceAt
  cases entryAt body.entries cursor with
  | error e => rfl
  | ok entry =>
    have hsite : (⟨method, entry.instruction, depth⟩ : Site).method.owner = n := hmethod
    simp only [ok_bind, h.container hsite hplan]
    cases s.container ⟨method, entry.instruction, depth⟩ entry plan body with
    | error e => rfl
    | ok built =>
      simp only [ok_bind]
      cases liftMachine (built.1.finish built.2.body) with
      | error e => rfl
      | ok finished =>
        simp only [ok_bind]
        cases entryAt finished.1 0 with
        | error e => rfl
        | ok first =>
          simp only [ok_bind]
          cases finished.2.splice? cursor 1 finished.1 <;> rfl

theorem outcome_spliceFrom (h : s.Renumbers f n known s') {method : MethodRef}
    (hmethod : method.owner = n) {plans : SitePlans}
    (hplans : ∀ o, ∀ id ∈ (plans.at o).patches, known id) (depths : Depths)
    (count index cursor : Nat) (body : Body) :
    (s'.spliceFrom method depths (plans.renumber f) count index cursor body).outcome
      = (s.spliceFrom method depths plans count index cursor body).outcome := by
  induction count generalizing index cursor body with
  | zero => rfl
  | succ count ih =>
    unfold Splicer.spliceFrom
    simp only [SitePlans.at_renumber, SitePlan.isEmpty_renumber,
      h.spliceAt hmethod (hplans index)]
    split
    · exact ih _ _ _
    · cases s.spliceAt method cursor ((depths.at? index).getD 0) (plans.at index) body with
      | error e => rfl
      | ok taken => exact ih _ _ _

/-- **The body for plans with other numbers is the same.** -/
theorem outcome_splice (h : s.Renumbers f n known s') {method : MethodRef}
    (hmethod : method.owner = n) {plans : SitePlans}
    (hplans : ∀ o, ∀ id ∈ (plans.at o).patches, known id) (depths : Depths) (body : Body) :
    (s'.splice method body depths (plans.renumber f)).outcome
      = (s.splice method body depths plans).outcome := by
  unfold Splicer.splice SpliceRun.checked
  rw [h.outcome_spliceFrom hmethod hplans]

/-- **A selected method is woven into the same body under other numbers.** -/
theorem weaves {program : Program} {m : MethodRef} {offsets : Offsets}
    (h : s.Renumbers f m.owner known s') (hoffsets : ∀ o id, offsets.Has o id → known id)
    {run : SpliceRun} {woven : Body} (hweaves : s.Weaves program (m, offsets) run woven) :
    ∃ run', s'.Weaves program (m, offsets.renumber f) run' woven := by
  obtain ⟨body, depths, plans, hbody, hdepths, hplans, rfl, hok⟩ := hweaves
  have hknown : ∀ o, ∀ id ∈ (plans.at o).patches, known id := by
    intro o id hid
    obtain ⟨placement, hid⟩ := SitePlan.mem_patches_iff.mp hid
    obtain ⟨ids, patch, hmem, hid, -⟩ := exists_of_mem_patchesOf hplans hid
    exact hoffsets o id ⟨ids, hmem, hid⟩
  refine ⟨s'.splice m body depths (plans.renumber f), body, depths, plans.renumber f, hbody,
    hdepths,
    ?_, rfl, ?_⟩
  · rw [h.registry.outcome_resolveMethod m hoffsets, hplans]
    rfl
  · rw [h.outcome_splice rfl hknown, hok]

end Renumbers

end Splicer

end PatchWeaver

/-
  PatchWeaver.Proofs.Preparing
  ────────────────────────────
  **WHAT A RUN PREPARES, AND HOW IT CAN FAIL TO.**

  Preparing a run goes through its phases, and each phase relies on what
  the phases before it have found:

      scan      patches by number, and what every declaration contributes
      select    patches at offsets where they have passed their checks
      build     a copy for every patch on every target class of its mixin
      splice    new bodies, in which the plans of the selection are carried
                out with these copies
      check     all changes can be made

  Where names of mixins are distinct, a patch is selected on target classes
  of its own declaration only, so it finds its copy, and splicing meets
  none of its internal failures (`Excusable`).

  Main results:
    * `Selection.Holds.validated` — selected patches can be put in.
    * `Phases.ensures_prepare` — preparing, from contracts of its phases.
    * `ensures_prepare` — the contract of preparing a run.
-/
import PatchWeaver.Proofs.Commit
import PatchWeaver.Proofs.Copies
import PatchWeaver.Proofs.Selecting
import PatchWeaver.Proofs.Splicing
import PatchWeaver.Proofs.Targets

namespace PatchWeaver

/-! ## §1. Errors. -/

/-- Whether an error tells of a fault within a run, and not of its input. -/
def WeaveError.isInternal : WeaveError → Bool
  | .machine _ | .missingCopy .. | .invalidSite .. | .unknownPatch _ | .positionOutOfRange _ => true
  | _ => false

/-- Bodies have distinct labels, and supplies ahead of them. -/
def Program.Labelled (program : Program) : Prop :=
  ∀ m body, program.body? m = some body → body.labelList.Nodup ∧ body.Ahead

/-- A patch reaches a method whose body does not pass the analysis. -/
def Registry.Unanalysable (r : Registry) (program : Program) (m : MethodRef)
    (cause : MachineError) : Prop :=
  ∃ patch ∈ r.patches, r.Reaches program patch m
    ∧ ∃ body, program.body? m = some body ∧ body.depths = .error cause

/-- An error that a run on the declarations may end with: it is no internal one, and an analysis
that failed is that of a body which a patch reaches. -/
structure Excusable (program : Program) (mixins : List Mixin) (e : WeaveError) : Prop where
  external : (mixins.map (·.name)).Nodup → e.isInternal = false
  analysis : (mixins.map (·.name)).Nodup → program.Labelled → ∀ m cause,
    e = .stackAnalysis m cause → (scanned program mixins).Unanalysable program m cause

section

variable {program : Program} {mixins : List Mixin} {e : WeaveError}

/-- Errors of other kinds are always excusable. -/
theorem Excusable.of_other (hinternal : e.isInternal = false)
    (hother : ∀ m cause, e ≠ .stackAnalysis m cause) : Excusable program mixins e :=
  ⟨fun _ => hinternal, fun _ _ m cause heq => absurd heq (hother m cause)⟩

theorem ScanFailure.excusable (h : ScanFailure e) : Excusable program mixins e := by
  cases h <;> exact .of_other rfl (by simp)

theorem CopyFailure.excusable (h : CopyFailure e) : Excusable program mixins e := by
  cases h <;> exact .of_other rfl (by simp)

theorem SelectionFailure.excusable (h : SelectionFailure program (scanned program mixins) e) :
    Excusable program mixins e := by
  cases h with
  | unresolved patch_mem fails =>
    obtain ⟨t, -, c, -, -, rfl⟩ := (resolveTargetsOn_cases program _ _).error_eq _ fails
    exact .of_other rfl (by simp)
  | analysis patch_mem reaches body_eq fails =>
    refine ⟨fun _ => rfl, ?_⟩
    rintro - - m cause ⟨⟩
    exact ⟨_, patch_mem, reaches, _, body_eq, fails⟩

end

/-! ## §2. Plans. -/

/-- What can go wrong in making plans. -/
inductive PlanFailure : WeaveError → Prop where
  | displaced (patch winner : String) (m : MethodRef) (o : Nat) :
      PlanFailure (.requiredDisplaced patch winner m o)

theorem PlanFailure.excusable {program : Program} {mixins : List Mixin} {e : WeaveError}
    (h : PlanFailure e) : Excusable program mixins e := by
  cases h
  exact .of_other rfl (by simp)

section

variable {r : Registry} {m : MethodRef}

theorem yields_displaceLosers (o : Nat) (replacing : List Contender) :
    Yields (fun _ => True) PlanFailure (displaceLosers m o replacing).outcome := by
  -- only losers can make it fail, and those one by one
  cases replacing with
  | nil => exact .ok trivial
  | cons winner losers =>
    change Yields _ _ (losers.forM (displace m o winner)).outcome
    induction losers with
    | nil => exact .ok trivial
    | cons loser rest ih =>
      change Yields _ _ (displace m o winner loser >>= fun _ =>
        rest.forM (displace m o winner)).outcome
      rw [Traced.outcome_bind]
      have hfirst : Yields (fun _ => True) PlanFailure (displace m o winner loser).outcome := by
        unfold displace
        split
        · exact .error (.displaced _ _ _ _)
        · exact .ok trivial
      exact hfirst.bind fun _ _ => ih

/-- **The contract of making plans** for patches of the registry. -/
theorem yields_resolveMethod {offsets : Offsets}
    (hknown : ∀ o id, offsets.Has o id → (r.patch? id).isSome = true) :
    Yields (fun plans => (r.resolveMethod m offsets).outcome = .ok plans) PlanFailure
      (r.resolveMethod m offsets).outcome := by
  refine .of_errors fun e he => ?_
  unfold Registry.resolveMethod at he
  rw [Traced.outcome_mapM] at he
  obtain ⟨⟨o, ids⟩, hmem, hfails⟩ := exists_of_mapM_error he
  unfold Registry.resolveSite at hfails
  simp only [Traced.outcome_bind, Traced.outcome_lift] at hfails
  rcases bind_eq_error_iff.mp hfails with hfails | ⟨_, -, hfails⟩
  · rcases bind_eq_error_iff.mp hfails with hunknown | ⟨_, -, hfails⟩
    · -- every patch that is to be planned is known
      obtain ⟨id, hid, hpatch⟩ := exists_of_mapM_error hunknown
      obtain ⟨patch, hfound⟩ := Option.isSome_iff_exists.mp (hknown o id ⟨ids, hmem, hid⟩)
      rw [hfound] at hpatch
      contradiction
    · rcases bind_eq_error_iff.mp hfails with hfails | ⟨_, -, hfails⟩
      · exact (yields_displaceLosers o _).of_error hfails
      · contradiction
  · contradiction

end

/-! ## §3. Selected patches. -/

section

variable {program : Program} {settings : ShiftSettings} {mixins : List Mixin} {r : Registry}
  {copies : CopyTable} {m : MethodRef}

/-- Where names are distinct, a patch that reaches a method has a copy on its class. -/
theorem exists_copy_of_reaches (hscan : (Registry.scan program mixins).outcome = .ok r)
    (hnames : (mixins.map (·.name)).Nodup) (hcopies : copies.MadeFor program r.places)
    {patch : Patch} (hpatch : patch ∈ r.patches) (hreaches : r.Reaches program patch m) :
    ∃ copy, copies.find? m.owner patch.body = some copy
      ∧ copy.descriptor = patch.body.descriptor ∧ copy.isStatic = patch.body.isStatic := by
  obtain ⟨-, rfl⟩ := scan_eq_ok_iff.mp hscan
  obtain ⟨done, d, rest, hmixins, hd⟩ := mem_patches_scanned.mp hpatch
  obtain ⟨methods, hmethods, hm⟩ := hreaches
  -- the method is one of a target class of the declaration that the patch is of
  have hresolve := resolveTargets_of_nodup hscan hnames hmixins hd
  obtain ⟨c, hc, t, -, ht⟩ := ((hresolve.resolves methods hmethods).mem_iff m).mp hm
  obtain rfl := ht.owner_eq
  have hinfo : d.info program (patchCount done) ∈ (scanned program mixins).mixins := by
    rw [hmixins]
    exact mem_mixins_scanned program done d rest
  have hplace : ⟨d.info program (patchCount done), m.owner, patch.body⟩
      ∈ (scanned program mixins).places :=
    mem_places.mpr ⟨hinfo, mem_targetClasses.mpr hc, (Mixin.exists_of_mem_patches hd).2.1⟩
  obtain ⟨copy, hfind, -, hdescriptor, hstatic⟩ := hcopies.exists_copy hplace
  exact ⟨copy, hfind, hdescriptor, hstatic⟩

/-- A selected patch is one of the registry. -/
theorem patch?_of_selected {id : PatchId} {o : Nat}
    (h : (scanned program mixins).Selected program settings m o id) :
    ∃ patch ∈ (scanned program mixins).patches, (scanned program mixins).patch? id = some patch
      ∧ (scanned program mixins).Reaches program patch m ∧ patch.GoesTo program settings m o := by
  obtain ⟨patch, hpatch, hreaches, hgoes, rfl⟩ := h
  exact ⟨patch, hpatch, patch?_id_of_mem hpatch, hreaches, hgoes⟩

/-- **Selected patches can be put in**, where names are distinct. -/
theorem Selection.Holds.validated {selection : Selection} {debugMarkers : Bool}
    (h : selection.Holds (r.Selected program settings))
    (hscan : (Registry.scan program mixins).outcome = .ok r)
    (hnames : (mixins.map (·.name)).Nodup) (hcopies : copies.MadeFor program r.places)
    {offsets : Offsets} (hmem : (m, offsets) ∈ selection.methods) {body : Body} {depths : Depths}
    (hbody : program.body? m = some body) (hdepths : body.depths = .ok depths) :
    Splicer.Validated ⟨debugMarkers, r, copies⟩ m body depths offsets := by
  obtain ⟨-, rfl⟩ := scan_eq_ok_iff.mp hscan
  have hgoes : ∀ o id, offsets.Has o id → ∃ patch ∈ (scanned program mixins).patches,
      (scanned program mixins).patch? id = some patch
        ∧ (scanned program mixins).Reaches program patch m
        ∧ o < body.length ∧ depths.isReachable o = true ∧ validateMethod patch m = .ok ()
        ∧ validateInstruction patch m body o = .ok () := by
    intro o id hhas
    obtain ⟨patch, hpatch, hfound, hreaches, hgoes⟩ :=
      patch?_of_selected ((h.selects_iff m o id).mp ⟨offsets, hmem, hhas⟩)
    obtain ⟨body', depths', hbody', hdepths', hchecks⟩ := hgoes.validated
    obtain rfl := Option.some_inj.mp (hbody.symm.trans hbody')
    obtain rfl := Except.ok.inj (hdepths.symm.trans hdepths')
    exact ⟨patch, hpatch, hfound, hreaches, hchecks⟩
  intro o ids ho
  refine ⟨?_, fun id hid => ?_⟩
  · -- no offset is without patches
    obtain ⟨id, hid⟩ := List.exists_mem_of_ne_nil _ ((h.tidy.tidy _ hmem).inhabited _ ho)
    obtain ⟨patch, -, -, -, -, hreachable, -⟩ := hgoes o id ⟨ids, ho, hid⟩
    exact hreachable
  · obtain ⟨patch, hpatch, hfound, hreaches, -, -, hmethod, hinstruction⟩ :=
      hgoes o id ⟨ids, ho, hid⟩
    obtain ⟨copy, hfind, hdescriptor, hstatic⟩ :=
      exists_copy_of_reaches hscan hnames hcopies hpatch hreaches
    exact ⟨patch, copy, hfound, hfind, hdescriptor, hstatic, hmethod, hinstruction⟩

/-- A method in which something was selected has a body with depths. -/
theorem Selection.Holds.exists_depths {selection : Selection}
    (h : selection.Holds (r.Selected program settings)) {offsets : Offsets}
    (hmem : (m, offsets) ∈ selection.methods) :
    ∃ body depths, program.body? m = some body ∧ body.depths = .ok depths := by
  obtain ⟨o, id, hhas⟩ := (h.tidy.tidy _ hmem).exists_has (h.tidy.inhabited _ hmem)
  obtain ⟨patch, -, -, hgoes, -⟩ := (h.selects_iff m o id).mp ⟨offsets, hmem, hhas⟩
  obtain ⟨body, depths, hbody, hdepths, -⟩ := hgoes.validated
  exact ⟨body, depths, hbody, hdepths⟩

end

/-! ## §4. New bodies. -/

/-- A body is what the body of a method is woven into. -/
def Splicer.Weaves (s : Splicer) (program : Program) (selected : MethodRef × Offsets)
    (run : SpliceRun) (woven : Body) : Prop :=
  ∃ body depths plans, program.body? selected.1 = some body ∧ body.depths = .ok depths
    ∧ (s.registry.resolveMethod selected.1 selected.2).outcome = .ok plans
    ∧ run = s.splice selected.1 body depths plans ∧ run.outcome = .ok woven

/-- New bodies have been made for selected methods, one after the other. -/
inductive Spliced.MadeFor (program : Program) (s : Splicer) :
    List (MethodRef × Offsets) → Spliced → Prop where
  | nil : MadeFor program s [] ⟨[], List.replicate s.registry.patches.length 0⟩
  | snoc {done : List (MethodRef × Offsets)} {made : Spliced} {selected : MethodRef × Offsets}
      {run : SpliceRun} {woven : Body} (before : MadeFor program s done made)
      (weaves : s.Weaves program selected run woven) :
      MadeFor program s (done ++ [selected])
        ⟨made.bodies ++ [(selected.1, woven)], made.counts.add run.applied⟩

theorem Counts.length_add (counts : Counts) (ids : List PatchId) :
    (counts.add ids).length = counts.length := by
  unfold add
  induction ids generalizing counts with
  | nil => rfl
  | cons id rest ih => rw [List.foldl_cons, ih, List.length_modify]

namespace Spliced.MadeFor

variable {program : Program} {s : Splicer} {done : List (MethodRef × Offsets)} {made : Spliced}

/-- There is a body for each of the methods. -/
theorem map_fst_bodies (h : MadeFor program s done made) :
    made.bodies.map (·.1) = done.map (·.1) := by
  induction h with
  | nil => rfl
  | snoc _ _ ih => simp [ih]

/-- Every patch keeps its counter. -/
theorem length_counts (h : MadeFor program s done made) :
    made.counts.length = s.registry.patches.length := by
  induction h with
  | nil => simp
  | snoc _ _ ih => rw [Counts.length_add, ih]

/-- Every body is what a selected method is woven into. -/
theorem exists_of_mem (h : MadeFor program s done made) {m : MethodRef} {woven : Body}
    (hmem : (m, woven) ∈ made.bodies) :
    ∃ offsets run, (m, offsets) ∈ done ∧ s.Weaves program (m, offsets) run woven := by
  induction h with
  | nil => simp at hmem
  | @snoc done made selected run woven' _ weaves ih =>
    rcases List.mem_append.mp hmem with hmem | hmem
    · obtain ⟨offsets, run, hold, hweaves⟩ := ih hmem
      exact ⟨offsets, run, List.mem_append_left _ hold, hweaves⟩
    · obtain ⟨rfl, rfl⟩ := Prod.mk.inj (List.mem_singleton.mp hmem)
      exact ⟨selected.2, run, List.mem_append_right _ (List.mem_singleton.mpr rfl), weaves⟩

end Spliced.MadeFor

section

variable {program : Program} {settings : ShiftSettings} {mixins : List Mixin} {r : Registry}
  {copies : CopyTable} {selection : Selection} {debugMarkers : Bool}

theorem outcome_spliceTraced (s : Splicer) (m : MethodRef) (body : Body) (depths : Depths)
    (plans : SitePlans) :
    (s.spliceTraced m body depths plans).outcome
      = (s.splice m body depths plans).outcome.map
          fun woven => (woven, (s.splice m body depths plans).applied) := by
  unfold Splicer.spliceTraced
  simp only [Traced.outcome_bind, Traced.outcome_tell, ok_bind, Traced.outcome_lift]
  cases (s.splice m body depths plans).outcome <;> rfl

/-- **The contract of making one new body**: it fails where the plans do, or splicing does. -/
theorem ensures_spliceMethod {s : Splicer} {done : List (MethodRef × Offsets)} {made : Spliced}
    {m : MethodRef} {offsets : Offsets} {body : Body} {depths : Depths} {fails : WeaveError → Prop}
    (hmade : made.MadeFor program s done) (hbody : program.body? m = some body)
    (hdepths : body.depths = .ok depths)
    (hplans : ∀ e, (s.registry.resolveMethod m offsets).outcome = .error e → fails e)
    (hsplice : ∀ plans, (s.registry.resolveMethod m offsets).outcome = .ok plans →
      ∀ e, (s.splice m body depths plans).outcome = .error e → fails e) :
    Analysing.Ensures program.body? (Spliced.MadeFor program s (done ++ [(m, offsets)])) fails
      (spliceMethod program s made (m, offsets)) := by
  unfold spliceMethod
  refine .bind (.lift (.of_errors hplans)) fun plans hplans => ?_
  -- the method has a body, as it was selected in, and depths that selecting found
  have hexisting : existingBody program m = .ok body := by simp [existingBody, hbody]
  refine .bind (.lift_ok hexisting) fun existing heq => ?_
  subst existing
  refine .bind (.depths hbody fun cause hcause => ?_) fun depths' hdepths' => ?_
  · rw [hdepths] at hcause
    contradiction
  obtain rfl := Except.ok.inj (hdepths.symm.trans hdepths')
  have htraced : Yields (fun x : Body × List PatchId =>
        s.Weaves program (m, offsets) (s.splice m body depths plans) x.1
          ∧ x.2 = (s.splice m body depths plans).applied) fails
      (s.spliceTraced m body depths plans).outcome := by
    rw [outcome_spliceTraced]
    cases hrun : (s.splice m body depths plans).outcome with
    | error e => exact .error (hsplice plans hplans e hrun)
    | ok woven => exact .ok ⟨⟨body, depths, plans, hbody, hdepths, hplans, rfl, hrun⟩, rfl⟩
  refine .bind (.lift htraced) ?_
  rintro ⟨woven, _⟩ ⟨hweaves, rfl⟩
  exact .pure (.snoc hmade hweaves)

/-- Making new bodies for selected methods fails excusably only. -/
theorem ensures_spliceMethod_excusable (h : selection.Holds (r.Selected program settings))
    (hscan : (Registry.scan program mixins).outcome = .ok r)
    (hcopies : copies.MadeFor program r.places) {done : List (MethodRef × Offsets)}
    {selected : MethodRef × Offsets} (hmem : selected ∈ selection.methods) {made : Spliced}
    (hmade : made.MadeFor program ⟨debugMarkers, r, copies⟩ done) :
    Analysing.Ensures program.body?
      (Spliced.MadeFor program ⟨debugMarkers, r, copies⟩ (done ++ [selected]))
      (Excusable program mixins)
      (spliceMethod program ⟨debugMarkers, r, copies⟩ made selected) := by
  obtain ⟨m, offsets⟩ := selected
  obtain ⟨body, depths, hbody, hdepths⟩ := h.exists_depths hmem
  refine ensures_spliceMethod hmade hbody hdepths (fun e he => ?_) fun plans hplans e he => ?_
  · -- every patch that was selected is known
    refine ((yields_resolveMethod fun o id hhas => ?_).of_error he).excusable
    obtain ⟨-, rfl⟩ := scan_eq_ok_iff.mp hscan
    obtain ⟨patch, -, hfound, -⟩ :=
      patch?_of_selected ((h.selects_iff m o id).mp ⟨offsets, hmem, hhas⟩)
    simp [hfound]
  · by_cases hnames : (mixins.map (·.name)).Nodup
    · have hvalid : Splicer.Validated ⟨debugMarkers, r, copies⟩ m body depths offsets :=
        h.validated hscan hnames hcopies hmem hbody hdepths
      obtain ⟨⟨cause, rfl⟩, hlabels⟩ := (hvalid.yields_splice hdepths hplans).of_error he
      exact ⟨fun _ => rfl, fun _ hlabelled => absurd (hlabelled m body hbody) hlabels⟩
    · exact ⟨fun h => absurd h hnames, fun h => absurd h hnames⟩

/-! ## §5. Checks. -/

/-- Classes of copies exist, so the check of copies fails at most at their places. -/
theorem yields_check {t : CopyTable}
    (hclasses : ∀ c ∈ t.copies, program.hasClass c.ref.owner = true) :
    Yields (fun _ => t.check program = .ok ()) CopyFailure (t.check program) := by
  -- over the copies still to come; the class of each is there, so only its place can fail
  have hcheck : ∀ copies taken, (∀ c ∈ copies, program.hasClass c.ref.owner = true) →
      ∀ e, checkDeclarable program copies taken = .error e → CopyFailure e := by
    intro copies
    induction copies with
    | nil => intro taken _ e he; contradiction
    | cons copy rest ih =>
      intro taken hclasses e he
      rw [List.forall_mem_cons] at hclasses
      unfold checkDeclarable at he
      rw [if_neg (by simp [hclasses.1])] at he
      split at he
      · obtain rfl := Except.error.inj he
        exact .taken _
      · exact ih _ hclasses.2 e he
  exact (Yields.of_errors fun e he => hcheck _ _ hclasses e he).mono (fun _ h => h) fun _ h => h

/-- Copies are made for classes that exist. -/
theorem hasClass_of_mem_copies (hcopies : copies.MadeFor program (scanned program mixins).places)
    {c : MethodCopy} (hc : c ∈ copies.copies) : program.hasClass c.ref.owner = true := by
  obtain ⟨p, hp, hgets⟩ := hcopies.exists_place hc
  obtain ⟨hmixin, howner, -⟩ := mem_places.mp hp
  obtain ⟨done, d, rest, -, hinfo⟩ := exists_of_mem_infosFrom hmixin
  rw [hinfo] at howner
  rw [hgets.ref_eq]
  exact (mem_targetClasses.mp howner).2

theorem checkCounted_eq_ok {counts : Counts}
    (hcounts : counts.length = (scanned program mixins).patches.length) :
    checkCounted (scanned program mixins) counts = .ok () := by
  unfold checkCounted
  have hnone : (scanned program mixins).patches.find? (counts.length ≤ ·.id) = none := by
    refine List.find?_eq_none.mpr fun patch hpatch hle => ?_
    have hplace := (List.getElem?_eq_some_iff.mp (patch?_id_of_mem hpatch)).1
    have hle : counts.length ≤ patch.id := by simpa using hle
    omega
  rw [hnone]

end

/-! ## §6. All phases. -/

/-- What a run has prepared. -/
structure Prepared (settings : Settings) (program : Program) (mixins : List Mixin) (c : Changes) :
    Prop where
  accepted : ∀ d ∈ mixins, d.Acceptable program
  registry_eq : c.registry = scanned program mixins
  copies : c.copies.MadeFor program c.registry.places
  spliced : ∃ selection : Selection, selection.Holds (c.registry.Selected program settings.shifts)
    ∧ Spliced.MadeFor program ⟨settings.debugMarkers, c.registry, c.copies⟩ selection.methods
        ⟨c.bodies, c.counts⟩
  checked : c.copies.check program = .ok ()
  installable : checkInstallable program c.bodies = .ok ()

theorem yields_writeSnapshot (settings : Settings) (program : Program) (mixins : List Mixin)
    (r : Registry) :
    Yields (fun _ => True) (Excusable program mixins) (writeSnapshot settings r).outcome := by
  unfold writeSnapshot
  split
  · exact .ok trivial
  · split
    · exact .ok trivial
    · exact .error (.of_other rfl (by simp))

/-- The phases of preparing a run, each with what it finds from what the phases before it have
found. Whichever of them fails, it is with an error of a given kind. -/
structure Phases (settings : Settings) (program : Program) (mixins : List Mixin)
    (fails : WeaveError → Prop) : Prop where
  scan : Yields (fun r => (∀ d ∈ mixins, d.Acceptable program) ∧ r = scanned program mixins) fails
    (Registry.scan program mixins).outcome
  snapshot : Yields (fun _ => True) fails (writeSnapshot settings (scanned program mixins)).outcome
  select : Analysing.Ensures program.body? ((scanned program mixins).Choice program settings.shifts)
    fails (selectAll program settings.shifts (scanned program mixins))
  build : Yields (CopyTable.MadeFor · program (scanned program mixins).places) fails
    (CopyTable.build program (scanned program mixins)).outcome
  /-- Every selected method gets a new body. -/
  splice : ∀ (copies : CopyTable) (selection : Selection) (done : List (MethodRef × Offsets))
      (selected : MethodRef × Offsets) (made : Spliced), (∀ d ∈ mixins, d.Acceptable program) →
    copies.MadeFor program (scanned program mixins).places →
    (scanned program mixins).Choice program settings.shifts selection →
    selected ∈ selection.methods →
    made.MadeFor program ⟨settings.debugMarkers, scanned program mixins, copies⟩ done →
      Analysing.Ensures program.body?
        (Spliced.MadeFor program ⟨settings.debugMarkers, scanned program mixins, copies⟩
          (done ++ [selected])) fails
        (spliceMethod program ⟨settings.debugMarkers, scanned program mixins, copies⟩ made selected)
  check : ∀ copies : CopyTable, copies.MadeFor program (scanned program mixins).places →
    Yields (fun _ => copies.check program = .ok ()) fails (copies.check program)

section

variable {settings : Settings} {program : Program} {mixins : List Mixin} {fails : WeaveError → Prop}

/-- **Preparing goes through its phases**, and fails only where one of them does. -/
theorem Phases.ensures_prepare (h : Phases settings program mixins fails) :
    Analysing.Ensures program.body? (fun c => Prepared settings program mixins c
        ∧ ∃ selection, (scanned program mixins).Choice program settings.shifts selection
          ∧ Spliced.MadeFor program ⟨settings.debugMarkers, scanned program mixins, c.copies⟩
              selection.methods ⟨c.bodies, c.counts⟩) fails
      (prepare settings program mixins) := by
  unfold prepare
  refine .bind (.lift h.scan) ?_
  rintro _ ⟨haccepted, rfl⟩
  refine .bind (.lift h.snapshot) fun _ _ => .bind h.select fun selection hchoice => ?_
  refine .bind (.lift_ok rfl) fun _ _ => .bind (.lift h.build) fun copies hcopies => ?_
  refine .bind (.foldlM (fun done made => Spliced.MadeFor program
      ⟨settings.debugMarkers, scanned program mixins, copies⟩ done made) .nil
    fun done selected rest made hmethods hmade =>
      h.splice copies selection done selected made haccepted hcopies hchoice (by simp [hmethods])
        hmade) fun made hmade => ?_
  refine .bind (.lift (h.check copies hcopies)) fun _ hchecked => ?_
  -- only methods that have a body were spliced, so each body has its place
  have hinstallable : checkInstallable program made.bodies = .ok () := by
    refine checkInstallable_eq_ok_iff.mpr fun ⟨m, woven⟩ hmem => ?_
    obtain ⟨offsets, run, -, body, -, -, hbody, -⟩ := hmade.exists_of_mem hmem
    unfold Program.hasMethod
    cases hmethod : program.method? m with
    | none => simp [Program.body?, hmethod] at hbody
    | some d => rfl
  refine .bind (.lift_ok hinstallable) fun _ _ => ?_
  refine .bind (.lift_ok (checkCounted_eq_ok hmade.length_counts)) fun _ _ => ?_
  exact .pure ⟨⟨haccepted, rfl, hcopies, ⟨selection, hchoice.holds, hmade⟩, hchecked, hinstallable⟩,
    selection, hchoice, hmade⟩

end

/-- Errors of the phases are excusable. -/
theorem phases_excusable (settings : Settings) (program : Program) (mixins : List Mixin) :
    Phases settings program mixins (Excusable program mixins) where
  scan := (yields_scan program mixins).mono (fun _ h => h) fun _ h => h.excusable
  snapshot := yields_writeSnapshot settings program mixins _
  select := by
    refine ensures_selectAll (pairwise_id_patches_scanned program mixins) (fun p hp e he => ?_)
      fun p hp m body cause hreaches htarget hcause => ?_
    · exact (SelectionFailure.unresolved hp he).excusable
    · have hbody := (targetBody_eq_ok_iff.mp htarget).2
      exact (SelectionFailure.analysis hp hreaches hbody hcause).excusable
  build := (yields_build program _ (fun _ _ _ _ _ p _ _ => CopyFailure.taken p.ref)
    fun _ _ _ he => CopyPlace.failure_of_copy he).mono (fun _ h => h) fun _ h => h.excusable
  splice := fun copies selection done selected made haccepted hcopies hchoice hmem hmade =>
    ensures_spliceMethod_excusable hchoice.holds (scan_eq_ok_iff.mpr ⟨haccepted, rfl⟩) hcopies
      hmem hmade
  check := fun copies hcopies =>
    (yields_check fun c hc => hasClass_of_mem_copies hcopies hc).mono (fun _ h => h)
      fun _ h => h.excusable

/-- **The contract of preparing a run.** -/
theorem ensures_prepare (settings : Settings) (program : Program) (mixins : List Mixin) :
    Analysing.Ensures program.body? (Prepared settings program mixins) (Excusable program mixins)
      (prepare settings program mixins) :=
  (phases_excusable settings program mixins).ensures_prepare.mono (fun _ h => h.1) fun _ h => h

end PatchWeaver

/-
  PatchWeaver.Proofs.Feasibility
  ──────────────────────────────
  **WHEN A RUN SUCCEEDS, AND TO WHICH PROGRAM IT LEADS.**

  Whether a run succeeds is decided by the program and the declarations, and
  can be said without the run:

      every declaration makes sense
      every patch can be selected
      the copies can be made, and declared
      every method in which something is selected can be woven

  What a method is woven into is determined, too: the offsets selected in it
  (`Offsets.Lists.unique`), the table of copies (`CopyTable.MadeFor.unique`)
  and then the body (`Remakes.unique`).  So a run that succeeds leads to
  one program, whatever its weaver has done before.

  Main results:
    * `phases_infeasible` — phases fail only where the run is not feasible.
    * `Weaver.decides_weave` — a run succeeds exactly if it is feasible.
    * `Weaver.Decides.classes_eq` — the program that it leads to.
-/
import PatchWeaver.Proofs.Growth

namespace PatchWeaver

/-! ## §1. What methods are woven into. -/

theorem Splicer.Weaves.unique {s : Splicer} {program : Program} {selected : MethodRef × Offsets}
    {run run' : SpliceRun} {woven woven' : Body} (h : s.Weaves program selected run woven)
    (h' : s.Weaves program selected run' woven') : woven = woven' := by
  obtain ⟨body, depths, plans, hbody, hdepths, hplans, rfl, hok⟩ := h
  obtain ⟨body', depths', plans', hbody', hdepths', hplans', rfl, hok'⟩ := h'
  obtain rfl := Option.some_inj.mp (hbody.symm.trans hbody')
  obtain rfl := Except.ok.inj (hdepths.symm.trans hdepths')
  obtain rfl := Except.ok.inj (hplans.symm.trans hplans')
  exact Except.ok.inj (hok.symm.trans hok')

section

variable (settings : Settings) (program : Program) (mixins : List Mixin)

/-- A run on declarations makes a method in which something is selected a new body. -/
def Remakes (m : MethodRef) (woven : Body) : Prop :=
  ∃ (t : CopyTable) (offsets : Offsets) (run : SpliceRun),
    t.MadeFor program (scanned program mixins).places
      ∧ offsets.Lists ((scanned program mixins).Selected program settings.shifts m) ∧ offsets ≠ []
      ∧ Splicer.Weaves ⟨settings.debugMarkers, scanned program mixins, t⟩ program (m, offsets) run
          woven

/-- A run on declarations has nothing to fail with. -/
structure Feasible : Prop where
  acceptable : ∀ d ∈ mixins, d.Acceptable program
  selectable : ∀ p ∈ (scanned program mixins).patches, p.Selectable program (scanned program mixins)
  copiable : ∃ t : CopyTable, t.MadeFor program (scanned program mixins).places
    ∧ Declarable program t.copies
  weavable : ∀ m o id, (scanned program mixins).Selected program settings.shifts m o id →
    ∃ woven, Remakes settings program mixins m woven

/-- Copies and bodies are those that a run on declarations makes. -/
structure Realises (t : CopyTable) (bodies : List (MethodRef × Body)) : Prop where
  copies : t.MadeFor program (scanned program mixins).places
  distinct : (bodies.map (·.1)).Nodup
  mem_iff : ∀ m woven, (m, woven) ∈ bodies ↔ Remakes settings program mixins m woven

end

section

variable {settings : Settings} {program : Program} {mixins : List Mixin} {m : MethodRef}

/-- **A method is woven into one body.** -/
theorem Remakes.unique {woven woven' : Body} (h : Remakes settings program mixins m woven)
    (h' : Remakes settings program mixins m woven') : woven = woven' := by
  obtain ⟨t, offsets, run, hcopies, hlists, -, hweaves⟩ := h
  obtain ⟨t', offsets', run', hcopies', hlists', -, hweaves'⟩ := h'
  obtain rfl := hcopies.unique hcopies'
  obtain rfl := hlists.unique hlists'
  exact hweaves.unique hweaves'

/-- Something is selected in a method that gets a new body. -/
theorem Remakes.exists_selected {woven : Body} (h : Remakes settings program mixins m woven) :
    ∃ o id, (scanned program mixins).Selected program settings.shifts m o id := by
  obtain ⟨-, offsets, -, -, hlists, hne, -⟩ := h
  obtain ⟨o, id, hhas⟩ := hlists.tidy.exists_has hne
  exact ⟨o, id, (hlists.has_iff o id).mp hhas⟩

/-! ## §2. Failures. -/

/-- **The places of copies that can be declared are free** when their turn comes. -/
theorem free_of_declarable {t t' : CopyTable} {done rest : List CopyPlace}
    (h : t.MadeFor program (done ++ rest)) (hdeclarable : Declarable program t.copies)
    (hdone : t'.MadeFor program done) {p : CopyPlace} (hp : p ∈ rest) :
    (program.hasMethod p.ref || t'.hasRef p.ref) = false := by
  obtain ⟨c, hc, hcopy⟩ := exists_of_mapM_ok h (List.mem_append_right _ hp)
  have hfree := hdeclarable.free c hc
  rw [(CopyPlace.gets_of_copy hcopy).ref_eq] at hfree
  rw [hfree, Bool.false_or, Bool.eq_false_iff]
  intro htaken
  obtain ⟨c', hc', heq⟩ := List.any_eq_true.mp htaken
  have hmem : p.ref ∈ done.map (·.ref) := by
    rw [← hdone.map_ref]
    exact List.mem_map.mpr ⟨c', hc', of_decide_eq_true heq⟩
  -- but no two copies have the same place
  have hdistinct := hdeclarable.distinct
  rw [h.map_ref, List.map_append, List.nodup_append] at hdistinct
  exact hdistinct.2.2 _ hmem _ (List.mem_map_of_mem hp) rfl

/-- **What is feasible is done with the offsets and the copies at hand**, as there is no choice of
them. -/
theorem Feasible.exists_weaves (h : Feasible settings program mixins) {t : CopyTable}
    (hcopies : t.MadeFor program (scanned program mixins).places) {offsets : Offsets}
    (hlists : offsets.Lists ((scanned program mixins).Selected program settings.shifts m))
    (hne : offsets ≠ []) :
    ∃ run woven, Splicer.Weaves ⟨settings.debugMarkers, scanned program mixins, t⟩ program
      (m, offsets) run woven := by
  obtain ⟨o, id, hhas⟩ := hlists.tidy.exists_has hne
  have hselected := (hlists.has_iff o id).mp hhas
  obtain ⟨woven, t', offsets', run, hcopies', hlists', -, hweaves⟩ := h.weavable m o id hselected
  obtain rfl := hcopies.unique hcopies'
  obtain rfl := hlists.unique hlists'
  exact ⟨run, woven, hweaves⟩

/-- **The phases of a run fail only where it is not feasible.** -/
theorem phases_infeasible (hsnapshot : settings.snapshot = none) :
    Phases settings program mixins (fun _ => ¬ Feasible settings program mixins) where
  scan := (yields_scan program mixins).refuting fun h =>
    ⟨_, scan_eq_ok_iff.mpr ⟨h.acceptable, rfl⟩⟩
  snapshot := by
    unfold writeSnapshot
    rw [hsnapshot]
    exact .ok trivial
  select := by
    refine ensures_selectAll (pairwise_id_patches_scanned program mixins) (fun p hp e he h => ?_)
      fun p hp m body cause hreaches htarget hcause h => ?_
    · obtain ⟨methods, hmethods⟩ := (h.selectable p hp).resolves
      rw [he] at hmethods
      contradiction
    · obtain ⟨depths, hdepths⟩ := (h.selectable p hp).analysed m hreaches body htarget
      rw [hcause] at hdepths
      contradiction
  build := by
    refine yields_build program _ (fun done rest hplaces t hdone p hp htaken h => ?_)
      fun p hp e he h => ?_
    · obtain ⟨t', hmade, hdeclarable⟩ := h.copiable
      rw [hplaces] at hmade
      rw [free_of_declarable hmade hdeclarable hdone hp] at htaken
      contradiction
    · obtain ⟨t, hmade, -⟩ := h.copiable
      obtain ⟨c, -, hc⟩ := exists_of_mapM_ok hmade hp
      rw [he] at hc
      contradiction
  splice := by
    rintro copies selection done ⟨m, offsets⟩ made - hcopies hchoice hmem hmade
    obtain ⟨body, depths, hbody, hdepths⟩ := hchoice.holds.exists_depths hmem
    have hlists := hchoice.holds.lists hchoice.ordered hmem
    have hne : offsets ≠ [] := hchoice.holds.tidy.inhabited _ hmem
    refine ensures_spliceMethod hmade hbody hdepths (fun e he h => ?_) fun plans hplans e he h => ?_
    · obtain ⟨run, woven, -, -, plans, -, -, hplans, -⟩ := h.exists_weaves hcopies hlists hne
      rw [he] at hplans
      contradiction
    · obtain ⟨run, woven, body', depths', plans', hbody', hdepths', hplans', rfl, hok⟩ :=
        h.exists_weaves hcopies hlists hne
      -- the body, its depths and its plans are the ones at hand
      obtain rfl := Option.some_inj.mp (hbody.symm.trans hbody')
      obtain rfl := Except.ok.inj (hdepths.symm.trans hdepths')
      obtain rfl := Except.ok.inj (hplans.symm.trans hplans')
      rw [he] at hok
      contradiction
  check copies hcopies := by
    refine (yields_check fun c hc => hasClass_of_mem_copies hcopies hc).refuting fun h => ⟨(), ?_⟩
    obtain ⟨t, hmade, hdeclarable⟩ := h.copiable
    obtain rfl := hcopies.unique hmade
    exact checkDeclarable_eq_ok_iff.mpr ⟨hdeclarable, by simp⟩

/-! ## §3. Successes. -/

/-- **A body is made exactly for every method in which something is selected.** -/
theorem realises_of_choice {t : CopyTable} {selection : Selection} {made : Spliced}
    (hcopies : t.MadeFor program (scanned program mixins).places)
    (hchoice : (scanned program mixins).Choice program settings.shifts selection)
    (hmade : made.MadeFor program ⟨settings.debugMarkers, scanned program mixins, t⟩
      selection.methods) :
    (∀ m o id, (scanned program mixins).Selected program settings.shifts m o id →
        ∃ woven, (m, woven) ∈ made.bodies)
      ∧ Realises settings program mixins t made.bodies := by
  have hselected : ∀ m o id, (scanned program mixins).Selected program settings.shifts m o id →
      ∃ woven, (m, woven) ∈ made.bodies := by
    intro m o id hid
    obtain ⟨offsets, hmem, -⟩ := (hchoice.holds.selects_iff m o id).mpr hid
    have hmethod : m ∈ made.bodies.map (·.1) := by
      rw [hmade.map_fst_bodies]
      exact List.mem_map.mpr ⟨_, hmem, rfl⟩
    obtain ⟨⟨m, woven⟩, hbody, rfl⟩ := List.mem_map.mp hmethod
    exact ⟨woven, hbody⟩
  have hremakes : ∀ m woven, (m, woven) ∈ made.bodies →
      Remakes settings program mixins m woven := by
    intro m woven hbody
    obtain ⟨offsets, run, hmem, hweaves⟩ := hmade.exists_of_mem hbody
    exact ⟨t, offsets, run, hcopies, hchoice.holds.lists hchoice.ordered hmem,
      hchoice.holds.tidy.inhabited _ hmem, hweaves⟩
  refine ⟨hselected, hcopies, ?_, fun m woven => ⟨hremakes m woven, fun h => ?_⟩⟩
  · rw [hmade.map_fst_bodies]
    exact hchoice.holds.tidy.distinct
  · -- the method has got a body, and there is only one that it can have got
    obtain ⟨o, id, hid⟩ := h.exists_selected
    obtain ⟨woven', hbody⟩ := hselected m o id hid
    rwa [h.unique (hremakes m woven' hbody)]

/-- **The contract of preparing, once more**: changes are prepared exactly if a run is feasible, and
they are the ones that it makes. -/
theorem ensures_prepare_feasible (hsnapshot : settings.snapshot = none) :
    Analysing.Ensures program.body? (fun c => Prepared settings program mixins c
        ∧ Feasible settings program mixins ∧ Realises settings program mixins c.copies c.bodies)
      (fun _ => ¬ Feasible settings program mixins) (prepare settings program mixins) := by
  refine (phases_infeasible hsnapshot).ensures_prepare.mono ?_ fun _ h => h
  rintro c ⟨hprepared, selection, hchoice, hmade⟩
  have hcopies := hprepared.copies
  rw [hprepared.registry_eq] at hcopies
  obtain ⟨hselected, hrealises⟩ := realises_of_choice hcopies hchoice hmade
  obtain ⟨hdeclarable, -⟩ := checkDeclarable_eq_ok_iff.mp hprepared.checked
  refine ⟨hprepared, ⟨hprepared.accepted, hchoice.selectable, ⟨c.copies, hcopies, hdeclarable⟩, ?_⟩,
    hrealises⟩
  intro m o id hid
  obtain ⟨woven, hbody⟩ := hselected m o id hid
  exact ⟨woven, (hrealises.mem_iff m woven).mp hbody⟩

/-- How a run goes, as its program and its declarations decide. -/
inductive Weaver.Decides (w : Weaver) (program : Program) (mixins : List Mixin) :
    WeaveResult → Prop where
  | fails {e : WeaveError} {events : List Event} {cache : DepthCache}
      (infeasible : ¬ Feasible w.settings program mixins) :
      Decides w program mixins (w.failed e events cache program)
  | weaves {c : Changes} {changed : Changed} {events : List Event} {after : Program}
      (feasible : Feasible w.settings program mixins)
      (realises : Realises w.settings program mixins c.copies c.bodies)
      (classes_eq : after.classes = program.classes.map fun x =>
        (x.1, { x.2 with
          methods := installOn c.bodies x.1 x.2.methods ++ declarationsOn c.copies.copies x.1 })) :
      Decides w program mixins (w.succeeded c changed events after)

/-- **A run succeeds exactly if it is feasible**, and leads to the program with the copies and the
bodies that its declarations make. -/
theorem Weaver.decides_weave {w : Weaver} (hruns : HasRun w program)
    (hsnapshot : w.settings.snapshot = none) (mixins : List Mixin) :
    w.Decides program mixins (w.weave program mixins) := by
  rcases weave_cases (ensures_prepare_feasible hsnapshot) hruns.accurate with
    ⟨e, cache, hinfeasible, -, hweave⟩ | ⟨c, declared, woven, ⟨hprepared, hfeasible, hrealises⟩,
      hdeclare, hinstall, hweave⟩
  · rw [hweave]
    exact .fails hinfeasible
  · rw [hweave]
    exact .weaves hfeasible hrealises
      (classes_woven hdeclare hinstall (checkInstallable_eq_ok_iff.mp hprepared.installable))

end

end PatchWeaver

/-
  PatchWeaver.Proofs.Repeating
  ────────────────────────────
  **WHAT HAS BEEN WOVEN IS NOT WOVEN AGAIN.**

  What copies a run makes is determined by the declarations and by the
  classes of the program; the names of copies are made from those of mixins
  and methods.  A run adds methods to classes, but no class:

      program            classes C     copies asked for  A
      after the run      classes C     copies asked for  A, all of them taken

  So once a run has added any copy, the next run on the same declarations
  finds the place of this copy taken.  Whatever it selects in the bodies of
  the first run, and whatever depths it starts with, it does not get beyond
  its copies.

  A run that adds no copy has patched nothing, as the method of a patch is
  copied onto the target classes of its declaration.

  Main results:
    * `Weaver.exists_changes_of_ok` — a run that succeeds makes the changes
      that it has prepared, whatever depths it started with.
    * `copiesAsked_weave` — a run does not change what is asked for.
    * `patches_eq_nil_of_copiesAsked_eq_nil` — without copies there are no patches.
    * `weave_twice_is_refused` — the second of two equal runs.
-/
import PatchWeaver.Proofs.Declaring

namespace PatchWeaver

/-! ## §1. Members of a woven program. -/

section

variable {program declared woven : Program} {copies : List MethodCopy}
  {bodies : List (MethodRef × Body)} {added patched : List MethodRef}

/-- Declaring copies adds no class. -/
theorem hasClass_declareAll (h : declareAll copies program = (.ok added, declared))
    (n : ClassName) : declared.hasClass n = program.hasClass n := by
  induction copies generalizing program added with
  | nil =>
    obtain ⟨-, rfl⟩ := Prod.mk.inj h
    rfl
  | cons copy rest ih =>
    obtain ⟨next, added', hadd, hrest, -⟩ := exists_of_declareAll_cons h
    rw [ih hrest, Program.hasClass_addMethod hadd]

/-- Installing bodies adds no class, and no method. -/
theorem has_installAll (h : installAll bodies program = (.ok patched, woven)) :
    (∀ n, woven.hasClass n = program.hasClass n)
      ∧ ∀ m, woven.hasMethod m = program.hasMethod m := by
  induction bodies generalizing program patched with
  | nil =>
    obtain ⟨-, rfl⟩ := Prod.mk.inj h
    exact ⟨fun _ => rfl, fun _ => rfl⟩
  | cons entry rest ih =>
    obtain ⟨m, body⟩ := entry
    obtain ⟨next, patched', hinstall, hrest, -⟩ := exists_of_installAll_cons h
    obtain ⟨hclasses, hmethods⟩ := ih hrest
    refine ⟨fun n => ?_, fun m' => ?_⟩
    · rw [hclasses, Program.hasClass_install hinstall]
    · rw [hmethods, Program.hasMethod_install hinstall]

/-- A copy that has been declared is one of the methods. -/
theorem hasMethod_declareAll_of_mem (h : declareAll copies program = (.ok added, declared))
    {m : MethodRef} (hm : m ∈ copies.map (·.ref)) : declared.hasMethod m = true := by
  obtain ⟨c, hc, rfl⟩ := List.mem_map.mp hm
  unfold Program.hasMethod
  rw [method?_declareAll_of_mem h hc]
  rfl

end

/-! ## §2. Runs that succeed. -/

section

variable {w : Weaver} {program : Program} {mixins : List Mixin} {report : WeaveReport}

/-- **A run that succeeds has made the changes that it prepared**, whatever depths it started with,
and reports them. -/
theorem Weaver.exists_changes_of_ok (h : (w.weave program mixins).outcome = .ok report) :
    ∃ (c : Changes) (declared : Program), c.ComesFrom w.settings program mixins
      ∧ c.copies.declare program = (.ok (c.copies.copies.map (·.ref)), declared)
      ∧ installAll c.bodies declared
        = (.ok (c.bodies.map (·.1)), (w.weave program mixins).program)
      ∧ report.patched = c.bodies.map (·.1)
      ∧ report.added = c.copies.copies.map (·.ref)
      ∧ report.counts = c.registry.patches.map fun p => (p.describe, c.counts.of p.id) := by
  rcases w.weave_of_prepare program mixins with ⟨e, -, hweave⟩ | ⟨c, declared, woven, -, hfrom,
    hdeclare, hinstall, hweave⟩
  · rw [hweave] at h
    contradiction
  · rw [hweave] at h ⊢
    obtain rfl := Except.ok.inj h
    exact ⟨c, declared, hfrom, hdeclare, hinstall, rfl, rfl, rfl⟩

variable {settings : Settings} {c : Changes}

/-- The registry is that of the declarations, which make sense. -/
theorem Changes.ComesFrom.scanned (h : c.ComesFrom settings program mixins) :
    (∀ d ∈ mixins, d.Acceptable program) ∧ c.registry = scanned program mixins :=
  scan_eq_ok_iff.mp h.scan

/-- **The copies are those that the declarations ask for.** -/
theorem Changes.ComesFrom.map_ref_copies (h : c.ComesFrom settings program mixins) :
    c.copies.copies.map (·.ref) = copiesAsked program mixins := by
  have hbuild : Yields (fun t : CopyTable => t.MadeFor program c.registry.places) (fun _ => True)
      (CopyTable.build program c.registry).outcome :=
    yields_build program c.registry (fun _ _ _ _ _ _ _ _ => trivial) fun _ _ _ _ => trivial
  rw [(hbuild.of_ok h.build).map_ref, h.scanned.2, map_ref_places]

/-- Without patches, no body is changed. -/
theorem Changes.ComesFrom.bodies_eq_nil (h : c.ComesFrom settings program mixins)
    (hpatches : c.registry.patches = []) : c.bodies = [] := by
  obtain ⟨selection, before, between, hselect, hmade⟩ := h.splice
  have hnothing : (selectAll program settings.shifts c.registry).outcome before = .ok {} := by
    unfold selectAll
    rw [hpatches]
    rfl
  obtain rfl := Except.ok.inj (hnothing.symm.trans hselect)
  exact (congrArg Spliced.bodies (Except.ok.inj hmade)).symm

/-- The method of a patch is copied onto the target classes of its declaration, of which there are
some; so without copies there are no patches. -/
theorem patches_eq_nil_of_copiesAsked_eq_nil (hmixins : ∀ d ∈ mixins, d.Acceptable program)
    (h : copiesAsked program mixins = []) : (scanned program mixins).patches = [] := by
  refine List.eq_nil_iff_forall_not_mem.mpr fun p hp => ?_
  obtain ⟨done, d, rest, rfl, hpatch⟩ := mem_patches_scanned.mp hp
  have hinjections : d.injections ≠ [] := by
    intro hnone
    have hempty : d.patches (patchCount done) = [] :=
      List.eq_nil_of_length_eq_zero (by simp [hnone])
    simp [hempty] at hpatch
  obtain ⟨n, hn⟩ := List.exists_mem_of_ne_nil _
    ((hmixins d (by simp)).targets hinjections)
  have hasked : d.copyRef n p.body ∈ copiesAsked program (done ++ d :: rest) :=
    List.mem_flatMap.mpr ⟨d, by simp, List.mem_flatMap.mpr
      ⟨n, hn, List.mem_map_of_mem (Mixin.exists_of_mem_patches hpatch).2.1⟩⟩
  simp [h] at hasked

end

/-! ## §3. The next run. -/

/-- What copies are asked for depends on the classes of a program only. -/
theorem copiesAsked_congr {p q : Program} (h : ∀ n, p.hasClass n = q.hasClass n)
    (mixins : List Mixin) : copiesAsked p mixins = copiesAsked q mixins := by
  have hclasses : p.hasClass = q.hasClass := funext h
  simp only [copiesAsked, targetClasses, hclasses]

section

variable {w : Weaver} {program : Program} {mixins : List Mixin} {report : WeaveReport}

/-- **A run adds the copies that are asked for**, and after it they are asked for still. -/
theorem copiesAsked_weave (h : (w.weave program mixins).outcome = .ok report) :
    report.added = copiesAsked program mixins
      ∧ copiesAsked (w.weave program mixins).program mixins = report.added
      ∧ ∀ m ∈ report.added, (w.weave program mixins).program.hasMethod m = true := by
  obtain ⟨c, declared, hfrom, hdeclare, hinstall, -, hadded, -⟩ := Weaver.exists_changes_of_ok h
  obtain ⟨hclasses, hmethods⟩ := has_installAll hinstall
  have hasked : report.added = copiesAsked program mixins := hadded.trans hfrom.map_ref_copies
  refine ⟨hasked, ?_, fun m hm => ?_⟩
  · rw [hasked]
    refine copiesAsked_congr (fun n => ?_) mixins
    rw [hclasses, hasClass_declareAll hdeclare]
  · rw [hmethods]
    rw [hadded] at hm
    exact hasMethod_declareAll_of_mem hdeclare hm

/-- A run that adds no copy has no patches to apply. -/
theorem patched_eq_nil_of_added_eq_nil (h : (w.weave program mixins).outcome = .ok report)
    (hadded : report.added = []) : report.patched = [] ∧ report.counts = [] := by
  obtain ⟨c, declared, hfrom, -, -, hpatched, -, hcounts⟩ := Weaver.exists_changes_of_ok h
  have hpatches : c.registry.patches = [] := by
    rw [hfrom.scanned.2]
    refine patches_eq_nil_of_copiesAsked_eq_nil hfrom.scanned.1 ?_
    rw [← (copiesAsked_weave h).1, hadded]
  rw [hpatched, hcounts, hfrom.bodies_eq_nil hpatches, hpatches]
  exact ⟨rfl, rfl⟩

/-- **A run is refused if one of the copies asked for is there.** -/
theorem exists_error_of_hasMethod {m : MethodRef} (hasked : m ∈ copiesAsked program mixins)
    (hm : program.hasMethod m = true) : ∃ e, (w.weave program mixins).outcome = .error e := by
  cases houtcome : (w.weave program mixins).outcome with
  | error e => exact ⟨e, rfl⟩
  | ok report =>
    obtain ⟨c, declared, hfrom, -⟩ := Weaver.exists_changes_of_ok houtcome
    rw [← hfrom.map_ref_copies] at hasked
    obtain ⟨copy, hcopy, rfl⟩ := List.mem_map.mp hasked
    -- the copies of a run that succeeds have been checked to be new
    have hfree := (check_eq_ok_iff.mp hfrom.checked).free copy hcopy
    rw [hm] at hfree
    contradiction

/-- **The second of two equal runs is refused.** A run that has patched a method or applied a patch
has added copies; once a run has added any, the next run on the same declarations fails and leaves
the program as it is, whatever its settings are and whatever it has run on before. -/
theorem weave_twice_is_refused (h : (w.weave program mixins).outcome = .ok report) :
    ((report.patched ≠ [] ∨ ∃ x ∈ report.counts, 0 < x.2) → report.added ≠ [])
      ∧ (report.added ≠ [] → ∀ again : Weaver,
          (∃ e, (again.weave (w.weave program mixins).program mixins).outcome = .error e)
            ∧ (again.weave (w.weave program mixins).program mixins).program
              = (w.weave program mixins).program) := by
  refine ⟨fun happlied hadded => ?_, fun hadded again => ?_⟩
  · obtain ⟨hpatched, hcounts⟩ := patched_eq_nil_of_added_eq_nil h hadded
    rcases happlied with hne | ⟨x, hx, -⟩
    · exact hne hpatched
    · simp [hcounts] at hx
  · obtain ⟨m, hm⟩ := List.exists_mem_of_ne_nil _ hadded
    obtain ⟨-, hasked, hadds⟩ := copiesAsked_weave h
    obtain ⟨e, he⟩ := exists_error_of_hasMethod (w := again) (hasked ▸ hm) (hadds m hm)
    exact ⟨⟨e, he⟩, program_of_weave_error he⟩

end

/-- The run that hooks a method on two classes: no other run does the same again. -/
theorem weave_twice_is_refused_pair :
    ∃ report, Pair.result.outcome = .ok report ∧ report.patched ≠ [] ∧ report.added ≠ []
      ∧ ∀ again : Weaver, (∃ e, (again.weave Pair.result.program Pair.mixins).outcome = .error e)
        ∧ (again.weave Pair.result.program Pair.mixins).program = Pair.result.program := by
  have hreports := Pair.reports_result
  cases houtcome : Pair.result.outcome with
  | error e => simp [houtcome, Except.toOption] at hreports
  | ok report =>
    obtain ⟨hpatched, hadded⟩ : report.patched = _ ∧ report.added = _ := by
      simpa [houtcome, Except.toOption] using hreports
    have hne : report.patched ≠ [] := by simp [hpatched]
    obtain ⟨happlied, hrefused⟩ := weave_twice_is_refused houtcome
    exact ⟨report, rfl, hne, happlied (.inl hne), hrefused (happlied (.inl hne))⟩

end PatchWeaver

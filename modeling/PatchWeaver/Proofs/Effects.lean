/-
  PatchWeaver.Proofs.Effects
  ──────────────────────────
  **A RUN CHANGES WHAT IT REPORTS, AND NOTHING ELSE.**

  Both kinds of changes are made class by class:

      declare copies    methods of n  ↦  methods of n ++ the copies for n
      install bodies    methods of n  ↦  the same declarations, and new
                                         bodies for some of them

  A body is installed on a method that the program has declared already,
  and no copy takes the place of such a method, so the new bodies are those
  of old methods and the copies stay as they were declared.

  Main results:
    * `classes_declareAll`, `classes_installAll` — the changes, class by class.
    * `weave_changes_what_it_reports` — the account of a successful run.
-/
import Mathlib.Data.List.Forall2
import PatchWeaver.Proofs.Runs

namespace PatchWeaver

/-! ## §1. Declaring copies. -/

/-- What a copy is declared as. -/
def MethodCopy.declaration (c : MethodCopy) : MethodDef :=
  Program.declare c.ref c.flags (some c.body)

/-- The declarations of the copies for a class, in order. -/
def declarationsOn (copies : List MethodCopy) (n : ClassName) : List MethodDef :=
  (copies.filter (·.ref.owner = n)).map (·.declaration)

theorem exists_of_declareAll_cons {copy : MethodCopy} {rest : List MethodCopy}
    {program declared : Program} {added : List MethodRef}
    (h : declareAll (copy :: rest) program = (.ok added, declared)) :
    ∃ next added', program.addMethod copy.ref copy.flags (some copy.body) = .ok next
      ∧ declareAll rest next = (.ok added', declared) ∧ added = copy.ref :: added' := by
  unfold declareAll at h
  split at h
  · cases (Prod.mk.inj h).1
  · next next hadd =>
    cases hrest : declareAll rest next with
    | mk outcome after =>
      rw [hrest] at h
      obtain ⟨houtcome, rfl⟩ := Prod.mk.inj h
      cases outcome with
      | error e => cases houtcome
      | ok added' => exact ⟨next, added', hadd, hrest, (Except.ok.inj houtcome).symm⟩

/-- **Declaring copies appends them to the methods of their classes.** -/
theorem classes_declareAll {copies : List MethodCopy} {program declared : Program}
    {added : List MethodRef} (h : declareAll copies program = (.ok added, declared)) :
    declared.classes = program.classes.map fun x =>
      (x.1, { x.2 with methods := x.2.methods ++ declarationsOn copies x.1 }) := by
  induction copies generalizing program added with
  | nil =>
    obtain ⟨-, rfl⟩ := Prod.mk.inj h
    simp [declarationsOn]
  | cons copy rest ih =>
    obtain ⟨next, added', hadd, hrest, -⟩ := exists_of_declareAll_cons h
    obtain ⟨-, -, rfl⟩ := Program.addMethod_eq_ok_iff.mp hadd
    rw [ih hrest, Program.classes_modifyClass, List.map_map]
    refine List.map_congr_left fun x _ => ?_
    -- only the class of the copy changes, by the copy behind its methods
    by_cases howner : x.1 = copy.ref.owner
    · simp [howner, declarationsOn, MethodCopy.declaration]
    · simp [howner, declarationsOn, Ne.symm howner]

/-! ## §2. Installing bodies. -/

theorem exists_of_installAll_cons {m : MethodRef} {body : Body} {rest : List (MethodRef × Body)}
    {program woven : Program} {patched : List MethodRef}
    (h : installAll ((m, body) :: rest) program = (.ok patched, woven)) :
    ∃ next patched', program.install m body = .ok next
      ∧ installAll rest next = (.ok patched', woven) ∧ patched = m :: patched' := by
  unfold installAll at h
  split at h
  · cases (Prod.mk.inj h).1
  · next next hinstall =>
    cases hrest : installAll rest next with
    | mk outcome after =>
      rw [hrest] at h
      obtain ⟨houtcome, rfl⟩ := Prod.mk.inj h
      cases outcome with
      | error e => cases houtcome
      | ok patched' => exact ⟨next, patched', hinstall, hrest, (Except.ok.inj houtcome).symm⟩

/-- The methods of a class with bodies installed on them. -/
def installOn (bodies : List (MethodRef × Body)) (n : ClassName) (methods : List MethodDef) :
    List MethodDef :=
  bodies.foldl (fun methods (m, body) =>
    if m.owner = n then updateFirst (·.matches? m) ({ · with body := some body }) methods
    else methods) methods

/-- **Installing bodies changes methods of their classes.** -/
theorem classes_installAll {bodies : List (MethodRef × Body)} {program woven : Program}
    {patched : List MethodRef} (h : installAll bodies program = (.ok patched, woven)) :
    woven.classes = program.classes.map fun x =>
      (x.1, { x.2 with methods := installOn bodies x.1 x.2.methods }) := by
  induction bodies generalizing program patched with
  | nil =>
    obtain ⟨-, rfl⟩ := Prod.mk.inj h
    simp [installOn]
  | cons entry rest ih =>
    obtain ⟨m, body⟩ := entry
    obtain ⟨next, patched', hinstall, hrest, -⟩ := exists_of_installAll_cons h
    obtain ⟨-, rfl⟩ := Program.install_eq_ok_iff.mp hinstall
    rw [ih hrest, Program.classes_modifyClass, List.map_map]
    refine List.map_congr_left fun x _ => ?_
    -- only the class of the method changes
    by_cases howner : x.1 = m.owner
    · simp [howner, installOn]
    · simp [howner, installOn, Ne.symm howner]

/-- Where no body is installed, look-ups find what they found. -/
theorem method?_installAll {bodies : List (MethodRef × Body)} {program woven : Program}
    {patched : List MethodRef} (h : installAll bodies program = (.ok patched, woven))
    {m : MethodRef} (hm : m ∉ bodies.map (·.1)) : woven.method? m = program.method? m := by
  induction bodies generalizing program patched with
  | nil =>
    obtain ⟨-, rfl⟩ := Prod.mk.inj h
    rfl
  | cons entry rest ih =>
    obtain ⟨m', body⟩ := entry
    obtain ⟨next, patched', hinstall, hrest, -⟩ := exists_of_installAll_cons h
    rw [List.map_cons, List.mem_cons, not_or] at hm
    rw [ih hrest hm.2, Program.method?_install hinstall, if_neg hm.1]

/-- **A body that is installed is found.** -/
theorem body?_installAll {bodies : List (MethodRef × Body)} {program woven : Program}
    {patched : List MethodRef} (h : installAll bodies program = (.ok patched, woven))
    (hdistinct : (bodies.map (·.1)).Nodup) {m : MethodRef} {body : Body}
    (hmem : (m, body) ∈ bodies) : woven.body? m = some body := by
  induction bodies generalizing program patched with
  | nil => simp at hmem
  | cons entry rest ih =>
    obtain ⟨m', body'⟩ := entry
    obtain ⟨next, patched', hinstall, hrest, -⟩ := exists_of_installAll_cons h
    rw [List.map_cons, List.nodup_cons] at hdistinct
    rcases List.mem_cons.mp hmem with heq | hmem
    · obtain ⟨rfl, rfl⟩ := Prod.mk.inj heq
      -- no later body is one of this method
      have hdeclared := (Program.install_eq_ok_iff.mp hinstall).1
      obtain ⟨d, hd⟩ := Option.isSome_iff_exists.mp hdeclared
      unfold Program.body?
      rw [method?_installAll hrest hdistinct.1, Program.method?_install hinstall, if_pos rfl, hd]
      rfl
    · exact ih hrest hdistinct.2 hmem

/-- A declaration stays as it is, but for a new body if it is one of the given methods. -/
structure MethodDef.Keeps (n : ClassName) (patched : List MethodRef) (d d' : MethodDef) : Prop where
  name_eq : d'.name = d.name
  descriptor_eq : d'.descriptor = d.descriptor
  flags_eq : d'.flags = d.flags
  body_eq : d.ref n ∉ patched → d'.body = d.body

namespace MethodDef.Keeps

variable {n : ClassName} {patched : List MethodRef} {d d' d'' : MethodDef}

theorem refl (n : ClassName) (patched : List MethodRef) (d : MethodDef) : d.Keeps n patched d :=
  ⟨rfl, rfl, rfl, fun _ => rfl⟩

theorem ref_eq (h : d.Keeps n patched d') : d'.ref n = d.ref n := by
  unfold ref
  rw [h.name_eq, h.descriptor_eq, h.flags_eq]

theorem trans (h : d.Keeps n patched d') (h' : d'.Keeps n patched d'') : d.Keeps n patched d'' where
  name_eq := h'.name_eq.trans h.name_eq
  descriptor_eq := h'.descriptor_eq.trans h.descriptor_eq
  flags_eq := h'.flags_eq.trans h.flags_eq
  body_eq hnew := (h'.body_eq (by rwa [h.ref_eq])).trans (h.body_eq hnew)

/-- A declaration that is none of the given methods stays as it is. -/
theorem eq_of_not_mem (h : d.Keeps n patched d') (hnew : d.ref n ∉ patched) : d' = d := by
  obtain ⟨hname, hdescriptor, hflags, hbody⟩ := h
  have hbody := hbody hnew
  cases d
  cases d'
  simp_all

end MethodDef.Keeps

section

variable {n : ClassName} {patched : List MethodRef} {methods methods' : List MethodDef}

/-- A body that is installed for a given method is one of a declaration of it. -/
theorem forall₂_updateFirst (h : List.Forall₂ (MethodDef.Keeps n patched) methods methods')
    {m : MethodRef} (howner : m.owner = n) (hm : m ∈ patched) (body : Body) :
    List.Forall₂ (MethodDef.Keeps n patched) methods
      (updateFirst (·.matches? m) ({ · with body := some body }) methods') := by
  induction h with
  | nil => exact .nil
  | @cons d d' rest rest' hkeeps hrest ih =>
    unfold updateFirst
    split
    · next hmatches =>
      have hd' : d'.ref n = m := by simpa [MethodDef.matches?, howner] using hmatches
      have hnew : d'.Keeps n patched { d' with body := some body } :=
        ⟨rfl, rfl, rfl, fun hnew => absurd (hd' ▸ hm) hnew⟩
      exact .cons (hkeeps.trans hnew) hrest
    · exact .cons hkeeps ih

/-- **Installing bodies keeps declarations.** -/
theorem forall₂_installOn (h : List.Forall₂ (MethodDef.Keeps n patched) methods methods')
    {bodies : List (MethodRef × Body)} (hbodies : ∀ x ∈ bodies, x.1 ∈ patched) :
    List.Forall₂ (MethodDef.Keeps n patched) methods (installOn bodies n methods') := by
  induction bodies generalizing methods' with
  | nil => exact h
  | cons entry rest ih =>
    obtain ⟨m, body⟩ := entry
    rw [List.forall_mem_cons] at hbodies
    show List.Forall₂ _ _ (installOn rest n
      (if m.owner = n then updateFirst (·.matches? m) ({ · with body := some body }) methods'
        else methods'))
    split
    · next howner => exact ih (forall₂_updateFirst h howner hbodies.1 body) hbodies.2
    · exact ih h hbodies.2

/-- **Installing bodies on old methods leaves new ones as they are.** -/
theorem installOn_append {bodies : List (MethodRef × Body)} {new : List MethodDef}
    (hnew : ∀ d ∈ new, d.ref n ∉ bodies.map (·.1)) :
    ∃ kept, installOn bodies n (methods ++ new) = kept ++ new
      ∧ List.Forall₂ (MethodDef.Keeps n (bodies.map (·.1))) methods kept := by
  have hkeeps : List.Forall₂ (MethodDef.Keeps n (bodies.map (·.1))) (methods ++ new)
      (installOn bodies n (methods ++ new)) :=
    forall₂_installOn (List.forall₂_same.mpr fun d _ => .refl n _ d)
      fun x hx => List.mem_map_of_mem hx
  generalize installOn bodies n (methods ++ new) = after at hkeeps
  -- the places of the old methods and those of the new ones are told apart by counting
  have hflip := hkeeps.flip
  have hold := (List.forall₂_take_append _ _ _ hflip).flip
  have hlast := (List.forall₂_drop_append _ _ _ hflip).flip
  -- no body is installed on a new method, so those are unchanged
  have hsame : List.Forall₂ (· = ·) new (after.drop methods.length) :=
    ((List.forall₂_and_left _ _).mpr ⟨hnew, hlast⟩).imp fun d d' h => (h.2.eq_of_not_mem h.1).symm
  rw [List.forall₂_eq_eq_eq] at hsame
  refine ⟨after.take methods.length, ?_, hold⟩
  calc after = after.take methods.length ++ after.drop methods.length :=
        (List.take_append_drop _ _).symm
    _ = after.take methods.length ++ new := by rw [← hsame]

end

/-! ## §3. Copies that are asked for. -/

/-- The copy of a method of a declaration on a class. -/
def Mixin.copyRef (d : Mixin) (owner : ClassName) (m : MethodRef) : MethodRef where
  owner := owner
  name := MemberName.mangled d.name m.name
  descriptor := m.descriptor
  isStatic := m.isStatic

/-- The copies that declarations ask for: declaration by declaration, for each of its target
classes that exist, its methods that are no shadows. -/
def copiesAsked (program : Program) (mixins : List Mixin) : List MethodRef :=
  mixins.flatMap fun d => (targetClasses program d).flatMap fun c => d.copied.map (d.copyRef c)

theorem map_ref_places_infosFrom (program : Program) (first : PatchId) (mixins : List Mixin) :
    ((infosFrom program first mixins).flatMap MixinInfo.places).map (·.ref)
      = copiesAsked program mixins := by
  induction mixins generalizing first with
  | nil => rfl
  | cons d rest ih =>
    rw [infosFrom, List.flatMap_cons, List.map_append, ih]
    unfold copiesAsked
    rw [List.flatMap_cons]
    congr 1
    unfold MixinInfo.places MixinInfo.placesOn
    rw [List.map_flatMap]
    refine List.flatMap_congr fun c _ => ?_
    rw [List.map_map]
    rfl

/-- **The places of the registry are those that the declarations ask for.** -/
theorem map_ref_places (program : Program) (mixins : List Mixin) :
    (scanned program mixins).places.map (·.ref) = copiesAsked program mixins :=
  map_ref_places_infosFrom program 0 mixins

/-- The copies of a table are those for its places. -/
theorem CopyTable.MadeFor.forall₂ {t : CopyTable} {program : Program} {places : List CopyPlace}
    (h : t.MadeFor program places) : List.Forall₂ (CopyPlace.Gets program) places t.copies :=
  (forall₂_of_mapM h).imp fun _ _ => CopyPlace.gets_of_copy

theorem CopyTable.MadeFor.map_ref {t : CopyTable} {program : Program} {places : List CopyPlace}
    (h : t.MadeFor program places) : t.copies.map (·.ref) = places.map (·.ref) := by
  have hrefs : List.Forall₂ (· = ·) (t.copies.map (·.ref)) (places.map (·.ref)) := by
    rw [List.forall₂_map_left_iff, List.forall₂_map_right_iff]
    exact (h.forall₂.imp fun _ _ hgets => hgets.ref_eq).flip
  rwa [List.forall₂_eq_eq_eq] at hrefs

/-! ## §4. Instructions that are patched. -/

theorem exists_placement_of_validateMethod {patch : Patch} {m : MethodRef}
    (h : validateMethod patch m = .ok ()) :
    ∃ placement, patch.kind.placement? = some placement := by
  unfold validateMethod at h
  cases hkind : patch.kind with
  | base =>
    rw [hkind] at h
    contradiction
  | inject _ _ => exact ⟨_, rfl⟩
  | modifyConstant _ => exact ⟨_, rfl⟩
  | redirect => exact ⟨_, rfl⟩
  | modifyValue => exact ⟨_, rfl⟩

/-- **In a selected method some instruction is patched.** -/
theorem Splicer.Weaves.steps_ne_nil {program : Program} {settings : ShiftSettings}
    {mixins : List Mixin} {debugMarkers : Bool} {copies : CopyTable} {selection : Selection}
    (h : selection.Holds ((scanned program mixins).Selected program settings))
    {selected : MethodRef × Offsets} (hmem : selected ∈ selection.methods) {run : SpliceRun}
    {woven : Body}
    (hweaves : Weaves ⟨debugMarkers, scanned program mixins, copies⟩ program selected run woven) :
    run.steps ≠ [] := by
  obtain ⟨m, offsets⟩ := selected
  obtain ⟨body, depths, plans, hbody, hdepths, hplans, rfl, hok⟩ := hweaves
  have hgoes : ∀ o id, offsets.Has o id → ∃ patch,
      (scanned program mixins).patch? id = some patch ∧ o < body.length
        ∧ ∃ placement, patch.kind.placement? = some placement := by
    intro o id hhas
    obtain ⟨patch, -, hfound, -, hgoes⟩ :=
      patch?_of_selected ((h.selects_iff m o id).mp ⟨offsets, hmem, hhas⟩)
    obtain ⟨body', -, hbody', -, hlt, -, hmethod, -⟩ := hgoes.validated
    obtain rfl := Option.some_inj.mp (hbody.symm.trans hbody')
    exact ⟨patch, hfound, hlt, exists_placement_of_validateMethod hmethod⟩
  have hplaced : ∀ x ∈ offsets, ∃ id ∈ x.2, ∃ patch,
      (scanned program mixins).patch? id = some patch
        ∧ ∃ placement, patch.kind.placement? = some placement := by
    intro x hx
    obtain ⟨id, hid⟩ := List.exists_mem_of_ne_nil _ ((h.tidy.tidy _ hmem).inhabited _ hx)
    obtain ⟨patch, hfound, -, hplacement⟩ := hgoes x.1 id ⟨x.2, hx, hid⟩
    exact ⟨id, hid, patch, hfound, hplacement⟩
  -- the plan of some offset of the body is not empty, so a step carries it out
  obtain ⟨x, hx⟩ := List.exists_mem_of_ne_nil _ (h.tidy.inhabited _ hmem)
  obtain ⟨id, hid⟩ := List.exists_mem_of_ne_nil _ ((h.tidy.tidy _ hmem).inhabited _ hx)
  obtain ⟨-, -, hlt, -⟩ := hgoes x.1 id ⟨x.2, hx, hid⟩
  have hplan : (plans.at x.1).isEmpty = false := isEmpty_at_of_resolveMethod hplans hplaced hx
  obtain ⟨before, hbefore, -⟩ := bind_eq_ok_iff.mp hok
  have hsteps := plans_of_steps hbefore
  intro hnil
  have hempty : ((List.range' 0 body.length).map plans.at).filter (!·.isEmpty) = [] := by
    rw [← hsteps]
    exact List.map_eq_nil_iff.mpr hnil
  rw [List.filter_eq_nil_iff] at hempty
  exact hempty (plans.at x.1) (List.mem_map_of_mem (List.mem_range'_1.mpr (by omega)))
    (by simp [hplan])

/-! ## §5. The account of a run. -/

/-- What becomes of a class: copies are appended to its methods, and some of these get new
bodies. -/
structure ClassChange (copies : List MethodCopy) (patched : List MethodRef)
    (x x' : ClassName × ClassDef) : Prop where
  name_eq : x'.1 = x.1
  superclass_eq : x'.2.superclass = x.2.superclass
  fields_eq : x'.2.fields = x.2.fields
  methods_eq : ∃ kept, x'.2.methods = kept ++ declarationsOn copies x.1
    ∧ List.Forall₂ (MethodDef.Keeps x.1 patched) x.2.methods kept

/-- A report accounts for a change from a program to another one. -/
structure Accounts (settings : Settings) (program : Program) (mixins : List Mixin) (t : CopyTable)
    (report : WeaveReport) (after : Program) : Prop where
  /-- Every class stays, but for copies and bodies. -/
  classes : List.Forall₂ (ClassChange t.copies report.patched) program.classes after.classes
  /-- The copies are those that the declarations ask for, in that order. -/
  copies : List.Forall₂ (CopyPlace.Gets program) (scanned program mixins).places t.copies
  asked : t.copies.map (·.ref) = copiesAsked program mixins
  added_eq : report.added = t.copies.map (·.ref)
  /-- Copies are private and synthetic, and static as their source is. -/
  flags : ∀ c ∈ t.copies, c.declaration.flags = .copied c.source.isStatic
  addedOnce : report.added.Nodup
  new : ∀ m ∈ report.added, program.hasMethod m = false
  patchedOnce : report.patched.Nodup
  /-- Every patched method has a body in which some instruction is patched. -/
  spliced : ∀ m ∈ report.patched, ∃ woven offsets run, after.body? m = some woven
    ∧ Splicer.Weaves ⟨settings.debugMarkers, scanned program mixins, t⟩ program (m, offsets) run
      woven
    ∧ run.steps ≠ []

/-- Checked copies and bodies of old methods change classes as a report says. -/
theorem classChanges {program declared woven : Program} {copies : List MethodCopy}
    {bodies : List (MethodRef × Body)} {added patched : List MethodRef}
    (hdeclare : declareAll copies program = (.ok added, declared))
    (hinstall : installAll bodies declared = (.ok patched, woven))
    (hnew : ∀ c ∈ copies, c.ref ∉ bodies.map (·.1)) :
    List.Forall₂ (ClassChange copies (bodies.map (·.1))) program.classes woven.classes := by
  rw [classes_installAll hinstall, classes_declareAll hdeclare, List.map_map,
    List.forall₂_map_right_iff, List.forall₂_same]
  intro x _
  -- what is declared on a class has the names of copies, and no copy is spliced
  have hnew' : ∀ d ∈ declarationsOn copies x.1, d.ref x.1 ∉ bodies.map (·.1) := by
    intro d hd
    obtain ⟨c, hc, rfl⟩ := List.mem_map.mp hd
    obtain ⟨hmem, howner⟩ := List.mem_filter.mp hc
    have howner : c.ref.owner = x.1 := by simpa using howner
    rw [← howner]
    exact hnew c hmem
  exact ⟨rfl, rfl, rfl, installOn_append hnew'⟩

/-- **A successful run changes what it reports, and nothing else.** -/
theorem weave_changes_what_it_reports {w : Weaver} {program : Program} {mixins : List Mixin}
    {report : WeaveReport} (hruns : HasRun w program)
    (h : (w.weave program mixins).outcome = .ok report) :
    ∃ t : CopyTable,
      Accounts w.settings program mixins t report (w.weave program mixins).program := by
  have hgoes := Weaver.goes_weave hruns.accurate mixins
  generalize w.weave program mixins = result at h hgoes
  cases hgoes with
  | failed _ _ => contradiction
  | @succeeded c events declared woven prepared declares installs =>
    obtain rfl := Except.ok.inj h
    obtain ⟨-, hregistry, hcopies, ⟨selection, hholds, hmade⟩, hchecked, hinstallable⟩ := prepared
    rw [hregistry] at hcopies hholds hmade
    obtain ⟨hdeclarable, -⟩ := checkDeclarable_eq_ok_iff.mp hchecked
    have hpatched : (c.bodies.map (·.1)).Nodup := by
      have hselected : c.bodies.map (·.1) = selection.methods.map (·.1) := hmade.map_fst_bodies
      rw [hselected]
      exact hholds.tidy.distinct
    refine ⟨c.copies, ?_, hcopies.forall₂, ?_, rfl, ?_, hdeclarable.distinct, ?_, hpatched, ?_⟩
    · -- bodies are those of methods that were there, and copies are new
      refine classChanges declares installs fun copy hcopy hmem => ?_
      obtain ⟨x, hx, heq⟩ := List.mem_map.mp hmem
      have hold := checkInstallable_eq_ok_iff.mp hinstallable x hx
      rw [heq, hdeclarable.free copy hcopy] at hold
      contradiction
    · rw [← map_ref_places]
      exact hcopies.map_ref
    · intro copy hcopy
      obtain ⟨p, -, hgets⟩ := hcopies.exists_place hcopy
      unfold MethodCopy.declaration Program.declare
      rw [hgets.flags_eq, hgets.ref_eq, hgets.source_eq]
      rfl
    · intro m hm
      obtain ⟨copy, hcopy, rfl⟩ := List.mem_map.mp hm
      exact hdeclarable.free copy hcopy
    · intro m hm
      obtain ⟨⟨m, body⟩, hmem, rfl⟩ := List.mem_map.mp hm
      obtain ⟨offsets, run, hselected, hweaves⟩ := hmade.exists_of_mem hmem
      exact ⟨body, offsets, run, body?_installAll installs hpatched hmem, hweaves,
        hweaves.steps_ne_nil hholds hselected⟩

/-! ### A method that is hooked on two classes. -/

namespace Pair

/-- The method of the mixin. -/
def hook : MethodDef :=
  { Twins.run with name := Twins.onBoth.name, descriptor := Twins.onBoth.descriptor }

/-- Two targets and the class of the mixin. -/
def program : Program :=
  ⟨[(Twins.a, { superclass := none, methods := [Twins.run] }),
    (Twins.b, { superclass := none, methods := [Twins.run] }),
    (Twins.mixin, { superclass := none, methods := [hook] })],
    by unfold ClassTable.Ordered; decide⟩

/-- One mixin, for both targets. -/
def mixins : List Mixin := [Twins.second]

/-- The first run of a weaver. -/
def result : WeaveResult := (Weaver.new {}).weave program mixins

/-- It copies the method of the mixin onto each target class, and patches the target on each. -/
theorem reports_result :
    result.outcome.toOption.map (fun report => (report.patched, report.added))
      = some ([Twins.run.ref Twins.a, Twins.run.ref Twins.b],
          [Twins.second.copyRef Twins.a (hook.ref Twins.mixin),
            Twins.second.copyRef Twins.b (hook.ref Twins.mixin)]) := by
  decide +kernel

end Pair

/-- The run that hooks a method on two classes. -/
theorem weave_changes_what_it_reports_pair :
    ∃ report, Pair.result.outcome = .ok report ∧ report.patched.length = 2 ∧ report.added.length = 2
      ∧ ∃ t : CopyTable, Accounts {} Pair.program Pair.mixins t report Pair.result.program := by
  have hreports := Pair.reports_result
  cases houtcome : Pair.result.outcome with
  | error e => simp [houtcome, Except.toOption] at hreports
  | ok report =>
    obtain ⟨hpatched, hadded⟩ : report.patched = _ ∧ report.added = _ := by
      simpa [houtcome, Except.toOption] using hreports
    refine ⟨report, rfl, by rw [hpatched]; rfl, by rw [hadded]; rfl, ?_⟩
    exact weave_changes_what_it_reports (.new {} Pair.program) houtcome

end PatchWeaver

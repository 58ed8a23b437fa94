/-
  PatchWeaver.Proofs.Commit
  ─────────────────────────
  **A RUN CHANGES ALL OF IT OR NOTHING.**

  A run makes its changes one after the other, each on a program that those
  before it have changed: first the copies are declared, then the bodies are
  installed.  Each of these changes can fail.  The checks that a run makes
  look at the program before the first change:

      copies.check           every copy has a class, and a place that neither
                             the program nor a copy before it takes
      checkInstallable       every body belongs to a declared method

  They decide the later changes all the same, since declaring a method takes
  no class and no method away, and takes no place but its own
  (`hasMethod_addMethod`), and installing a body changes no place at all
  (`hasMethod_install`).

  Main results:
    * `declareAll_of_declarable` — checked copies are all declared.
    * `installAll_of_declared` — bodies of declared methods are all installed.
    * `comesFrom_of_prepare` — the phases that prepared changes have gone through.
    * `Weaver.weave_of_prepare` — a run fails with what preparing it has failed
      with, or it makes the changes that were prepared.
    * `weave_all_or_nothing` — a run that fails leaves the program as it was.
-/
import PatchWeaver.Proofs.Members
import PatchWeaver.Proofs.Outcome
import PatchWeaver.Weave.Weaver

namespace PatchWeaver

/-! ## §1. Declaring copies. -/

/-- Copies that a program has classes and places for. -/
structure Declarable (program : Program) (copies : List MethodCopy) : Prop where
  hasClass : ∀ c ∈ copies, program.hasClass c.ref.owner = true
  free : ∀ c ∈ copies, program.hasMethod c.ref = false
  /-- No two copies take the same place. -/
  distinct : (copies.map (·.ref)).Nodup

/-- The check lets copies through exactly if they can be declared beside those before them. -/
theorem checkDeclarable_eq_ok_iff {program : Program} {copies : List MethodCopy}
    {taken : List MethodRef} :
    checkDeclarable program copies taken = .ok () ↔
      Declarable program copies ∧ ∀ c ∈ copies, c.ref ∉ taken := by
  induction copies generalizing taken with
  | nil =>
    refine ⟨fun _ => ⟨⟨by simp, by simp, by simp⟩, by simp⟩, fun _ => rfl⟩
  | cons copy rest ih =>
    unfold checkDeclarable
    constructor
    · intro h
      split at h
      · contradiction
      · next hclass =>
        split at h
        · contradiction
        · next hplace =>
          obtain ⟨hrest, htaken⟩ := ih.mp h
          obtain ⟨hfree, hnew⟩ := not_or.mp hplace
          refine ⟨⟨?_, ?_, ?_⟩, ?_⟩
          · rw [List.forall_mem_cons]
            exact ⟨by simpa using hclass, hrest.hasClass⟩
          · rw [List.forall_mem_cons]
            exact ⟨by simpa using hfree, hrest.free⟩
          · rw [List.map_cons, List.nodup_cons]
            -- the rest was checked with the place of this copy among those taken
            refine ⟨fun hmem => ?_, hrest.distinct⟩
            obtain ⟨c, hc, heq⟩ := List.mem_map.mp hmem
            exact htaken c hc (heq ▸ List.mem_cons_self)
          · rw [List.forall_mem_cons]
            exact ⟨hnew, fun c hc hmem => htaken c hc (List.mem_cons_of_mem _ hmem)⟩
    · rintro ⟨hdecl, htaken⟩
      rw [List.forall_mem_cons] at htaken
      have hclass := hdecl.hasClass copy List.mem_cons_self
      have hfree := hdecl.free copy List.mem_cons_self
      have hdistinct := List.nodup_cons.mp hdecl.distinct
      have hrest : Declarable program rest :=
        ⟨fun c hc => hdecl.hasClass c (List.mem_cons_of_mem _ hc),
          fun c hc => hdecl.free c (List.mem_cons_of_mem _ hc), hdistinct.2⟩
      rw [if_neg (by simp [hclass]), if_neg (by simp [hfree, htaken.1])]
      refine ih.mpr ⟨hrest, fun c hc hmem => ?_⟩
      rcases List.mem_cons.mp hmem with heq | hmem
      · exact hdistinct.1 (List.mem_map.mpr ⟨c, hc, heq⟩)
      · exact htaken.2 c hc hmem

/-- Declaring one copy leaves the classes and places of the copies behind it. -/
theorem Declarable.addMethod {program next : Program} {copy : MethodCopy}
    {rest : List MethodCopy} {body : Option Body} (h : Declarable program (copy :: rest))
    (hadd : program.addMethod copy.ref copy.flags body = .ok next) : Declarable next rest where
  hasClass c hc := by
    rw [Program.hasClass_addMethod hadd]
    exact h.hasClass c (List.mem_cons_of_mem _ hc)
  free c hc := by
    have hne : c.ref ≠ copy.ref := fun heq =>
      (List.nodup_cons.mp h.distinct).1 (List.mem_map.mpr ⟨c, hc, heq⟩)
    rw [Program.hasMethod_addMethod hadd, h.free c (List.mem_cons_of_mem _ hc)]
    simpa using hne
  distinct := (List.nodup_cons.mp h.distinct).2

/-- **Checked copies are all declared**, and no method is lost. -/
theorem declareAll_of_declarable {program : Program} {copies : List MethodCopy}
    (h : Declarable program copies) :
    ∃ declared, declareAll copies program = (.ok (copies.map (·.ref)), declared)
      ∧ ∀ m, program.hasMethod m = true → declared.hasMethod m = true := by
  induction copies generalizing program with
  | nil => exact ⟨program, rfl, fun _ hm => hm⟩
  | cons copy rest ih =>
    obtain ⟨next, hadd⟩ : ∃ next,
        program.addMethod copy.ref copy.flags (some copy.body) = .ok next :=
      ⟨_, Program.addMethod_eq_ok_iff.mpr
        ⟨h.free copy List.mem_cons_self, h.hasClass copy List.mem_cons_self, rfl⟩⟩
    obtain ⟨declared, hrest, hkeeps⟩ := ih (h.addMethod hadd)
    refine ⟨declared, ?_, fun m hm => hkeeps m ?_⟩
    · unfold declareAll
      simp [hadd, hrest, Except.map]
    · rw [Program.hasMethod_addMethod hadd, hm, Bool.or_true]

/-! ## §2. Installing bodies. -/

theorem checkInstallable_eq_ok_iff {program : Program} {bodies : List (MethodRef × Body)} :
    checkInstallable program bodies = .ok () ↔ ∀ x ∈ bodies, program.hasMethod x.1 = true := by
  unfold checkInstallable
  cases h : bodies.find? (!program.hasMethod ·.1) with
  | none => simpa using h
  | some x =>
    have hmem := List.mem_of_find?_eq_some h
    have hmissing := List.find?_some h
    simp only [reduceCtorEq, false_iff]
    intro hall
    simp [hall x hmem] at hmissing

/-- **Bodies of declared methods are all installed.** -/
theorem installAll_of_declared {program : Program} {bodies : List (MethodRef × Body)}
    (h : ∀ x ∈ bodies, program.hasMethod x.1 = true) :
    ∃ woven, installAll bodies program = (.ok (bodies.map (·.1)), woven) := by
  induction bodies generalizing program with
  | nil => exact ⟨program, rfl⟩
  | cons x rest ih =>
    obtain ⟨m, body⟩ := x
    rw [List.forall_mem_cons] at h
    obtain ⟨next, hinstall⟩ : ∃ next, program.install m body = .ok next :=
      ⟨_, Program.install_eq_ok_iff.mpr ⟨h.1, rfl⟩⟩
    -- installing a body changes no place, so the rest can still be installed
    have hrest : ∀ x ∈ rest, next.hasMethod x.1 = true := fun x hx => by
      rw [Program.hasMethod_install hinstall]
      exact h.2 x hx
    obtain ⟨woven, hwoven⟩ := ih hrest
    refine ⟨woven, ?_⟩
    unfold installAll
    simp [hinstall, hwoven, Except.map]

/-! ## §3. Runs. -/

/-- Checked changes go through. -/
theorem changes_go_through {program : Program} {copies : CopyTable}
    {bodies : List (MethodRef × Body)} (hcopies : copies.check program = .ok ())
    (hbodies : checkInstallable program bodies = .ok ()) :
    ∃ declared woven,
      copies.declare program = (.ok (copies.copies.map (·.ref)), declared)
        ∧ installAll bodies declared = (.ok (bodies.map (·.1)), woven) := by
  obtain ⟨hdeclarable, -⟩ := checkDeclarable_eq_ok_iff.mp hcopies
  obtain ⟨declared, hdeclare, hkeeps⟩ := declareAll_of_declarable hdeclarable
  have hdeclared : ∀ x ∈ bodies, declared.hasMethod x.1 = true := fun x hx =>
    hkeeps x.1 (checkInstallable_eq_ok_iff.mp hbodies x hx)
  obtain ⟨woven, hinstall⟩ := installAll_of_declared hdeclared
  exact ⟨declared, woven, hdeclare, hinstall⟩

/-- The phases that changes have gone through, each with what came of it. -/
structure Changes.ComesFrom (c : Changes) (settings : Settings) (program : Program)
    (mixins : List Mixin) : Prop where
  scan : (Registry.scan program mixins).outcome = .ok c.registry
  build : (CopyTable.build program c.registry).outcome = .ok c.copies
  /-- The phases that analyse bodies do so with the depths that they find. -/
  splice : ∃ selection before between,
    (selectAll program settings.shifts c.registry).outcome before = .ok selection
      ∧ (selection.methods.foldlM
          (spliceMethod program ⟨settings.debugMarkers, c.registry, c.copies⟩)
          ⟨[], List.replicate c.registry.patches.length 0⟩).outcome between
        = .ok ⟨c.bodies, c.counts⟩
  checked : c.copies.check program = .ok ()
  installable : checkInstallable program c.bodies = .ok ()

/-- **Changes that a run prepares have gone through its phases**, whatever depths it starts with. -/
theorem comesFrom_of_prepare {settings : Settings} {program : Program} {mixins : List Mixin}
    {cache : DepthCache} {c : Changes}
    (h : (prepare settings program mixins).outcome cache = .ok c) :
    c.ComesFrom settings program mixins := by
  unfold prepare at h
  -- one step after the other has succeeded
  obtain ⟨registry, hscan, h⟩ := Analysing.exists_of_bind_ok h
  obtain ⟨_, -, h⟩ := Analysing.exists_of_bind_ok h
  obtain ⟨selection, hselect, h⟩ := Analysing.exists_of_bind_ok h
  obtain ⟨_, -, h⟩ := Analysing.exists_of_bind_ok h
  obtain ⟨copies, hbuild, h⟩ := Analysing.exists_of_bind_ok h
  obtain ⟨made, hmade, h⟩ := Analysing.exists_of_bind_ok h
  obtain ⟨_, hcopies, h⟩ := Analysing.exists_of_bind_ok h
  obtain ⟨_, hbodies, h⟩ := Analysing.exists_of_bind_ok h
  obtain ⟨_, -, h⟩ := Analysing.exists_of_bind_ok h
  obtain rfl : (⟨registry, copies, made.bodies, made.counts⟩ : Changes) = c := Except.ok.inj h
  exact ⟨hscan, hbuild, ⟨selection, _, _, hselect, hmade⟩, hcopies, hbodies⟩

section

variable {w : Weaver} {program : Program} {mixins : List Mixin} {events : List Event}
  {cache : DepthCache}

/-- A run fails with what preparing it has failed with. -/
theorem Weaver.weave_eq_failed {e : WeaveError}
    (h : (prepare w.settings program mixins).run w.cache = (⟨.error e, events⟩, cache)) :
    w.weave program mixins = w.failed e events cache program := by
  unfold weave
  rw [h]

/-- A run makes the changes that it has prepared. -/
theorem Weaver.weave_eq_succeeded {c : Changes} {declared woven : Program}
    (h : (prepare w.settings program mixins).run w.cache = (⟨.ok c, events⟩, cache))
    (hdeclare : c.copies.declare program = (.ok (c.copies.copies.map (·.ref)), declared))
    (hinstall : installAll c.bodies declared = (.ok (c.bodies.map (·.1)), woven)) :
    w.weave program mixins
      = w.succeeded c ⟨c.bodies.map (·.1), c.copies.copies.map (·.ref)⟩
          (events ++ closing c ⟨c.bodies.map (·.1), c.copies.copies.map (·.ref)⟩) woven := by
  unfold weave
  rw [h]
  simp only [Changes.apply, hdeclare, hinstall, Except.map]

/-- **A run goes as preparing it does**: it fails with what that has failed with, or it makes the
changes that were prepared. -/
theorem Weaver.weave_of_prepare (w : Weaver) (program : Program) (mixins : List Mixin) :
    (∃ e, (prepare w.settings program mixins).outcome w.cache = .error e
        ∧ w.weave program mixins
          = w.failed e ((prepare w.settings program mixins).run w.cache).1.events
              ((prepare w.settings program mixins).run w.cache).2 program)
      ∨ ∃ (c : Changes) (declared woven : Program),
        (prepare w.settings program mixins).outcome w.cache = .ok c
        ∧ c.ComesFrom w.settings program mixins
        ∧ c.copies.declare program = (.ok (c.copies.copies.map (·.ref)), declared)
        ∧ installAll c.bodies declared = (.ok (c.bodies.map (·.1)), woven)
        ∧ w.weave program mixins = w.succeeded c ⟨c.bodies.map (·.1), c.copies.copies.map (·.ref)⟩
            (((prepare w.settings program mixins).run w.cache).1.events
              ++ closing c ⟨c.bodies.map (·.1), c.copies.copies.map (·.ref)⟩) woven := by
  have hfrom : ∀ c, (prepare w.settings program mixins).outcome w.cache = .ok c →
      c.ComesFrom w.settings program mixins := fun c => comesFrom_of_prepare
  unfold Analysing.outcome at hfrom ⊢
  generalize hrun : (prepare w.settings program mixins).run w.cache = prepared at hfrom ⊢
  obtain ⟨⟨outcome, events⟩, cache⟩ := prepared
  cases outcome with
  | error e => exact .inl ⟨e, rfl, weave_eq_failed hrun⟩
  | ok c =>
    -- checked changes go through
    have hchanges := hfrom c rfl
    obtain ⟨declared, woven, hdeclare, hinstall⟩ :=
      changes_go_through hchanges.checked hchanges.installable
    exact .inr ⟨c, declared, woven, rfl, hchanges, hdeclare, hinstall,
      weave_eq_succeeded hrun hdeclare hinstall⟩

end

/-- A run that fails leaves the program as it was. -/
theorem program_of_weave_error {w : Weaver} {program : Program} {mixins : List Mixin}
    {e : WeaveError} (h : (w.weave program mixins).outcome = .error e) :
    (w.weave program mixins).program = program := by
  rcases w.weave_of_prepare program mixins with ⟨e', -, hweave⟩ | ⟨c, declared, woven, -, -, -, -,
    hweave⟩
  · rw [hweave]
    rfl
  · rw [hweave] at h
    contradiction

/-- **A run changes all of it or nothing**: a run that fails leaves the program as it was, and
once the checks have passed, no copy fails to be declared and no body to be installed. -/
theorem weave_all_or_nothing (w : Weaver) (program : Program) (mixins : List Mixin) :
    (∀ e, (w.weave program mixins).outcome = .error e →
        (w.weave program mixins).program = program)
      ∧ ∀ (copies : CopyTable) (bodies : List (MethodRef × Body)),
        copies.check program = .ok () → checkInstallable program bodies = .ok () →
          ∃ declared woven,
            copies.declare program = (.ok (copies.copies.map (·.ref)), declared)
              ∧ installAll bodies declared = (.ok (bodies.map (·.1)), woven) := by
  exact ⟨fun e h => program_of_weave_error h, fun copies bodies => changes_go_through⟩

end PatchWeaver

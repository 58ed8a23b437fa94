/-
  PatchWeaver.Proofs.Registration
  ───────────────────────────────
  **WHICH DECLARATIONS ARE TAKEN, AND WHAT IS RECORDED OF THEM.**

  Declarations are taken if nothing is wrong with any of them, and otherwise
  refused for what is wrong with the first one.  What can be wrong with one
  (`Mixin.Fault`) does not depend on the others, nor on the order in which
  the checks are made.

  Taken declarations fill a registry, in their order.  Patches are numbered
  across all of them, so that a number is a place in the registry:

      d₀                      d₁              d₂
      enabled  a  b  c        enabled  d      enabled  e  f
      patches  0  1  2        patches  3      patches  4  5

  Main results:
    * `Mixin.acceptable_iff` — a declaration makes sense if nothing is wrong
      with it.
    * `forall₂_infosFrom` — every declaration has its record.
    * `scan_takes_flawless_declarations` — which declarations are taken, and
      the registry of those that are.
-/
import Mathlib.Data.List.Forall2
import PatchWeaver.Proofs.Targets

namespace PatchWeaver

/-! ## §1. What can be wrong. -/

namespace MixinMethod

variable {m : MixinMethod} {i : Injector}

/-- The injector that makes a patch of a method is one of a method that is not a shadow, and is not
disabled. -/
theorem of_active? (h : m.active? = some i) :
    m.shadow = false ∧ i ∈ m.injectors ∧ i.disabled = false := by
  unfold active? at h
  split at h
  · contradiction
  · next hshadow =>
    obtain ⟨hhead, henabled⟩ := Option.filter_eq_some_iff.mp h
    exact ⟨by simpa using hshadow, List.mem_of_head? hhead, by simpa using henabled⟩

/-- **A method makes sense if nothing is wrong with it.** -/
theorem acceptable_iff (mixin : ClassName) : m.Acceptable ↔ ∀ e, ¬ m.Fault mixin e := by
  constructor
  · intro h e hfault
    -- a method that makes sense makes a patch of each injector that is not disabled
    have hactive : ∀ i ∈ m.injectors, i.disabled = false → m.active? = some i := by
      intro i hi henabled
      rw [← Option.mem_toList, h.toList_active?, List.mem_filter]
      exact ⟨hi, by simp [henabled]⟩
    cases hfault with
    | multipleInjectors hlength => exact absurd h.single (by omega)
    | shadowInjector hshadow hinjectors => exact hinjectors (h.notBoth hshadow)
    | abstractInjector _ hi hkind => exact h.concrete _ hi hkind
    | abstractSelector hi henabled hs hkind =>
      exact (h.located _ (hactive _ hi henabled)).1 _ hs hkind
    | noTargets hi henabled htargets => exact (h.located _ (hactive _ hi henabled)).2 htargets
  · intro h
    have hboth : m.shadow = true → m.injectors = [] := fun hshadow => by
      by_contra hinjectors
      exact h _ (.shadowInjector hshadow hinjectors)
    refine ⟨?_, hboth, fun i hi hkind => ?_, fun i hi => ⟨fun s hs hkind => ?_, fun htargets => ?_⟩⟩
    · by_contra hlength
      exact h _ (.multipleInjectors (by omega))
    · cases hshadow : m.shadow with
      | true => simp [hboth hshadow] at hi
      | false => exact h _ (.abstractInjector hshadow hi hkind)
    · obtain ⟨-, hmem, henabled⟩ := of_active? hi
      exact h _ (.abstractSelector hmem henabled hs hkind)
    · obtain ⟨-, hmem, henabled⟩ := of_active? hi
      exact h _ (.noTargets hmem henabled htargets)

end MixinMethod

/-- **A declaration makes sense if nothing is wrong with it.** -/
theorem Mixin.acceptable_iff {d : Mixin} {program : Program} :
    d.Acceptable program ↔ ∀ e, ¬ d.Fault program e := by
  constructor
  · intro h e hfault
    cases hfault with
    | method hm hfault => exact (MixinMethod.acceptable_iff d.name).mp (h.methods _ hm) e hfault
    | noTargetClasses henabled htargets =>
      rw [enabled_eq_injections h.methods] at henabled
      exact h.targets henabled (targetClasses_eq_nil_iff.mpr htargets)
  · intro h
    have hmethods : ∀ m ∈ d.methods, m.Acceptable := fun m hm =>
      (MixinMethod.acceptable_iff d.name).mpr fun e hfault => h e (.method hm hfault)
    refine ⟨hmethods, fun hinjections htargets => ?_⟩
    rw [← enabled_eq_injections hmethods] at hinjections
    exact h _ (.noTargetClasses hinjections (targetClasses_eq_nil_iff.mp htargets))

/-! ## §2. Target classes. -/

/-- The classes of a program among some targets, in the order in which the targets first name them;
in particular, each once. -/
structure ListsClasses (program : Program) (targets classes : List ClassName) : Prop where
  mem_iff : ∀ c, c ∈ classes ↔ c ∈ targets ∧ program.hasClass c = true
  ordered : classes.Pairwise fun a b => targets.idxOf a < targets.idxOf b

theorem listsClasses_targetClasses (program : Program) (d : Mixin) :
    ListsClasses program d.targets (targetClasses program d) := by
  refine ⟨fun c => mem_targetClasses, (pairwise_idxOf_eraseDups _).imp_of_mem fun ha hb h => ?_⟩
  exact idxOf_lt_of_filter (mem_targetClasses.mp ha).2 (mem_targetClasses.mp hb).2 h

/-! ## §3. Records. -/

/-- A patch is what a method of a declaration with an injector becomes. -/
structure Patch.StandsFor (p : Patch) (d : Mixin) (m : MixinMethod) (i : Injector) : Prop where
  mixin_eq : p.mixin = d.name
  body_eq : p.body = m.ref d.name
  injector_eq : p.injector = i
  priority_eq : p.priority = i.priority.getD d.priority
  selectors_eq : p.selectors = m.selectors
  targets_eq : p.targets = m.targets

/-- What a registry has to say of a declaration. -/
structure MixinInfo.Records (info : MixinInfo) (d : Mixin) (program : Program) (r : Registry) :
    Prop where
  name_eq : info.name = d.name
  classes : ListsClasses program d.targets info.targetClasses
  /-- Every method is recorded once, as a shadow or for copying. -/
  shadowMethods_eq : info.shadowMethods = (d.methods.filter (·.shadow)).map (·.ref d.name)
  copied_eq : info.copied = (d.methods.filter (!·.shadow)).map (·.ref d.name)
  shadowFields_eq : info.shadowFields = d.shadowFields.map (·.ref d.name)
  /-- Every injector that is not disabled has its patch, whose body is one of the copied methods. -/
  patches : List.Forall₂ (fun x id => ∃ p, r.patch? id = some p ∧ p.StandsFor d x.1 x.2
    ∧ p.body ∈ info.copied) d.enabled info.patches

/-- What a registry has to be like. -/
structure Registry.Records (r : Registry) (program : Program) (mixins : List Mixin) : Prop where
  /-- A patch is numbered by its place. -/
  id_eq : ∀ id p, r.patch? id = some p → p.id = id
  /-- Every patch is listed once, and in order. -/
  listed : r.mixins.flatMap (·.patches) = List.range r.patches.length
  mixins : List.Forall₂ (fun d info => info.Records d program r) mixins r.mixins

/-- A declaration has its record, wherever its patches are put. -/
theorem records_info {d : Mixin} {program : Program} {r : Registry} {first : PatchId}
    (hmethods : ∀ m ∈ d.methods, m.Acceptable)
    (hplaces : ∀ k < d.injections.length, r.patch? (first + k) = (d.patches first)[k]?) :
    (d.info program first).Records d program r := by
  refine ⟨rfl, listsClasses_targetClasses program d, ?_, ?_, rfl, ?_⟩
  · simp [Mixin.info, Mixin.refsOf]
  · simp [Mixin.info, Mixin.copied, Mixin.refsOf]
  · rw [Mixin.enabled_eq_injections hmethods]
    refine List.forall₂_iff_get.mpr ⟨by simp [Mixin.info], fun k hk _ => ?_⟩
    have hplace : (d.info program first).patches.get ⟨k, by simpa [Mixin.info] using hk⟩
        = first + k := by
      simp [Mixin.info]
    have hpatch : (d.patches first)[k]?
        = some (d.patch (first + k) d.injections[k].1 d.injections[k].2) := by
      unfold Mixin.patches Mixin.patchesOf
      rw [List.getElem?_mapIdx, List.getElem?_eq_getElem hk]
      rfl
    rw [hplace]
    refine ⟨_, (hplaces k hk).trans hpatch, ⟨rfl, rfl, rfl, rfl, rfl, rfl⟩, ?_⟩
    exact (Mixin.exists_of_mem_patches (List.mem_of_getElem? hpatch)).2.1

/-- **Every declaration has its record**, in any registry that has the patches in their places. -/
theorem forall₂_infosFrom {program : Program} {r : Registry} {mixins : List Mixin} {first : PatchId}
    (hmethods : ∀ d ∈ mixins, ∀ m ∈ d.methods, m.Acceptable)
    (hplaces : ∀ k, r.patch? (first + k) = (patchesFrom first mixins)[k]?) :
    List.Forall₂ (fun d info => info.Records d program r) mixins
      (infosFrom program first mixins) := by
  induction mixins generalizing first with
  | nil => exact .nil
  | cons d rest ih =>
    refine .cons (records_info (hmethods d List.mem_cons_self) fun k hk => ?_)
      (ih (fun d' hd' => hmethods d' (List.mem_cons_of_mem d hd')) fun k => ?_)
    · rw [hplaces, patchesFrom, List.getElem?_append_left (by simpa using hk)]
    · -- the patches of the others are behind those of the first one
      rw [Nat.add_assoc, hplaces, patchesFrom, List.getElem?_append_right (by simp)]
      simp

/-- The numbers of patches go on from one declaration to the next. -/
theorem flatMap_patches_infosFrom (program : Program) (first : PatchId) (mixins : List Mixin) :
    (infosFrom program first mixins).flatMap (·.patches)
      = List.range' first (patchesFrom first mixins).length := by
  induction mixins generalizing first with
  | nil => rfl
  | cons d rest ih =>
    rw [infosFrom, List.flatMap_cons, ih, patchesFrom, List.length_append, Mixin.length_patches]
    exact List.range'_append_1

/-- **The registry of declarations says what they say.** -/
theorem records_scanned {program : Program} {mixins : List Mixin}
    (h : ∀ d ∈ mixins, d.Acceptable program) :
    (scanned program mixins).Records program mixins := by
  refine ⟨fun id p => id_eq_of_patch?, ?_, ?_⟩
  · exact (flatMap_patches_infosFrom program 0 mixins).trans (List.range_eq_range').symm
  · refine forall₂_infosFrom (fun d hd => (h d hd).methods) fun k => ?_
    rw [Nat.zero_add]
    rfl

/-! ## §4. Scans. -/

/-- **A scan takes declarations exactly if nothing is wrong with them.** It says otherwise what is
wrong with the first one that has something wrong with it, and it records the declarations that it
takes. -/
theorem scan_takes_flawless_declarations (program : Program) (mixins : List Mixin) :
    ((∃ e, (Registry.scan program mixins).outcome = .error e)
        ↔ ∃ d ∈ mixins, ∃ e, d.Fault program e)
      ∧ (∀ e, (Registry.scan program mixins).outcome = .error e →
          ∃ done d rest, mixins = done ++ d :: rest ∧ (∀ d' ∈ done, ∀ e', ¬ d'.Fault program e')
            ∧ d.Fault program e)
      ∧ ∀ r, (Registry.scan program mixins).outcome = .ok r → r.Records program mixins := by
  refine ⟨⟨?_, ?_⟩, fun e he => ?_, fun r hr => ?_⟩
  · rintro ⟨e, he⟩
    obtain ⟨done, d, rest, rfl, -, hfault⟩ := firstFault_of_scan he
    exact ⟨d, by simp, e, hfault⟩
  · rintro ⟨d, hd, e, hfault⟩
    cases hscan : (Registry.scan program mixins).outcome with
    | error e' => exact ⟨e', rfl⟩
    | ok r => exact absurd hfault (Mixin.acceptable_iff.mp ((scan_eq_ok_iff.mp hscan).1 d hd) e)
  · obtain ⟨done, d, rest, heq, hdone, hfault⟩ := firstFault_of_scan he
    exact ⟨done, d, rest, heq, fun d' hd' => Mixin.acceptable_iff.mp (hdone d' hd'), hfault⟩
  · obtain ⟨hacceptable, rfl⟩ := scan_eq_ok_iff.mp hr
    exact records_scanned hacceptable

end PatchWeaver

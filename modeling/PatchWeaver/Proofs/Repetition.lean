/-
  PatchWeaver.Proofs.Repetition
  ─────────────────────────────
  **DECLARATIONS THAT LIST A METHOD TWICE.**

  A scan looks at the entries of a declaration one by one, and an entry has
  at most one injector.  Two entries may be about one method:

      entries     on ↦ i₀     on ↦ i₁
      patches     0: on       1: on
      copies      mixin$p$on  mixin$p$on

  Such a declaration is scanned, and its copies are made, because places are
  compared with those of other declarations and classes only.  The copies
  cannot be declared, and the check finds that out in the end.  It finds
  nothing else: copies for different declarations, or for different classes,
  never share a place once they are made.

  Main results:
    * `MixinInfo.oneEach_iff` — when a method has one patch at most.
    * `spread_of_build` — copies that are made are apart.
    * `each_method_once` — declarations, registries and copies without
      repetition.
    * `repetition_is_scanned` — a declaration that lists a method twice.
-/
import PatchWeaver.Proofs.Declaring
import PatchWeaver.Proofs.Registration

namespace PatchWeaver

/-! ## §1. Patches of one declaration. -/

/-- The entries of a declaration that are no shadows are about different methods. -/
def Mixin.Distinct (d : Mixin) : Prop :=
  ((d.methods.filter (!·.shadow)).map (·.ref d.name)).Nodup

/-- No two patches of a declaration have the same body. -/
def MixinInfo.OneEach (info : MixinInfo) (r : Registry) : Prop :=
  ∀ id ∈ info.patches, ∀ id' ∈ info.patches, ∀ p p', r.patch? id = some p → r.patch? id' = some p' →
    p.body = p'.body → id = id'

/-- The methods that become patches are among those that are copied, in their order. -/
theorem sublist_injectionsOf (d : Mixin) (methods : List MixinMethod) :
    ((injectionsOf methods).map (·.1.ref d.name)).Sublist
      ((methods.filter (!·.shadow)).map (·.ref d.name)) := by
  induction methods with
  | nil => exact .slnil
  | cons m rest ih =>
    unfold injectionsOf at ih ⊢
    cases hactive : m.active? with
    | none =>
      rw [List.filterMap_cons_none (by simp [hactive])]
      exact ih.trans (((List.sublist_cons_self m rest).filter _).map _)
    | some i =>
      have hshadow := (MixinMethod.of_active? hactive).1
      rw [List.filterMap_cons_some (by rw [hactive]; rfl),
        List.filter_cons_of_pos (by simp [hshadow])]
      exact ih.cons_cons _

namespace MixinInfo.Records

variable {info : MixinInfo} {d : Mixin} {program : Program} {r : Registry}

/-- The bodies of patches are the methods with an injector that is not disabled. -/
theorem map_body (h : info.Records d program r) :
    info.patches.map (fun id => (r.patch? id).map (·.body))
      = d.enabled.map fun x => some (x.1.ref d.name) := by
  have hbodies : List.Forall₂ (fun x id => some (x.1.ref d.name) = (r.patch? id).map (·.body))
      d.enabled info.patches := by
    refine h.patches.imp fun x id ⟨p, hp, hstands, _⟩ => ?_
    rw [hp, Option.map_some, hstands.body_eq]
  have hmaps : List.Forall₂ (· = ·) (d.enabled.map fun x => some (x.1.ref d.name))
      (info.patches.map fun id => (r.patch? id).map (·.body)) := by
    rwa [List.forall₂_map_left_iff, List.forall₂_map_right_iff]
  rw [List.forall₂_eq_eq_eq] at hmaps
  exact hmaps.symm

/-- **A method has one patch at most exactly if one entry at most gives it one.** -/
theorem oneEach_iff (h : info.Records d program r) (hnodup : info.patches.Nodup) :
    info.OneEach r ↔ (d.enabled.map (·.1.ref d.name)).Nodup := by
  have hsome : (d.enabled.map fun x => some (x.1.ref d.name))
      = (d.enabled.map (·.1.ref d.name)).map some := by simp
  rw [← List.nodup_map_iff (Option.some_injective _), ← hsome, ← h.map_body,
    List.nodup_map_iff_inj_on hnodup]
  -- every number that is listed is that of a patch
  have hfound : ∀ id ∈ info.patches, ∃ p, r.patch? id = some p := by
    intro id hid
    have hmem := List.mem_map_of_mem (f := fun id => (r.patch? id).map (·.body)) hid
    rw [h.map_body] at hmem
    obtain ⟨x, -, hx⟩ := List.mem_map.mp hmem
    obtain ⟨p, hp, -⟩ := Option.map_eq_some_iff.mp hx.symm
    exact ⟨p, hp⟩
  constructor
  · intro hone id hid id' hid' heq
    obtain ⟨p, hp⟩ := hfound id hid
    obtain ⟨p', hp'⟩ := hfound id' hid'
    refine hone id hid id' hid' p p' hp hp' ?_
    simpa [hp, hp'] using heq
  · intro hinj id hid id' hid' p p' hp hp' heq
    exact hinj id hid id' hid' (by simp [hp, hp', heq])

end MixinInfo.Records

/-! ## §2. Copies of one declaration on one class. -/

/-- Mangling keeps the names of methods of one class apart. -/
theorem MemberName.mangled_injective (mixin : ClassName) :
    Function.Injective (MemberName.mangled mixin) := by
  intro a b h
  have htext := congrArg (fun n => n.text.toList) h
  simp only [mangled, String.toList_append] at htext
  have heq : a.text = b.text := String.toList_inj.mp (List.append_cancel_left htext)
  cases a
  cases b
  simpa using heq

namespace MixinInfo

variable {info : MixinInfo} {owner : ClassName}

/-- Copies for methods of one class are methods of their own. -/
theorem copyRef_inj {m m' : MethodRef} (howner : m.owner = m'.owner)
    (h : info.copyRef owner m = info.copyRef owner m') : m = m' := by
  obtain ⟨-, hname, hdescriptor, hstatic⟩ := MethodRef.mk.inj h
  have hname := MemberName.mangled_injective info.name hname
  cases m
  cases m'
  simp_all

/-- The places of the copies for a mixin on a class. -/
def refsOn (info : MixinInfo) (owner : ClassName) : List MethodRef :=
  (info.placesOn owner).map (·.ref)

theorem refsOn_eq (info : MixinInfo) (owner : ClassName) :
    info.refsOn owner = info.copied.map (info.copyRef owner) := by
  unfold refsOn placesOn
  rw [List.map_map]
  rfl

/-- **Copies on one class share a place exactly if a method is listed twice.** -/
theorem nodup_refsOn_iff {name : ClassName} (howner : ∀ m ∈ info.copied, m.owner = name) :
    (info.refsOn owner).Nodup ↔ info.copied.Nodup := by
  rw [refsOn_eq]
  refine ⟨List.Nodup.of_map _, fun h => h.map_on fun m hm m' hm' heq => ?_⟩
  exact copyRef_inj ((howner m hm).trans (howner m' hm').symm) heq

end MixinInfo

/-! ## §3. Copies of all declarations. -/

/-- The mixins with their target classes, in the order in which copies are made. -/
def Registry.pairs (r : Registry) : List (MixinInfo × ClassName) :=
  r.mixins.flatMap fun info => info.targetClasses.map (info, ·)

theorem mem_pairs {r : Registry} {x : MixinInfo × ClassName} :
    x ∈ r.pairs ↔ x.1 ∈ r.mixins ∧ x.2 ∈ x.1.targetClasses := by
  unfold Registry.pairs
  simp only [List.mem_flatMap, List.mem_map]
  constructor
  · rintro ⟨info, hinfo, owner, howner, rfl⟩
    exact ⟨hinfo, howner⟩
  · intro h
    exact ⟨x.1, h.1, x.2, h.2, rfl⟩

/-- Copies for pairs of a mixin and a class: their places are new, and no two pairs share one. -/
structure Spread (program : Program) (pairs : List (MixinInfo × ClassName)) (t : CopyTable) :
    Prop where
  made : t.MadeFor program (pairs.flatMap fun x => x.1.placesOn x.2)
  free : ∀ x ∈ pairs, ∀ m ∈ x.1.refsOn x.2, program.hasMethod m = false
  apart : pairs.Pairwise fun x y => List.Disjoint (x.1.refsOn x.2) (y.1.refsOn y.2)

section

variable {program : Program} {pairs : List (MixinInfo × ClassName)} {t t' : CopyTable}

/-- Copies are made for a pair only if all of its places are new. -/
theorem new_of_addCopies {info : MixinInfo} {owner : ClassName}
    (h : (addCopies program info t owner).outcome = .ok t') :
    ∀ m ∈ info.refsOn owner, program.hasMethod m = false ∧ t.hasRef m = false := by
  unfold addCopies at h
  rw [Traced.outcome_bind, Traced.outcome_lift] at h
  obtain ⟨_, hplaces, -⟩ := bind_eq_ok_iff.mp h
  unfold checkPlaces at hplaces
  split at hplaces
  · contradiction
  · next hnone =>
    intro m hm
    rw [MixinInfo.refsOn_eq] at hm
    simpa using List.find?_eq_none.mp hnone m hm

/-- **One more pair keeps the copies apart.** -/
theorem Spread.addCopies (h : Spread program pairs t) {x : MixinInfo × ClassName}
    (hadd : (addCopies program x.1 t x.2).outcome = .ok t') :
    Spread program (pairs ++ [x]) t' := by
  have hnew := new_of_addCopies hadd
  refine ⟨?_, ?_, ?_⟩
  · rw [List.flatMap_append, List.flatMap_singleton]
    have hmade : Yields (CopyTable.MadeFor · program
          (pairs.flatMap (fun y => y.1.placesOn y.2) ++ x.1.placesOn x.2))
        (fun _ => True) (PatchWeaver.addCopies program x.1 t x.2).outcome :=
      yields_addCopies h.made (fun _ _ _ => trivial) fun _ _ _ _ => trivial
    exact hmade.of_ok hadd
  · exact List.forall_mem_append.mpr
      ⟨h.free, List.forall_mem_singleton.mpr fun m hm => (hnew m hm).1⟩
  · refine List.pairwise_append.mpr ⟨h.apart, List.pairwise_singleton _ _, fun y hy x' hx' => ?_⟩
    obtain rfl := List.mem_singleton.mp hx'
    -- the places of pairs before this one are those of copies in the table
    intro m hmy hmx
    have hmem : m ∈ t.copies.map (·.ref) := by
      rw [h.made.map_ref, List.map_flatMap]
      exact List.mem_flatMap.mpr ⟨y, hy, hmy⟩
    obtain ⟨c, hc, hcm⟩ := List.mem_map.mp hmem
    have hhas : t.hasRef m = true := List.any_eq_true.mpr ⟨c, hc, by simpa using hcm⟩
    rw [(hnew m hmx).2] at hhas
    contradiction

/-- Copies are made pair by pair. -/
theorem outcome_build (program : Program) (r : Registry) :
    (CopyTable.build program r).outcome
      = r.pairs.foldlM (fun t x => (addCopies program x.1 t x.2).outcome) {} := by
  unfold CopyTable.build Registry.pairs
  rw [Traced.outcome_foldlM]
  generalize (({} : CopyTable)) = t
  induction r.mixins generalizing t with
  | nil => rfl
  | cons info rest ih =>
    rw [List.foldlM_cons, List.flatMap_cons, List.foldlM_append, Traced.outcome_foldlM,
      List.foldlM_map]
    exact congrArg _ (funext ih)

/-- **Copies that are made are apart.** -/
theorem spread_of_build {r : Registry} (h : (CopyTable.build program r).outcome = .ok t) :
    Spread program r.pairs t := by
  rw [outcome_build] at h
  have hspread : Yields (Spread program r.pairs) (fun _ => True)
      (r.pairs.foldlM (fun t x => (addCopies program x.1 t x.2).outcome) {}) := by
    refine .foldlM (Spread program) ⟨rfl, List.forall_mem_nil _, .nil⟩ fun done x rest t _ ht => ?_
    cases hadd : (addCopies program x.1 t x.2).outcome with
    | ok t' => exact .ok (ht.addCopies hadd)
    | error e => exact .error trivial
  exact hspread.of_ok h

end

/-! ## §4. Each method once. -/

section

variable {program : Program} {mixins : List Mixin} {r : Registry} {t : CopyTable}

/-- Copies that are made pass the check exactly if those of each mixin on each class are apart. -/
theorem check_iff_of_build (hclasses : ∀ info ∈ r.mixins, ∀ c ∈ info.targetClasses,
      program.hasClass c = true) (h : (CopyTable.build program r).outcome = .ok t) :
    t.check program = .ok () ↔ ∀ x ∈ r.pairs, (x.1.refsOn x.2).Nodup := by
  have hspread := spread_of_build h
  have hrefs : t.copies.map (·.ref) = r.pairs.flatMap fun x => x.1.refsOn x.2 := by
    rw [hspread.made.map_ref, List.map_flatMap]
    rfl
  rw [check_eq_ok_iff]
  constructor
  · intro hdeclarable
    have hdistinct := hdeclarable.distinct
    rw [hrefs, List.nodup_flatMap] at hdistinct
    exact hdistinct.1
  · intro hnodup
    have hplace : ∀ c ∈ t.copies, ∃ x ∈ r.pairs, c.ref ∈ x.1.refsOn x.2 := by
      intro c hc
      have hmem := List.mem_map_of_mem (f := (·.ref)) hc
      rw [hrefs] at hmem
      exact List.mem_flatMap.mp hmem
    refine ⟨fun c hc => ?_, fun c hc => ?_, ?_⟩
    · obtain ⟨x, hx, hmem⟩ := hplace c hc
      rw [MixinInfo.refsOn_eq] at hmem
      obtain ⟨m, -, hm⟩ := List.mem_map.mp hmem
      obtain ⟨hinfo, howner⟩ := mem_pairs.mp hx
      rw [← hm]
      exact hclasses x.1 hinfo x.2 howner
    · obtain ⟨x, hx, hmem⟩ := hplace c hc
      exact hspread.free x hx _ hmem
    · rw [hrefs, List.nodup_flatMap]
      exact ⟨hnodup, hspread.apart⟩

/-- Methods that are copied are those that the declaration lists. -/
theorem MixinInfo.Records.nodup_copied_iff {info : MixinInfo} {d : Mixin}
    (h : info.Records d program r) : info.copied.Nodup ↔ d.Distinct := by
  rw [h.copied_eq]
  rfl

/-- Where entries are about different methods, so are those that have an injector. -/
theorem Mixin.Acceptable.nodup_enabled {d : Mixin} (h : d.Acceptable program) (hd : d.Distinct) :
    (d.enabled.map (·.1.ref d.name)).Nodup := by
  rw [Mixin.enabled_eq_injections h.methods]
  exact hd.sublist (sublist_injectionsOf d d.methods)

/-- Copies on a class are apart exactly if the declaration lists no method twice. -/
theorem MixinInfo.Records.nodup_refsOn_iff {info : MixinInfo} {d : Mixin}
    (h : info.Records d program r) (owner : ClassName) :
    (info.refsOn owner).Nodup ↔ d.Distinct := by
  have howner : ∀ m ∈ info.copied, m.owner = d.name := by
    rw [h.copied_eq]
    intro m hm
    obtain ⟨entry, -, rfl⟩ := List.mem_map.mp hm
    rfl
  rw [MixinInfo.nodup_refsOn_iff howner, h.nodup_copied_iff]

/-- **Each method is copied once, and has one patch at most, exactly if its declaration says so.**

A scanned registry lists a method twice exactly if the declaration does, and a method has two
patches exactly if two entries of the declaration give it one each; where the entries are about
different methods, each has one at most. Once copies are made, they pass the check exactly if every
declaration with a target class that exists is one whose entries are about different methods. -/
theorem each_method_once (hscan : (Registry.scan program mixins).outcome = .ok r) :
    List.Forall₂ (fun d info => (info.copied.Nodup ↔ d.Distinct)
        ∧ (info.OneEach r ↔ (d.enabled.map (·.1.ref d.name)).Nodup)
        ∧ (d.Distinct → info.OneEach r)) mixins r.mixins
      ∧ ∀ t, (CopyTable.build program r).outcome = .ok t →
        (t.check program = .ok ()
          ↔ ∀ d ∈ mixins, (∃ c ∈ d.targets, program.hasClass c = true) → d.Distinct) := by
  obtain ⟨hacceptable, rfl⟩ := scan_eq_ok_iff.mp hscan
  have hrecords := records_scanned hacceptable
  obtain ⟨hlength, hzip⟩ := List.forall₂_iff_zip.mp hrecords.mixins
  have hnodup : ∀ info ∈ (scanned program mixins).mixins, info.patches.Nodup := by
    have hall : ((scanned program mixins).mixins.flatMap (·.patches)).Nodup := by
      rw [hrecords.listed]
      exact List.nodup_range
    exact (List.nodup_flatMap.mp hall).1
  refine ⟨List.forall₂_iff_zip.mpr ⟨hlength, fun {d info} hmem => ?_⟩, fun t ht => ?_⟩
  · obtain ⟨hd, hinfo⟩ := List.of_mem_zip hmem
    have hone := (hzip hmem).oneEach_iff (hnodup info hinfo)
    exact ⟨(hzip hmem).nodup_copied_iff, hone,
      fun hdistinct => hone.mpr ((hacceptable d hd).nodup_enabled hdistinct)⟩
  · have hclasses : ∀ info ∈ (scanned program mixins).mixins, ∀ c ∈ info.targetClasses,
        program.hasClass c = true := by
      intro info hinfo c hc
      obtain ⟨d, -, hrecord⟩ := exists_of_forall₂ hrecords.mixins.flip hinfo
      exact ((hrecord.classes.mem_iff c).mp hc).2
    rw [check_iff_of_build hclasses ht]
    constructor
    · rintro hpairs d hd ⟨c, hc, hclass⟩
      obtain ⟨info, hinfo, hrecord⟩ := exists_of_forall₂ hrecords.mixins hd
      have howner := (hrecord.classes.mem_iff c).mpr ⟨hc, hclass⟩
      exact (hrecord.nodup_refsOn_iff c).mp (hpairs (info, c) (mem_pairs.mpr ⟨hinfo, howner⟩))
    · intro hdistinct x hx
      obtain ⟨hinfo, howner⟩ := mem_pairs.mp hx
      obtain ⟨d, hd, hrecord⟩ := exists_of_forall₂ hrecords.mixins.flip hinfo
      exact (hrecord.nodup_refsOn_iff x.2).mpr
        (hdistinct d hd ⟨x.2, (hrecord.classes.mem_iff x.2).mp howner⟩)

end

/-! ### A declaration with two entries for one method. -/

namespace Repeated

/-- A method that is injected at the head of `run`. -/
def entry : MixinMethod := Twins.hook ⟨"on", segmentFault?_eq_none_iff.mp rfl⟩

/-- The method in the class of the mixin. -/
def source : MethodDef := { Twins.run with name := entry.name, descriptor := entry.descriptor }

/-- The target and the class of the mixin. -/
def program : Program :=
  ⟨[(Twins.a, { superclass := none, methods := [Twins.run] }),
    (Twins.mixin, { superclass := none, methods := [source] })],
    by unfold ClassTable.Ordered; decide⟩

/-- The method is listed once. -/
def once : Mixin := { name := Twins.mixin, targets := [Twins.a], methods := [entry] }

/-- The method is listed twice, with an injector each. -/
def twice : Mixin := { once with methods := [entry, entry] }

/-- What a scan makes of the method that is listed twice. -/
def registry : Registry := scanned program [twice]

theorem scan_once : (Registry.scan program [once]).outcome = .ok (scanned program [once]) := rfl

theorem scan_twice : (Registry.scan program [twice]).outcome = .ok registry := rfl

/-- The place of the copy. -/
def place : MethodRef := once.copyRef Twins.a (source.ref Twins.mixin)

/-- Both copies are made for the same place, which the check finds. -/
theorem check_twice :
    ((CopyTable.build program registry).outcome >>= fun t => t.check program)
      = .error (.copyCollision place) := by decide

theorem exists_copies_once :
    ∃ t, (CopyTable.build program (scanned program [once])).outcome = .ok t := ⟨_, rfl⟩

theorem exists_copies_twice :
    ∃ t, (CopyTable.build program registry).outcome = .ok t := ⟨_, rfl⟩

end Repeated

/-- A method that is listed once is copied once, and its copy passes the check. -/
theorem each_method_once_hook :
    ∃ r t, (Registry.scan Repeated.program [Repeated.once]).outcome = .ok r
      ∧ (CopyTable.build Repeated.program r).outcome = .ok t
      ∧ t.check Repeated.program = .ok () := by
  obtain ⟨t, hbuild⟩ := Repeated.exists_copies_once
  have hdistinct : Repeated.once.Distinct := List.nodup_singleton _
  refine ⟨_, t, Repeated.scan_once, hbuild, ?_⟩
  exact ((each_method_once Repeated.scan_once).2 t hbuild).mpr
    (List.forall_mem_singleton.mpr fun _ => hdistinct)

/-- **A declaration that lists a method twice is scanned**: the method has two patches, two copies
of it are made for one place, and the check refuses them. -/
theorem repetition_is_scanned :
    ∃ info t, (Registry.scan Repeated.program [Repeated.twice]).outcome = .ok Repeated.registry
      ∧ Repeated.registry.mixins = [info] ∧ ¬ info.OneEach Repeated.registry
      ∧ info.copied = [Repeated.source.ref Twins.mixin, Repeated.source.ref Twins.mixin]
      ∧ (CopyTable.build Repeated.program Repeated.registry).outcome = .ok t
      ∧ t.check Repeated.program = .error (.copyCollision Repeated.place) := by
  obtain ⟨t, hbuild⟩ := Repeated.exists_copies_twice
  have hcheck := Repeated.check_twice
  rw [hbuild, ok_bind] at hcheck
  refine ⟨_, t, Repeated.scan_twice, rfl, fun hone => ?_, rfl, hbuild, hcheck⟩
  -- its patches have one body
  have heq := hone 0 (by decide) 1 (by decide) _ _ rfl rfl rfl
  contradiction

end PatchWeaver

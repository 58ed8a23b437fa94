/-
  PatchWeaver.Proofs.Targets
  ──────────────────────────
  **WHICH METHODS A PATCH GOES TO.**

  On given classes, a patch goes to the declared methods that one of its
  targets names, and to each of them once.  It fails exactly if a target
  that has to name a method names none on one of the classes.

  The classes are looked up by the name of the mixin, and the first
  declaration of that name counts:

      methods of a patch of d  =  named methods on the targets of the first
                                  declaration of d's name

  So a patch goes to the targets of its own declaration where no other
  declaration has the name, but not in general (`twin_goes_astray`).

  Main results:
    * `mem_candidates` — which methods of a class a target names.
    * `pairwise_idxOf_eraseDups` — erasing duplicates keeps first occurrences.
    * `resolveTargetsOn_cases` — what resolving on given classes comes to.
    * `resolveTargets_cases` — what resolving comes to in a run.
    * `resolveTargets_of_nodup` — and where names are distinct.
-/
import PatchWeaver.Proofs.Contracts
import PatchWeaver.Proofs.Members
import PatchWeaver.Proofs.Scanning
import PatchWeaver.Weave.Selection

namespace PatchWeaver

/-! ## §1. Names of methods. -/

/-- A target names a method of a class. -/
structure Target.Names (t : Target) (program : Program) (owner : ClassName) (m : MethodRef) :
    Prop where
  owner_eq : m.owner = owner
  declared : program.hasMethod m = true
  name_eq : m.name = t.name
  parameters_eq : ∀ types, t.parameters = some types → types = m.descriptor.parameters

theorem Target.acceptsParameters_iff {t : Target} {m : MethodRef} :
    t.acceptsParameters m = true
      ↔ ∀ types, t.parameters = some types → types = m.descriptor.parameters := by
  unfold acceptsParameters
  cases t.parameters <;> simp

/-- **The candidates are the methods that a target names.** -/
theorem mem_candidates {program : Program} {t : Target} {owner : ClassName} {m : MethodRef} :
    m ∈ candidates program t owner ↔ t.Names program owner m := by
  unfold candidates Program.methodsNamed
  rw [List.mem_filter, Target.acceptsParameters_iff]
  constructor
  · rintro ⟨hmem, hparameters⟩
    cases hclass : program.class? owner with
    | none => simp [hclass] at hmem
    | some c =>
      rw [hclass] at hmem
      obtain ⟨d, hd, rfl⟩ := List.mem_map.mp hmem
      obtain ⟨hd, hname⟩ := List.mem_filter.mp hd
      have hname : d.name = t.name := by simpa using hname
      exact ⟨rfl, Program.hasMethod_iff.mpr ⟨c, hclass, d, hd, rfl⟩, hname, hparameters⟩
  · rintro ⟨rfl, hdeclared, hname, hparameters⟩
    obtain ⟨c, hclass, d, hd, href⟩ := Program.hasMethod_iff.mp hdeclared
    refine ⟨?_, hparameters⟩
    rw [hclass]
    refine List.mem_map.mpr ⟨d, List.mem_filter.mpr ⟨hd, ?_⟩, href⟩
    have : d.name = m.name := by rw [← href]; rfl
    simp [this, hname]

/-! ## §2. Methods on given classes. -/

/-- What passes a filter keeps its order. -/
theorem idxOf_lt_of_filter {α : Type} [DecidableEq α] {p : α → Bool} {a b : α} {l : List α}
    (ha : p a = true) (hb : p b = true) (h : (l.filter p).idxOf a < (l.filter p).idxOf b) :
    l.idxOf a < l.idxOf b := by
  induction l with
  | nil => simp at h
  | cons x l ih =>
    by_cases hx : p x = true
    · rw [List.filter_cons_of_pos hx] at h
      simp only [List.idxOf_cons, cond_eq_ite] at h ⊢
      -- the place of either is that of the first element, or one behind its place in the rest
      split <;> split <;> simp_all
    · -- what does not pass is neither of the two
      have hxa : (x == a) = false := beq_eq_false_iff_ne.mpr fun heq => hx (by rwa [heq])
      have hxb : (x == b) = false := beq_eq_false_iff_ne.mpr fun heq => hx (by rwa [heq])
      rw [List.filter_cons_of_neg hx] at h
      simpa only [List.idxOf_cons, hxa, hxb, cond_false, Nat.succ_lt_succ_iff] using ih h

/-- **Erasing duplicates keeps first occurrences.** -/
theorem pairwise_idxOf_eraseDups {α : Type} [DecidableEq α] : ∀ l : List α,
    l.eraseDups.Pairwise fun a b => l.idxOf a < l.idxOf b
  | [] => .nil
  | x :: l => by
    have hrest : ∀ a ∈ (l.filter fun b => !b == x).eraseDups, (!a == x) = true := fun a ha =>
      (List.mem_filter.mp (List.mem_eraseDups.mp ha)).2
    have hplace : ∀ a ∈ (l.filter fun b => !b == x).eraseDups,
        (x :: l).idxOf a = l.idxOf a + 1 := fun a ha =>
      List.idxOf_cons_ne l fun heq => by simpa [heq] using hrest a ha
    rw [List.eraseDups_cons]
    refine .cons (fun a ha => ?_) ((pairwise_idxOf_eraseDups _).imp_of_mem fun ha hb h => ?_)
    · rw [List.idxOf_cons_self, hplace a ha]
      exact Nat.succ_pos _
    · rw [hplace _ ha, hplace _ hb]
      exact Nat.succ_lt_succ (idxOf_lt_of_filter (hrest _ ha) (hrest _ hb) h)
  termination_by l => l.length
  decreasing_by exact Nat.lt_succ_of_le (List.length_filter_le _ _)

/-- Erasing duplicates leaves none. -/
theorem nodup_eraseDups {α : Type} [DecidableEq α] (l : List α) : l.eraseDups.Nodup :=
  (pairwise_idxOf_eraseDups l).imp fun h heq => absurd h (by simp [heq])

/-- The methods of some classes that a patch goes to. -/
structure Resolves (program : Program) (classes : ClassName → Prop) (patch : Patch)
    (methods : List MethodRef) : Prop where
  nodup : methods.Nodup
  mem_iff : ∀ m, m ∈ methods ↔ ∃ c, classes c ∧ ∃ t ∈ patch.targets, t.Names program c m

/-- A target that has to name a method names none on a class. -/
def Target.Misses (t : Target) (program : Program) (owner : ClassName) : Prop :=
  t.onMiss = .abort ∧ ∀ m, ¬ t.Names program owner m

/-- Some target of a patch misses some of the classes. -/
def Patch.Misses (patch : Patch) (program : Program) (classes : ClassName → Prop) : Prop :=
  ∃ t ∈ patch.targets, ∃ c, classes c ∧ t.Misses program c

/-- What resolving the targets of a patch can come to: the methods that they name, or, exactly if
one of them misses a class, a failure that says which. -/
structure ResolvesTo (program : Program) (classes : ClassName → Prop) (patch : Patch)
    (outcome : Except WeaveError (List MethodRef)) : Prop where
  resolves : ∀ methods, outcome = .ok methods → Resolves program classes patch methods
  fails_iff : (∃ e, outcome = .error e) ↔ patch.Misses program classes
  error_eq : ∀ e, outcome = .error e → ∃ t ∈ patch.targets, ∃ c, classes c ∧ t.Misses program c
    ∧ e = .unresolvedTarget patch.describe t.describe c

/-- The methods that a target names on a class, which must not be none if it has to name some. -/
def namedMethods (program : Program) (patch : Patch) (t : Target) (owner : ClassName) :
    Traced (List MethodRef) := do
  if (candidates program t owner).isEmpty then missedTarget patch t owner
  return candidates program t owner

section

variable {program : Program} {patch : Patch} {t : Target} {owner : ClassName}

theorem candidates_isEmpty_iff :
    (candidates program t owner).isEmpty = true ↔ ∀ m, ¬ t.Names program owner m := by
  rw [List.isEmpty_iff, List.eq_nil_iff_forall_not_mem]
  exact forall_congr' fun m => not_congr mem_candidates

theorem namedMethods_of_not_misses (h : ¬ t.Misses program owner) :
    (namedMethods program patch t owner).outcome = .ok (candidates program t owner) := by
  unfold namedMethods
  split
  · next hempty =>
    have hmiss : t.onMiss ≠ .abort := fun habort => h ⟨habort, candidates_isEmpty_iff.mp hempty⟩
    unfold missedTarget
    cases honMiss : t.onMiss with
    | abort => exact absurd honMiss hmiss
    | log => rfl
    | silent => rfl
  · rfl

theorem namedMethods_of_misses (h : t.Misses program owner) :
    (namedMethods program patch t owner).outcome
      = .error (.unresolvedTarget patch.describe t.describe owner) := by
  unfold namedMethods missedTarget
  rw [if_pos (candidates_isEmpty_iff.mpr h.2), h.1]
  rfl

theorem namedMethods_fails_iff :
    (∃ e, (namedMethods program patch t owner).outcome = .error e) ↔ t.Misses program owner := by
  by_cases h : t.Misses program owner
  · simp [namedMethods_of_misses h, h]
  · simp [namedMethods_of_not_misses h, h]

theorem outcome_resolveTargetsOn (program : Program) (classes : List ClassName) (patch : Patch) :
    (resolveTargetsOn program classes patch).outcome
      = (patch.targets.mapM fun t => classes.mapM fun c =>
          (namedMethods program patch t c).outcome).map (·.flatten.flatten.eraseDups) := by
  unfold resolveTargetsOn
  rw [Traced.outcome_bind, Traced.outcome_mapM]
  simp only [Traced.outcome_mapM]
  rfl

end

/-- **Resolving on given classes** finds what the targets name, or fails where one misses. -/
theorem resolveTargetsOn_cases (program : Program) (classes : List ClassName) (patch : Patch) :
    ResolvesTo program (· ∈ classes) patch (resolveTargetsOn program classes patch).outcome := by
  rw [outcome_resolveTargetsOn]
  have hfails : (∃ e, (patch.targets.mapM fun t => classes.mapM fun c =>
      (namedMethods program patch t c).outcome) = .error e)
        ↔ patch.Misses program (· ∈ classes) := by
    simp only [exists_mapM_error_iff, namedMethods_fails_iff]
    rfl
  generalize hfound : (patch.targets.mapM fun t => classes.mapM fun c =>
    (namedMethods program patch t c).outcome) = found at hfails
  refine ⟨fun methods h => ?_, ?_, fun e h => ?_⟩
  · -- no target misses, so every one of them has its candidates
    obtain ⟨lists, rfl⟩ : ∃ lists, found = .ok lists := by
      cases found with
      | ok lists => exact ⟨lists, rfl⟩
      | error e => contradiction
    have hnone : ¬ patch.Misses program (· ∈ classes) := fun hmisses => by
      obtain ⟨e, he⟩ := hfails.mpr hmisses
      contradiction
    have hnamed : ∀ t ∈ patch.targets, ∀ c ∈ classes,
        (namedMethods program patch t c).outcome = .ok (candidates program t c) :=
      fun t ht c hc => namedMethods_of_not_misses fun hmiss => hnone ⟨t, ht, c, hc, hmiss⟩
    have hall := mapM_eq_ok fun t ht => mapM_eq_ok (hnamed t ht)
    obtain rfl := Except.ok.inj (hall.symm.trans hfound)
    obtain rfl := Except.ok.inj h
    refine ⟨nodup_eraseDups _, fun m => ?_⟩
    simp only [List.mem_eraseDups, List.mem_flatten, List.mem_map]
    constructor
    · rintro ⟨_, ⟨_, ⟨t, ht, rfl⟩, hlist⟩, hm⟩
      obtain ⟨c, hc, rfl⟩ := List.mem_map.mp hlist
      exact ⟨c, hc, t, ht, mem_candidates.mp hm⟩
    · rintro ⟨c, hc, t, ht, hnames⟩
      exact ⟨_, ⟨_, ⟨t, ht, rfl⟩, List.mem_map.mpr ⟨c, hc, rfl⟩⟩, mem_candidates.mpr hnames⟩
  · rw [← hfails]
    cases found <;> simp [Except.map]
  · -- the failure is that of a target which misses
    obtain rfl : found = .error e := by
      cases found with
      | ok lists => contradiction
      | error e' => exact congrArg _ (Except.error.inj h)
    obtain ⟨t, ht, hclasses⟩ := exists_of_mapM_error hfound
    obtain ⟨c, hc, hnamed⟩ := exists_of_mapM_error hclasses
    have hmisses := namedMethods_fails_iff.mp ⟨e, hnamed⟩
    rw [namedMethods_of_misses hmisses] at hnamed
    exact ⟨t, ht, c, hc, hmisses, (Except.error.inj hnamed).symm⟩

/-! ## §3. Methods for a declaration. -/

/-- What the first declaration of a name says counts for the patches of each of that name. -/
theorem resolvesTo_of_first {program : Program} {mixins : List Mixin} {r : Registry}
    (hscan : (Registry.scan program mixins).outcome = .ok r) {d first : Mixin} {start : PatchId}
    (hfirst : mixins.find? (·.name = d.name) = some first) {p : Patch}
    (hp : p ∈ d.patches start) :
    ResolvesTo program (fun c => c ∈ first.targets ∧ program.hasClass c = true) p
      (resolveTargets program r p).outcome := by
  obtain ⟨-, rfl⟩ := scan_eq_ok_iff.mp hscan
  obtain ⟨hname, -⟩ := Mixin.exists_of_mem_patches hp
  have hclasses := targetClasses_mixinOf? program mixins p
  rw [hname, hfirst, Option.map_some] at hclasses
  obtain ⟨info, hinfo, htargets⟩ := Option.map_eq_some_iff.mp hclasses
  have hresolve := resolveTargetsOn_cases program (targetClasses program first) p
  simp only [mem_targetClasses] at hresolve
  simpa [resolveTargets, hinfo, htargets] using hresolve

/-- **The targets of a patch are looked up on the classes of the first declaration of its mixin's
name.** -/
theorem resolveTargets_cases {program : Program} {mixins : List Mixin} {r : Registry}
    (hscan : (Registry.scan program mixins).outcome = .ok r) {done rest : List Mixin} {d : Mixin}
    (hmixins : mixins = done ++ d :: rest) {p : Patch} (hp : p ∈ d.patches (patchCount done)) :
    ∃ first, mixins.find? (·.name = d.name) = some first
      ∧ ResolvesTo program (fun c => c ∈ first.targets ∧ program.hasClass c = true) p
          (resolveTargets program r p).outcome := by
  have hfound : (mixins.find? (·.name = d.name)).isSome = true := by
    rw [List.find?_isSome]
    exact ⟨d, by simp [hmixins], by simp⟩
  obtain ⟨first, hfirst⟩ := Option.isSome_iff_exists.mp hfound
  exact ⟨first, hfirst, resolvesTo_of_first hscan hfirst hp⟩

/-- Where names are distinct, a declaration is the first one of its name. -/
theorem find?_of_nodup {done rest : List Mixin} {d : Mixin}
    (hnames : ((done ++ d :: rest).map (·.name)).Nodup) :
    (done ++ d :: rest).find? (·.name = d.name) = some d := by
  rw [List.map_append, List.map_cons, List.nodup_append] at hnames
  have hdone : done.find? (·.name = d.name) = none := by
    refine List.find?_eq_none.mpr fun d' hd' heq => ?_
    exact hnames.2.2 _ (List.mem_map_of_mem hd') _ List.mem_cons_self (by simpa using heq)
  simp [List.find?_append, hdone]

/-- **Where names are distinct, a patch goes to the targets of its own declaration.** -/
theorem resolveTargets_of_nodup {program : Program} {mixins : List Mixin} {r : Registry}
    (hscan : (Registry.scan program mixins).outcome = .ok r)
    (hnames : (mixins.map (·.name)).Nodup) {done rest : List Mixin} {d : Mixin}
    (hmixins : mixins = done ++ d :: rest) {p : Patch} (hp : p ∈ d.patches (patchCount done)) :
    ResolvesTo program (fun c => c ∈ d.targets ∧ program.hasClass c = true) p
      (resolveTargets program r p).outcome := by
  subst hmixins
  exact resolvesTo_of_first hscan (find?_of_nodup hnames) hp

/-! ### Two declarations of one name, of which the second one has a target more. -/

namespace Twins

/-- The name of both declarations. -/
def mixin : ClassName := ⟨"demo/P", ClassName.legal_of_no_fault rfl⟩

/-- The class that both have for a target. -/
def a : ClassName := ⟨"demo/A", ClassName.legal_of_no_fault rfl⟩

/-- The class that only the second one has for a target. -/
def b : ClassName := ⟨"demo/B", ClassName.legal_of_no_fault rfl⟩

/-- A static method that returns at once. -/
def run : MethodDef where
  name := ⟨"run", segmentFault?_eq_none_iff.mp rfl⟩
  descriptor := ⟨[], none⟩
  flags := .copied true
  body := some (.ofInstructions [.ret])

/-- Both targets declare the method. -/
def program : Program :=
  ⟨[(a, { superclass := none, methods := [run] }), (b, { superclass := none, methods := [run] })],
    by unfold ClassTable.Ordered; decide⟩

/-- A method that is injected at the head of `run`. -/
def hook (name : MemberName) : MixinMethod where
  name := name
  descriptor := ⟨[.object .callbackInfo], none⟩
  isStatic := true
  injectors := [{ kind := .inject false .dont }]
  targets := [{ name := run.name }]
  selectors := [{ kind := .head }]

/-- The method of the first declaration. -/
def onA : MixinMethod := hook ⟨"onA", segmentFault?_eq_none_iff.mp rfl⟩

/-- The method of the second declaration. -/
def onBoth : MixinMethod := hook ⟨"onBoth", segmentFault?_eq_none_iff.mp rfl⟩

/-- The declaration that is found by the name. -/
def first : Mixin := { name := mixin, targets := [a], methods := [onA] }

/-- The declaration with a target more. -/
def second : Mixin := { name := mixin, targets := [a, b], methods := [onBoth] }

/-- Both declarations, in this order. -/
def mixins : List Mixin := [first, second]

/-- The registry has a patch of each. -/
def registry : Registry := scanned program mixins

/-- The patch of the second declaration. -/
def patch : Patch := second.patch 1 onBoth { kind := .inject false .dont }

theorem scan_mixins : (Registry.scan program mixins).outcome = .ok registry := rfl

theorem mem_patches : patch ∈ second.patches (patchCount [first]) := List.mem_singleton.mpr rfl

/-- The patch of the second declaration goes to the target of the first. -/
theorem resolve_patch :
    (resolveTargets program registry patch).outcome = .ok [run.ref a] := rfl

/-- The patch names the method of the other target, too. -/
theorem names_run : Target.Names { name := run.name } program b (run.ref b) :=
  ⟨rfl, rfl, rfl, by simp⟩

end Twins

/-- The second of two declarations of one name: its patch is resolved on what the first one says. -/
theorem resolveTargets_twins :
    ∃ d, Twins.mixins.find? (·.name = Twins.second.name) = some d
      ∧ ResolvesTo Twins.program (fun c => c ∈ d.targets ∧ Twins.program.hasClass c = true)
          Twins.patch (resolveTargets Twins.program Twins.registry Twins.patch).outcome :=
  resolveTargets_cases Twins.scan_mixins
    (show Twins.mixins = [Twins.first] ++ Twins.second :: [] from rfl) Twins.mem_patches

/-- **A patch does not go to the targets of its own declaration in general.** -/
theorem twin_goes_astray :
    ¬ ∀ (program : Program) (mixins : List Mixin) (r : Registry),
      (Registry.scan program mixins).outcome = .ok r →
        ∀ (done rest : List Mixin) (d : Mixin), mixins = done ++ d :: rest →
          ∀ p ∈ d.patches (patchCount done),
            ResolvesTo program (fun c => c ∈ d.targets ∧ program.hasClass c = true) p
              (resolveTargets program r p).outcome := by
  intro h
  have hresolve := h Twins.program Twins.mixins Twins.registry Twins.scan_mixins [Twins.first] []
    Twins.second rfl Twins.patch Twins.mem_patches
  have hmem := ((hresolve.resolves _ Twins.resolve_patch).mem_iff (Twins.run.ref Twins.b)).mpr
    ⟨Twins.b, ⟨by decide, rfl⟩, _, List.mem_singleton.mpr rfl, Twins.names_run⟩
  revert hmem
  decide

end PatchWeaver

/-
  PatchWeaver.Proofs.Scanning
  ───────────────────────────
  **WHAT A SCAN FINDS.**

  A scan lets declarations through exactly if each of them makes sense, and
  then its registry says what they say.  What a declaration contributes does
  not depend on the others but for the numbers of its patches:

      mixins    d₀.info 0     d₁.info n₀     d₂.info (n₀ + n₁)    …
      patches   d₀.patches 0  d₁.patches n₀  d₂.patches (n₀ + n₁) …

  where `nᵢ` is the number of methods of `dᵢ` with an injector that is not
  disabled.

  Main results:
    * `scan_eq_ok_iff` — which declarations a scan lets through, and what it
      makes of them.
    * `firstFault_of_scan` — what a scan refuses declarations for.
    * `yields_scan` — the contract of a scan.
    * `id_eq_of_patch?` — a patch is numbered by its place.
    * `mem_patches_scanned` — the patches are those of the declarations.
-/
import Mathlib.Algebra.GroupWithZero.Nat
import PatchWeaver.Proofs.Contracts
import PatchWeaver.Weave.Scan

namespace PatchWeaver

/-! ## §1. What a declaration says. -/

/-- The injector that makes a patch of a method. -/
def MixinMethod.active? (m : MixinMethod) : Option Injector :=
  if m.shadow then none else m.injectors.head?.filter (!·.disabled)

/-- The methods that become patches, with their injectors. -/
def injectionsOf (methods : List MixinMethod) : List (MixinMethod × Injector) :=
  methods.filterMap fun m => m.active?.map (m, ·)

namespace Mixin

/-- The methods that become patches, with their injectors. -/
def injections (d : Mixin) : List (MixinMethod × Injector) := injectionsOf d.methods

/-- The patch that a method with an injector becomes. -/
def patch (d : Mixin) (id : PatchId) (m : MixinMethod) (i : Injector) : Patch where
  id := id
  mixin := d.name
  body := m.ref d.name
  injector := i
  priority := i.priority.getD d.priority
  selectors := m.selectors
  targets := m.targets

/-- The patches of some methods of a declaration, numbered from `first` on. -/
def patchesOf (d : Mixin) (first : PatchId) (injections : List (MixinMethod × Injector)) :
    List Patch :=
  injections.mapIdx fun k (m, i) => d.patch (first + k) m i

/-- The patches of a declaration, numbered from `first` on. -/
def patches (d : Mixin) (first : PatchId) : List Patch := d.patchesOf first d.injections

/-- The methods of a declaration that are shadows, or are not. -/
def refsOf (d : Mixin) (shadow : Bool) (methods : List MixinMethod) : List MethodRef :=
  (methods.filter (·.shadow == shadow)).map (·.ref d.name)

/-- The methods that are copied onto the target classes. -/
def copied (d : Mixin) : List MethodRef := d.refsOf false d.methods

/-- What a declaration contributes whose patches are numbered from `first` on. -/
def info (d : Mixin) (program : Program) (first : PatchId) : MixinInfo where
  name := d.name
  targetClasses := targetClasses program d
  patches := List.range' first d.injections.length
  copied := d.copied
  shadowMethods := d.refsOf true d.methods
  shadowFields := d.shadowFields.map (·.ref d.name)

@[simp]
theorem length_patches (d : Mixin) (first : PatchId) :
    (d.patches first).length = d.injections.length := List.length_mapIdx

/-- The patches of a declaration are numbered one after the other. -/
theorem id_eq_of_getElem? {d : Mixin} {first k : Nat} {p : Patch}
    (h : (d.patches first)[k]? = some p) : p.id = first + k := by
  unfold patches patchesOf at h
  rw [List.getElem?_mapIdx] at h
  obtain ⟨⟨m, i⟩, -, rfl⟩ := Option.map_eq_some_iff.mp h
  rfl

/-- A patch is one of a method that is copied. -/
theorem exists_of_mem_patches {d : Mixin} {first : PatchId} {p : Patch}
    (h : p ∈ d.patches first) :
    p.mixin = d.name ∧ p.body ∈ d.copied ∧ p.kind = p.injector.kind
      ∧ ∃ m ∈ d.methods, m.active? = some p.injector := by
  obtain ⟨k, hk⟩ := List.mem_iff_getElem?.mp h
  unfold patches patchesOf at hk
  rw [List.getElem?_mapIdx] at hk
  obtain ⟨⟨m, i⟩, hget, rfl⟩ := Option.map_eq_some_iff.mp hk
  obtain ⟨m', hm', hactive⟩ := List.mem_filterMap.mp (List.mem_of_getElem? hget)
  obtain ⟨i', hi', heq⟩ := Option.map_eq_some_iff.mp hactive
  obtain ⟨rfl, rfl⟩ := Prod.mk.inj heq
  -- a shadow method has no active injector
  have hshadow : m'.shadow = false := by
    unfold MixinMethod.active? at hi'
    split at hi'
    · contradiction
    · next h => simpa using h
  refine ⟨rfl, ?_, rfl, m', hm', hi'⟩
  exact List.mem_map.mpr ⟨m', List.mem_filter.mpr ⟨hm', by simp [hshadow]⟩, rfl⟩

end Mixin

/-! ## §2. One method. -/

/-- A method makes sense in a mixin. -/
structure MixinMethod.Acceptable (m : MixinMethod) : Prop where
  single : m.injectors.length ≤ 1
  notBoth : m.shadow = true → m.injectors = []
  concrete : ∀ i ∈ m.injectors, i.kind ≠ .base
  /-- Where nothing is injected, it does not matter where it would be. -/
  located : ∀ i, m.active? = some i → (∀ s ∈ m.selectors, s.kind ≠ .base) ∧ m.targets ≠ []

/-- What can be wrong with a method of a mixin, and what a scan says then. -/
inductive MixinMethod.Fault (m : MixinMethod) (mixin : ClassName) : WeaveError → Prop where
  | multipleInjectors (h : 2 ≤ m.injectors.length) :
    m.Fault mixin (.multipleInjectors (m.ref mixin))
  | shadowInjector (hshadow : m.shadow = true) (h : m.injectors ≠ []) :
    m.Fault mixin (.shadowInjector (m.ref mixin))
  | abstractInjector {i : Injector} (hshadow : m.shadow = false) (hi : i ∈ m.injectors)
    (h : i.kind = .base) : m.Fault mixin (.abstractInjector (i.describe mixin))
  | abstractSelector {i : Injector} {s : Selector} (hi : i ∈ m.injectors)
    (henabled : i.disabled = false) (hs : s ∈ m.selectors) (h : s.kind = .base) :
    m.Fault mixin (.abstractSelector (s.describe mixin))
  | noTargets {i : Injector} (hi : i ∈ m.injectors) (henabled : i.disabled = false)
    (h : m.targets = []) : m.Fault mixin (.noTargets (i.describe mixin))

/-- What a method adds to a scan. -/
def ScanState.record (d : Mixin) (s : ScanState) (m : MixinMethod) : ScanState :=
  if m.shadow then s.addShadow (m.ref d.name)
  else match m.active? with
    | none => s.addCopied (m.ref d.name)
    | some i => (s.addCopied (m.ref d.name)).addPatch (d.patch s.patches.length m i)

/-- An injector is let through if it is concrete and, unless it is disabled, says where to go. -/
theorem scanInjector_eq_ok_iff {d : Mixin} {m : MixinMethod} {i : Injector} {s s' : ScanState} :
    (scanInjector d m i s).outcome = .ok s' ↔
      i.kind ≠ .base
        ∧ (i.disabled = false → (∀ x ∈ m.selectors, x.kind ≠ .base) ∧ m.targets ≠ [])
        ∧ (if i.disabled then s else s.addPatch (d.patch s.patches.length m i)) = s' := by
  unfold scanInjector
  dsimp only
  -- the checks in their order: the kind, then unless it is disabled its selectors and targets
  by_cases hkind : i.kind = .base
  · simp [hkind]
  rw [if_neg hkind]
  cases hdisabled : i.disabled with
  | true => simp [hkind, Except.map]
  | false =>
    cases hselector : m.selectors.find? (·.kind = .base) with
    | some x =>
      have hbase : x.kind = .base := by simpa using List.find?_some hselector
      have hmem := List.mem_of_find?_eq_some hselector
      simp only [Bool.false_eq_true, if_false, Traced.outcome_fail, reduceCtorEq, false_iff]
      rintro ⟨-, hlocated, -⟩
      exact (hlocated trivial).1 x hmem hbase
    | none =>
      have hnone : ∀ x ∈ m.selectors, x.kind ≠ .base := by simpa using hselector
      have hlocated : ((∀ x ∈ m.selectors, x.kind ≠ .base) ∧ m.targets ≠ [])
          ↔ m.targets.isEmpty = false := by
        simpa [← List.isEmpty_eq_false_iff] using fun _ => hnone
      cases htargets : m.targets.isEmpty with
      | true => simp [hlocated, htargets]
      | false => simp [hlocated, htargets, hkind, Except.map, Mixin.patch]

/-- A method is let through if it makes sense, and is recorded then. -/
theorem scanMethod_eq_ok_iff {d : Mixin} {m : MixinMethod} {s s' : ScanState} :
    (scanMethod d s m).outcome = .ok s' ↔ m.Acceptable ∧ s.record d m = s' := by
  unfold scanMethod
  dsimp only
  -- several injectors, none, or one; one is refused on a shadow method
  match hinjectors : m.injectors with
  | _ :: _ :: _ =>
    simp only [Traced.outcome_fail, reduceCtorEq, false_iff]
    rintro ⟨hacceptable, -⟩
    have := hacceptable.single
    simp [hinjectors] at this
  | [] =>
    have hactive : m.active? = none := by simp [MixinMethod.active?, hinjectors]
    have hacceptable : m.Acceptable :=
      ⟨by simp [hinjectors], fun _ => hinjectors, by simp [hinjectors], by simp [hactive]⟩
    simp [hacceptable, ScanState.record, hactive]
  | [i] =>
    cases hshadow : m.shadow with
    | true =>
      simp only [if_true, Traced.outcome_fail, reduceCtorEq, false_iff]
      rintro ⟨hacceptable, -⟩
      have := hacceptable.notBoth hshadow
      simp [hinjectors] at this
    | false =>
      have hactive : m.active? = if i.disabled then none else some i := by
        cases hdisabled : i.disabled <;>
          simp [MixinMethod.active?, hshadow, hinjectors, Option.filter, hdisabled]
      have hacceptable : m.Acceptable ↔ i.kind ≠ .base
          ∧ (i.disabled = false → (∀ x ∈ m.selectors, x.kind ≠ .base) ∧ m.targets ≠ []) := by
        constructor
        · intro h
          refine ⟨h.concrete i (by simp [hinjectors]), fun hdisabled => h.located i ?_⟩
          simp [hactive, hdisabled]
        · rintro ⟨hconcrete, hlocated⟩
          refine ⟨by simp [hinjectors], by simp [hshadow], by simpa [hinjectors] using hconcrete,
            fun i' hi' => hlocated ?_⟩
          cases hdisabled : i.disabled with
          | true => simp [hactive, hdisabled] at hi'
          | false => rfl
      have hrecord : s.record d m = if i.disabled then s.addCopied (m.ref d.name)
          else (s.addCopied (m.ref d.name)).addPatch (d.patch s.patches.length m i) := by
        unfold ScanState.record
        rw [hshadow, hactive]
        cases i.disabled <;> rfl
      show (scanInjector d m i _).outcome = .ok s' ↔ _
      rw [scanInjector_eq_ok_iff, hacceptable, hrecord, and_assoc]
      rfl

/-- A method whose only injector is concrete fails for what is wrong with it. -/
theorem yields_scanInjector {d : Mixin} {m : MixinMethod} {i : Injector} (s : ScanState)
    (hshadow : m.shadow = false) (hi : i ∈ m.injectors) :
    Yields (fun _ => True) (m.Fault d.name) (scanInjector d m i s).outcome := by
  unfold scanInjector
  dsimp only
  split
  · next hkind => exact .error (.abstractInjector hshadow hi hkind)
  split
  · exact .ok trivial
  next hdisabled =>
  have henabled : i.disabled = false := Bool.not_eq_true _ ▸ hdisabled
  split
  · next x hfind =>
    have hbase : x.kind = .base := by simpa using List.find?_some hfind
    exact .error (.abstractSelector hi henabled (List.mem_of_find?_eq_some hfind) hbase)
  split
  · next htargets => exact .error (.noTargets hi henabled (List.isEmpty_iff.mp htargets))
  · exact .ok trivial

/-- **A method is refused for what is wrong with it.** -/
theorem yields_scanMethod (d : Mixin) (m : MixinMethod) (s : ScanState) :
    Yields (fun _ => True) (m.Fault d.name) (scanMethod d s m).outcome := by
  unfold scanMethod
  dsimp only
  split
  · next hinjectors => exact .error (.multipleInjectors (by simp [hinjectors]))
  · exact .ok trivial
  · next i hinjectors =>
    split
    · next hshadow => exact .error (.shadowInjector hshadow (by simp [hinjectors]))
    · next hshadow =>
      exact yields_scanInjector _ (Bool.not_eq_true _ ▸ hshadow) (by simp [hinjectors])

/-! ## §3. One declaration. -/

/-- A declaration makes sense in a program. -/
structure Mixin.Acceptable (d : Mixin) (program : Program) : Prop where
  methods : ∀ m ∈ d.methods, m.Acceptable
  targets : d.injections ≠ [] → targetClasses program d ≠ []

/-- The injectors that are not disabled, with their methods. -/
def Mixin.enabled (d : Mixin) : List (MixinMethod × Injector) :=
  d.methods.flatMap fun m => (m.injectors.filter (!·.disabled)).map (m, ·)

/-- What can be wrong with a declaration, and what a scan says then. -/
inductive Mixin.Fault (d : Mixin) (program : Program) : WeaveError → Prop where
  | method {m : MixinMethod} {e : WeaveError} (hm : m ∈ d.methods) (h : m.Fault d.name e) :
    d.Fault program e
  | noTargetClasses (henabled : d.enabled ≠ []) (h : ∀ c ∈ d.targets, program.hasClass c = false) :
    d.Fault program (.noTargetClasses d.name)

/-- A method that makes sense becomes a patch exactly if it has an injector that is not disabled. -/
theorem MixinMethod.Acceptable.toList_active? {m : MixinMethod} (h : m.Acceptable) :
    m.active?.toList = m.injectors.filter (!·.disabled) := by
  unfold active?
  match hinjectors : m.injectors with
  | [] => simp
  | _ :: _ :: _ =>
    have := h.single
    simp [hinjectors] at this
  | [i] =>
    have hshadow : m.shadow = false := by
      by_contra hshadow
      simp [h.notBoth (by simpa using hshadow)] at hinjectors
    cases hdisabled : i.disabled <;> simp [hshadow, Option.filter, hdisabled]

/-- Where methods make sense, those that become patches are those with an injector that is not
disabled. -/
theorem Mixin.enabled_eq_injections {d : Mixin} (h : ∀ m ∈ d.methods, m.Acceptable) :
    d.enabled = d.injections := by
  unfold enabled injections injectionsOf
  rw [List.filterMap_eq_flatMap_toList]
  refine List.flatMap_congr fun m hm => ?_
  rw [← (h m hm).toList_active?]
  cases m.active? <;> rfl

theorem mem_targetClasses {program : Program} {d : Mixin} {c : ClassName} :
    c ∈ targetClasses program d ↔ c ∈ d.targets ∧ program.hasClass c = true := by
  simp [targetClasses]

theorem targetClasses_eq_nil_iff {program : Program} {d : Mixin} :
    targetClasses program d = [] ↔ ∀ c ∈ d.targets, program.hasClass c = false := by
  simp [List.eq_nil_iff_forall_not_mem, mem_targetClasses]

/-- What methods of a declaration add to a scan. -/
theorem foldl_record (d : Mixin) (methods : List MixinMethod) (s : ScanState) :
    methods.foldl (ScanState.record d) s = {
      patches := s.patches ++ d.patchesOf s.patches.length (injectionsOf methods)
      info := { s.info with
        patches := s.info.patches ++ List.range' s.patches.length (injectionsOf methods).length
        copied := s.info.copied ++ d.refsOf false methods
        shadowMethods := s.info.shadowMethods ++ d.refsOf true methods } } := by
  induction methods generalizing s with
  | nil => simp [Mixin.patchesOf, injectionsOf, Mixin.refsOf]
  | cons m rest ih =>
    rw [List.foldl_cons, ih]
    unfold ScanState.record
    cases hshadow : m.shadow with
    | true =>
      have hactive : m.active? = none := by simp [MixinMethod.active?, hshadow]
      simp [ScanState.addShadow, injectionsOf, Mixin.refsOf, hshadow, hactive]
    | false =>
      cases hactive : m.active? with
      | none => simp [ScanState.addCopied, injectionsOf, Mixin.refsOf, hshadow, hactive]
      | some i =>
        -- the patch gets the next number, and those behind it are numbered from there on
        simp [ScanState.addCopied, ScanState.addPatch, Mixin.patchesOf, injectionsOf,
          Mixin.refsOf, hshadow, hactive, List.mapIdx_cons, List.range'_succ, Mixin.patch,
          Nat.add_assoc, Nat.add_comm 1]

/-- What a declaration adds to a registry. -/
def Registry.record (program : Program) (r : Registry) (d : Mixin) : Registry where
  mixins := r.mixins ++ [d.info program r.patches.length]
  patches := r.patches ++ d.patches r.patches.length

/-- A declaration is let through if it makes sense, and is recorded then. -/
theorem scanMixin_eq_ok_iff {program : Program} {r r' : Registry} {d : Mixin} :
    (scanMixin program r d).outcome = .ok r' ↔ d.Acceptable program ∧ r.record program d = r' := by
  unfold scanMixin
  simp only [Traced.outcome_bind, Traced.outcome_note, Traced.outcome_tell, ok_bind,
    Traced.outcome_foldlM]
  rw [bind_eq_ok_iff]
  have hstep : ∀ s m s', (scanMethod d s m).outcome = .ok s' ↔ m.Acceptable ∧ s.record d m = s' :=
    fun s m s' => scanMethod_eq_ok_iff
  simp only [foldlM_eq_ok_iff hstep, foldl_record]
  -- whether any patches were found is whether any methods become patches
  have hpatches : (List.range' r.patches.length (injectionsOf d.methods).length).isEmpty
      = d.injections.isEmpty := by
    show _ = (injectionsOf d.methods).isEmpty
    cases injectionsOf d.methods <;> rfl
  constructor
  · rintro ⟨s, ⟨hmethods, rfl⟩, h⟩
    dsimp only at h
    rw [List.nil_append, hpatches] at h
    split at h
    · contradiction
    · next hnone =>
      obtain rfl := Except.ok.inj h
      refine ⟨⟨hmethods, fun hinjections htargets => hnone ⟨?_, ?_⟩⟩, rfl⟩
      · simpa using hinjections
      · simpa using htargets
  · rintro ⟨⟨hmethods, htargets⟩, rfl⟩
    refine ⟨_, ⟨hmethods, rfl⟩, ?_⟩
    dsimp only
    rw [List.nil_append, hpatches, if_neg]
    · rfl
    · rintro ⟨hinjections, hclasses⟩
      exact htargets (by simpa using hinjections) (by simpa using hclasses)

/-- **A declaration is refused for what is wrong with it.** -/
theorem yields_scanMixin (program : Program) (r : Registry) (d : Mixin) :
    Yields (fun _ => d.Acceptable program) (d.Fault program) (scanMixin program r d).outcome := by
  have hstep : ∀ s m s', (scanMethod d s m).outcome = .ok s' ↔ m.Acceptable ∧ s.record d m = s' :=
    fun s m s' => scanMethod_eq_ok_iff
  have hmethods (s : ScanState) : Yields (fun s' => (∀ m ∈ d.methods, m.Acceptable)
      ∧ d.methods.foldl (ScanState.record d) s = s') (d.Fault program)
      (d.methods.foldlM (fun s m => (scanMethod d s m).outcome) s) := by
    have hfold : Yields (fun _ => True) (d.Fault program)
        (d.methods.foldlM (fun s m => (scanMethod d s m).outcome) s) := by
      refine .foldlM (fun _ _ => True) trivial fun done m rest s heq _ => ?_
      exact (yields_scanMethod d m s).mono (fun _ h => h) fun _ h => .method (by simp [heq]) h
    exact (Yields.of_errors fun _ he => hfold.of_error he).mono
      (fun _ hs => (foldlM_eq_ok_iff hstep).mp hs) fun _ he => he
  have hscan : Yields (fun _ => True) (d.Fault program) (scanMixin program r d).outcome := by
    unfold scanMixin
    simp only [Traced.outcome_bind, Traced.outcome_note, Traced.outcome_tell, ok_bind,
      Traced.outcome_foldlM]
    refine (hmethods _).bind fun s ⟨hacceptable, hs⟩ => ?_
    rw [foldl_record] at hs
    subst hs
    split
    · next hnowhere =>
      -- patches were found, so there are injectors that are not disabled
      obtain ⟨hpatches, hclasses⟩ := hnowhere
      refine .error (.noTargetClasses (fun hnone => hpatches ?_)
        (targetClasses_eq_nil_iff.mp (List.isEmpty_iff.mp hclasses)))
      rw [Mixin.enabled_eq_injections hacceptable, Mixin.injections] at hnone
      simp [hnone]
    · exact .ok trivial
  exact (Yields.of_errors fun _ he => hscan.of_error he).mono
    (fun _ h => (scanMixin_eq_ok_iff.mp h).1) fun _ he => he

/-! ## §4. All declarations. -/

/-- How many patches declarations make. -/
def patchCount (mixins : List Mixin) : Nat := (mixins.map (·.injections.length)).sum

/-- What declarations contribute whose patches are numbered from `first` on. -/
def infosFrom (program : Program) : PatchId → List Mixin → List MixinInfo
  | _, [] => []
  | first, d :: rest => d.info program first :: infosFrom program (first + d.injections.length) rest

/-- The patches of declarations, numbered from `first` on. -/
def patchesFrom : PatchId → List Mixin → List Patch
  | _, [] => []
  | first, d :: rest => d.patches first ++ patchesFrom (first + d.injections.length) rest

/-- The registry that declarations make. -/
def scanned (program : Program) (mixins : List Mixin) : Registry :=
  ⟨infosFrom program 0 mixins, patchesFrom 0 mixins⟩

theorem foldl_recordMixins (program : Program) (mixins : List Mixin) (r : Registry) :
    mixins.foldl (Registry.record program) r
      = ⟨r.mixins ++ infosFrom program r.patches.length mixins,
          r.patches ++ patchesFrom r.patches.length mixins⟩ := by
  induction mixins generalizing r with
  | nil => simp [infosFrom, patchesFrom]
  | cons d rest ih => simp [ih, Registry.record, infosFrom, patchesFrom]

/-- **A scan lets declarations through exactly if each of them makes sense**, and then finds what
they say. -/
theorem scan_eq_ok_iff {program : Program} {mixins : List Mixin} {r : Registry} :
    (Registry.scan program mixins).outcome = .ok r ↔
      (∀ d ∈ mixins, d.Acceptable program) ∧ r = scanned program mixins := by
  unfold Registry.scan
  have hstep : ∀ r d r', (scanMixin program r d).outcome = .ok r'
      ↔ d.Acceptable program ∧ r.record program d = r' := fun r d r' => scanMixin_eq_ok_iff
  have hfound : mixins.foldl (Registry.record program) ⟨[], []⟩ = scanned program mixins := by
    rw [foldl_recordMixins]
    simp [scanned]
  simp only [Traced.outcome_bind, Traced.outcome_note, Traced.outcome_foldlM, bind_eq_ok_iff,
    foldlM_eq_ok_iff hstep, hfound]
  constructor
  · rintro ⟨r', ⟨hall, rfl⟩, -, -, heq⟩
    exact ⟨hall, (Except.ok.inj heq).symm⟩
  · rintro ⟨hall, rfl⟩
    exact ⟨_, ⟨hall, rfl⟩, (), trivial, rfl⟩

/-- What can go wrong in a scan. -/
inductive ScanFailure : WeaveError → Prop where
  | multipleInjectors (m : MethodRef) : ScanFailure (.multipleInjectors m)
  | shadowInjector (m : MethodRef) : ScanFailure (.shadowInjector m)
  | abstractInjector (patch : String) : ScanFailure (.abstractInjector patch)
  | abstractSelector (selector : String) : ScanFailure (.abstractSelector selector)
  | noTargets (patch : String) : ScanFailure (.noTargets patch)
  | noTargetClasses (mixin : ClassName) : ScanFailure (.noTargetClasses mixin)

/-- What is wrong with a declaration is something that can go wrong in a scan. -/
theorem Mixin.Fault.scanFailure {d : Mixin} {program : Program} {e : WeaveError}
    (h : d.Fault program e) : ScanFailure e := by
  cases h with
  | method hm h => cases h <;> constructor
  | noTargetClasses => constructor

/-- What is wrong with the first declaration that does not make sense. -/
def FirstFault (program : Program) (mixins : List Mixin) (e : WeaveError) : Prop :=
  ∃ done d rest, mixins = done ++ d :: rest ∧ (∀ d' ∈ done, d'.Acceptable program)
    ∧ d.Fault program e

/-- **Declarations are refused for what is wrong with the first one that makes no sense.** -/
theorem firstFault_of_scan {program : Program} {mixins : List Mixin} {e : WeaveError}
    (h : (Registry.scan program mixins).outcome = .error e) : FirstFault program mixins e := by
  have hscan : Yields (fun _ => True) (FirstFault program mixins)
      (Registry.scan program mixins).outcome := by
    unfold Registry.scan
    rw [Traced.outcome_bind, Traced.outcome_foldlM]
    refine .bind (.foldlM (fun done _ => ∀ d ∈ done, d.Acceptable program) (by simp)
      fun done d rest r heq hdone => ?_) fun _ _ => .ok trivial
    refine (yields_scanMixin program r d).mono (fun _ hd d' hd' => ?_)
      fun e he => ⟨done, d, rest, heq, hdone, he⟩
    rcases List.mem_append.mp hd' with hd' | hd'
    · exact hdone d' hd'
    · rwa [List.mem_singleton.mp hd']
  exact hscan.of_error h

/-- **The contract of a scan.** -/
theorem yields_scan (program : Program) (mixins : List Mixin) :
    Yields (fun r => (∀ d ∈ mixins, d.Acceptable program) ∧ r = scanned program mixins) ScanFailure
      (Registry.scan program mixins).outcome := by
  refine (Yields.of_errors fun _ he => ?_).mono (fun _ hr => scan_eq_ok_iff.mp hr) fun _ he => he
  obtain ⟨_, _, _, -, -, hfault⟩ := firstFault_of_scan he
  exact hfault.scanFailure

/-! ## §5. Registries of declarations. -/

theorem patchesFrom_append (first : PatchId) (done rest : List Mixin) :
    patchesFrom first (done ++ rest)
      = patchesFrom first done ++ patchesFrom (first + patchCount done) rest := by
  induction done generalizing first with
  | nil => rfl
  | cons d done ih => simp [patchesFrom, patchCount, ih, Nat.add_assoc]

theorem infosFrom_append (program : Program) (first : PatchId) (done rest : List Mixin) :
    infosFrom program first (done ++ rest)
      = infosFrom program first done ++ infosFrom program (first + patchCount done) rest := by
  induction done generalizing first with
  | nil => rfl
  | cons d done ih => simp [infosFrom, patchCount, ih, Nat.add_assoc]

theorem id_eq_of_getElem?_patchesFrom {first k : Nat} {mixins : List Mixin} {p : Patch}
    (h : (patchesFrom first mixins)[k]? = some p) : p.id = first + k := by
  induction mixins generalizing first k with
  | nil => simp [patchesFrom] at h
  | cons d rest ih =>
    rw [patchesFrom, List.getElem?_append, Mixin.length_patches] at h
    split at h
    · exact Mixin.id_eq_of_getElem? h
    · next hge =>
      have hk : d.injections.length + (k - d.injections.length) = k := by omega
      rw [ih h, Nat.add_assoc, hk]

/-- **A patch is numbered by its place.** -/
theorem id_eq_of_patch? {program : Program} {mixins : List Mixin} {id : PatchId} {p : Patch}
    (h : (scanned program mixins).patch? id = some p) : p.id = id := by
  have hid := id_eq_of_getElem?_patchesFrom h
  rwa [Nat.zero_add] at hid

/-- Every patch has its place. -/
theorem patch?_id_of_mem {program : Program} {mixins : List Mixin} {p : Patch}
    (h : p ∈ (scanned program mixins).patches) : (scanned program mixins).patch? p.id = some p := by
  obtain ⟨k, hk⟩ := List.mem_iff_getElem?.mp h
  rw [id_eq_of_patch? hk]
  exact hk

/-- Patches come in the order of their numbers. -/
theorem pairwise_id_patches_scanned (program : Program) (mixins : List Mixin) :
    (scanned program mixins).patches.Pairwise (·.id ≤ ·.id) := by
  refine List.pairwise_iff_getElem.mpr fun i j hi hj hlt => ?_
  have hid : ∀ {k : Nat} (hk : k < (scanned program mixins).patches.length),
      ((scanned program mixins).patches[k]).id = k :=
    fun hk => id_eq_of_patch? (List.getElem?_eq_getElem hk)
  rw [hid hi, hid hj]
  exact Nat.le_of_lt hlt

theorem exists_of_mem_patchesFrom {first : PatchId} {mixins : List Mixin} {p : Patch}
    (h : p ∈ patchesFrom first mixins) :
    ∃ done d rest, mixins = done ++ d :: rest ∧ p ∈ d.patches (first + patchCount done) := by
  induction mixins generalizing first with
  | nil => simp [patchesFrom] at h
  | cons d rest ih =>
    rcases List.mem_append.mp h with h | h
    · exact ⟨[], d, rest, rfl, h⟩
    · obtain ⟨done, d', rest', rfl, hp⟩ := ih h
      refine ⟨d :: done, d', rest', rfl, ?_⟩
      simpa [patchCount, Nat.add_assoc] using hp

/-- **The patches are those of the declarations.** -/
theorem mem_patches_scanned {program : Program} {mixins : List Mixin} {p : Patch} :
    p ∈ (scanned program mixins).patches
      ↔ ∃ done d rest, mixins = done ++ d :: rest ∧ p ∈ d.patches (patchCount done) := by
  constructor
  · intro h
    obtain ⟨done, d, rest, heq, hp⟩ := exists_of_mem_patchesFrom h
    exact ⟨done, d, rest, heq, by rwa [Nat.zero_add] at hp⟩
  · rintro ⟨done, d, rest, rfl, hp⟩
    show p ∈ patchesFrom 0 (done ++ d :: rest)
    rw [patchesFrom_append, patchesFrom, Nat.zero_add]
    simp [hp]

/-- What the registry says of a declaration. -/
theorem mem_mixins_scanned (program : Program) (done : List Mixin) (d : Mixin) (rest : List Mixin) :
    d.info program (patchCount done) ∈ (scanned program (done ++ d :: rest)).mixins := by
  show _ ∈ infosFrom program 0 (done ++ d :: rest)
  rw [infosFrom_append, infosFrom, Nat.zero_add]
  simp

theorem exists_of_mem_infosFrom {program : Program} {first : PatchId} {mixins : List Mixin}
    {info : MixinInfo} (h : info ∈ infosFrom program first mixins) :
    ∃ done d rest, mixins = done ++ d :: rest
      ∧ info = d.info program (first + patchCount done) := by
  induction mixins generalizing first with
  | nil => simp [infosFrom] at h
  | cons d rest ih =>
    rcases List.mem_cons.mp h with rfl | h
    · exact ⟨[], d, rest, rfl, rfl⟩
    · obtain ⟨done, d', rest', rfl, hinfo⟩ := ih h
      refine ⟨d :: done, d', rest', rfl, ?_⟩
      simpa [patchCount, Nat.add_assoc] using hinfo

/-- Registries are searched for a name as declarations are. -/
theorem find?_infosFrom (program : Program) (name : ClassName) (first : PatchId)
    (mixins : List Mixin) :
    ((infosFrom program first mixins).find? (·.name = name)).map (·.targetClasses)
      = (mixins.find? (·.name = name)).map (targetClasses program) := by
  induction mixins generalizing first with
  | nil => rfl
  | cons d rest ih =>
    rw [infosFrom, List.find?_cons, List.find?_cons]
    by_cases hname : d.name = name
    · simp [Mixin.info, hname]
    · simpa [Mixin.info, hname] using ih _

/-- **The classes that a patch goes to are those of the first declaration of its mixin's name.** -/
theorem targetClasses_mixinOf? (program : Program) (mixins : List Mixin) (p : Patch) :
    ((scanned program mixins).mixinOf? p).map (·.targetClasses)
      = (mixins.find? (·.name = p.mixin)).map (targetClasses program) :=
  find?_infosFrom program p.mixin 0 mixins

end PatchWeaver

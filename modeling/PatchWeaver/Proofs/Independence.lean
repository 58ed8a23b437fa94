/-
  PatchWeaver.Proofs.Independence
  ───────────────────────────────
  **MIXINS WITHOUT A COMMON TARGET DO NOT MEET.**

  Where names are distinct and no class is a target of two declarations, a
  run deals with every target class as if the declaration that targets it
  were alone:

      run on d₀, d₁, d₂      at a target of d₁
      run on d₁              at the same class

  What differs is the numbers of the patches of `d₁`, which are higher by the
  number of patches before them, and they do not matter
  (`Splicer.Renumbers.weaves`).  The copies on a class are looked up and
  declared by their class, so those on other classes do not matter either
  (`CopyTable.find_congr`).

  Main results:
    * `Independent.selected_iff` — the same is selected.
    * `Independent.filter_copies` — the same copies are made.
    * `Independent.remakes_iff` — the same bodies are woven.
    * `Independent.feasible_iff` — a run succeeds where each one does.
-/
import PatchWeaver.Proofs.Feasibility
import PatchWeaver.Proofs.Renumbering

namespace PatchWeaver

/-! ## §1. Independent declarations. -/

/-- Declarations with distinct names, no two of which have a target class in common. -/
structure Independent (mixins : List Mixin) : Prop where
  names : (mixins.map (·.name)).Nodup
  targets : mixins.Pairwise fun d d' => ∀ c ∈ d.targets, c ∉ d'.targets

namespace Independent

variable {mixins mixins' done rest done' rest' : List Mixin} {d d' : Mixin} {n : ClassName}

/-- In which order declarations stand does not matter. -/
theorem perm (h : Independent mixins) (hperm : mixins.Perm mixins') : Independent mixins' where
  names := (hperm.map _).nodup_iff.mp h.names
  targets := hperm.pairwise h.targets fun hdisjoint c hc hc' => hdisjoint c hc' hc

/-- **A class tells which declaration it is a target of**, and where that one stands. -/
theorem eq_of_target (h : Independent (done ++ d :: rest))
    (heq : done ++ d :: rest = done' ++ d' :: rest') (hd : n ∈ d.targets) (hd' : n ∈ d'.targets) :
    done = done' ∧ d = d' := by
  obtain ⟨-, hpairwise, hdone⟩ := List.pairwise_append.mp h.targets
  obtain ⟨hrest, -⟩ := List.pairwise_cons.mp hpairwise
  rcases List.append_eq_append_iff.mp heq with ⟨between, hdone', hmid⟩ | ⟨between, hdone', hmid⟩
  · cases between with
    | nil => exact ⟨by simpa using hdone'.symm, (List.cons.inj hmid).1⟩
    | cons b between =>
      -- the other one would stand behind
      obtain ⟨-, rfl⟩ := List.cons.inj hmid
      exact absurd hd' (hrest d' (by simp) n hd)
  · cases between with
    | nil => exact ⟨by simpa using hdone', (List.cons.inj hmid).1.symm⟩
    | cons b between =>
      subst hdone'
      obtain ⟨rfl, -⟩ := List.cons.inj hmid
      exact absurd hd (hdone d' (by simp) d List.mem_cons_self n hd')

end Independent

/-! ## §2. What is selected. -/

namespace Mixin

/-- The numbers of patches follow from where they start. -/
theorem patches_eq_map (d : Mixin) (first : PatchId) :
    d.patches first = (d.patches 0).map fun p => p.renumber (first + p.id) := by
  refine List.ext_getElem? fun k => ?_
  unfold patches patchesOf
  rw [List.getElem?_map, List.getElem?_mapIdx, List.getElem?_mapIdx]
  cases d.injections[k]? <;> simp [patch, Patch.renumber]

theorem mem_patches_iff {d : Mixin} {first : PatchId} {p : Patch} :
    p ∈ d.patches first ↔ ∃ q ∈ d.patches 0, q.renumber (first + q.id) = p := by
  rw [patches_eq_map, List.mem_map]

end Mixin

section

variable {program : Program} {settings : ShiftSettings} {mixins done rest : List Mixin} {d : Mixin}
  {p : Patch} {m : MethodRef}

theorem mem_patches_single : p ∈ (scanned program [d]).patches ↔ p ∈ d.patches 0 := by
  simp [scanned, patchesFrom]

/-- Where names are distinct, a patch is resolved on the targets of its declaration. -/
theorem resolveTargets_scanned (program : Program)
    (hnames : ((done ++ d :: rest).map (·.name)).Nodup) (hp : p.mixin = d.name) :
    resolveTargets program (scanned program (done ++ d :: rest)) p
      = resolveTargetsOn program (targetClasses program d) p := by
  have hclasses := targetClasses_mixinOf? program (done ++ d :: rest) p
  rw [hp, find?_of_nodup hnames] at hclasses
  obtain ⟨info, hinfo, htargets⟩ := Option.map_eq_some_iff.mp hclasses
  unfold resolveTargets
  rw [hinfo, Option.elim_some, htargets]

theorem resolveTargets_single (program : Program) (hp : p.mixin = d.name) :
    resolveTargets program (scanned program [d]) p
      = resolveTargetsOn program (targetClasses program d) p := by
  have hsingle : ((([] : List Mixin) ++ d :: []).map (·.name)).Nodup := List.nodup_singleton _
  exact resolveTargets_scanned program hsingle hp

/-- A patch goes to the same methods under another number, whatever other declarations there are. -/
theorem resolveTargets_renumber (hnames : ((done ++ d :: rest).map (·.name)).Nodup)
    (hp : p.mixin = d.name) (id : PatchId) :
    resolveTargets program (scanned program (done ++ d :: rest)) (p.renumber id)
      = resolveTargets program (scanned program [d]) p := by
  have hbeside : (p.renumber id).mixin = d.name := hp
  rw [resolveTargets_scanned program hnames hbeside, resolveTargets_single program hp]
  rfl

theorem reaches_renumber (hnames : ((done ++ d :: rest).map (·.name)).Nodup)
    (hp : p.mixin = d.name) (id : PatchId) :
    (scanned program (done ++ d :: rest)).Reaches program (p.renumber id) m
      ↔ (scanned program [d]).Reaches program p m := by
  unfold Registry.Reaches
  rw [resolveTargets_renumber hnames hp]

/-- A patch goes to target classes of its declaration. -/
theorem owner_mem_of_reaches (hp : p.mixin = d.name)
    (h : (scanned program [d]).Reaches program p m) : m.owner ∈ targetClasses program d := by
  obtain ⟨methods, hmethods, hm⟩ := h
  rw [resolveTargets_single program hp] at hmethods
  obtain ⟨c, hc, t, -, hnames⟩ :=
    (((resolveTargetsOn_cases program _ p).resolves methods hmethods).mem_iff m).mp hm
  rwa [hnames.owner_eq]

/-- What is selected for a declaration is selected on its target classes. -/
theorem owner_mem_of_selected {o : Nat} {id : PatchId}
    (h : (scanned program [d]).Selected program settings m o id) :
    m.owner ∈ targetClasses program d := by
  obtain ⟨q, hq, hreaches, -, -⟩ := h
  exact owner_mem_of_reaches (Mixin.exists_of_mem_patches (mem_patches_single.mp hq)).1 hreaches

/-- Whatever is selected, it is for one of the declarations. -/
theorem exists_of_selected (hnames : (mixins.map (·.name)).Nodup) {o : Nat} {id : PatchId}
    (h : (scanned program mixins).Selected program settings m o id) :
    ∃ done d rest, mixins = done ++ d :: rest
      ∧ ∃ id₀, (scanned program [d]).Selected program settings m o id₀
        ∧ patchCount done + id₀ = id := by
  obtain ⟨p, hp, hreaches, hgoes, rfl⟩ := h
  obtain ⟨done, d, rest, rfl, hd⟩ := mem_patches_scanned.mp hp
  obtain ⟨q, hq, rfl⟩ := Mixin.mem_patches_iff.mp hd
  have hname := (Mixin.exists_of_mem_patches hq).1
  have hreaches := (reaches_renumber hnames hname _).mp hreaches
  exact ⟨done, d, rest, rfl, q.id, ⟨q, mem_patches_single.mpr hq, hreaches, hgoes, rfl⟩, rfl⟩

/-- What is selected for a declaration alone is selected beside others. -/
theorem selected_of_alone (hnames : ((done ++ d :: rest).map (·.name)).Nodup) {o : Nat}
    {id : PatchId} (h : (scanned program [d]).Selected program settings m o id) :
    (scanned program (done ++ d :: rest)).Selected program settings m o (patchCount done + id) := by
  obtain ⟨q, hq, hreaches, hgoes, rfl⟩ := h
  have hq := mem_patches_single.mp hq
  refine ⟨q.renumber (patchCount done + q.id), ?_,
    (reaches_renumber hnames (Mixin.exists_of_mem_patches hq).1 _).mpr hreaches, hgoes, rfl⟩
  exact mem_patches_scanned.mpr ⟨done, d, rest, rfl, Mixin.mem_patches_iff.mpr ⟨q, hq, rfl⟩⟩

/-- **In a class of one declaration, that one alone decides what is selected.** -/
theorem Independent.selected_iff (h : Independent (done ++ d :: rest)) (hm : m.owner ∈ d.targets)
    {o : Nat} {id : PatchId} :
    (scanned program (done ++ d :: rest)).Selected program settings m o id
      ↔ ∃ id₀, (scanned program [d]).Selected program settings m o id₀
          ∧ patchCount done + id₀ = id := by
  constructor
  · intro hselected
    obtain ⟨done', d', rest', heq, id₀, halone, hid⟩ := exists_of_selected h.names hselected
    have howner := (mem_targetClasses.mp (owner_mem_of_selected halone)).1
    obtain ⟨rfl, rfl⟩ := h.eq_of_target heq hm howner
    exact ⟨id₀, halone, hid⟩
  · rintro ⟨id₀, hselected, rfl⟩
    exact selected_of_alone h.names hselected

/-- What is known under a number is known beside other declarations, under a higher one. -/
theorem patch?_renumber {id : PatchId} (hp : (scanned program [d]).patch? id = some p) :
    (scanned program (done ++ d :: rest)).patch? (patchCount done + id)
      = some (p.renumber (patchCount done + id)) := by
  obtain rfl := id_eq_of_patch? hp
  have hq : p ∈ d.patches 0 := mem_patches_single.mp (List.mem_of_getElem? hp)
  refine patch?_id_of_mem (p := p.renumber (patchCount done + p.id)) ?_
  exact mem_patches_scanned.mpr ⟨done, d, rest, rfl, Mixin.mem_patches_iff.mpr ⟨p, hq, rfl⟩⟩

/-! ## §3. Copies. -/

/-- The places of a mixin, by the classes and the methods that they pair. -/
theorem MixinInfo.places_eq_map (mixin : MixinInfo) :
    mixin.places = (mixin.targetClasses.flatMap fun c => mixin.copied.map (c, ·)).map
      fun x => ⟨mixin, x.1, x.2⟩ := by
  unfold places placesOn
  rw [List.map_flatMap]
  refine List.flatMap_congr fun c _ => ?_
  rw [List.map_map]
  rfl

/-- Declarations that do not target a class have no places on it. -/
theorem filter_places_eq_nil {n : ClassName} {first : PatchId} (h : ∀ d ∈ mixins, n ∉ d.targets) :
    ((infosFrom program first mixins).flatMap MixinInfo.places).filter (·.owner = n) = [] := by
  refine List.filter_eq_nil_iff.mpr fun p hp howner => ?_
  obtain ⟨hinfo, hclass, -⟩ := mem_places (r := ⟨infosFrom program first mixins, []⟩).mp hp
  obtain ⟨done, d, rest, hmixins, heq⟩ := exists_of_mem_infosFrom hinfo
  rw [heq, of_decide_eq_true howner] at hclass
  exact h d (by simp [hmixins]) (mem_targetClasses.mp hclass).1

/-- The copies on a class are made for the places on it. -/
theorem CopyTable.MadeFor.filter {t : CopyTable} {places : List CopyPlace}
    (h : t.MadeFor program places) (n : ClassName) :
    (places.filter (·.owner = n)).mapM (·.copy program)
      = .ok (t.copies.filter (·.ref.owner = n)) := by
  refine mapM_filter_eq_ok h fun p c hc => ?_
  rw [(CopyPlace.gets_of_copy hc).ref_eq]
  rfl

/-- **The places on a class are those of the declaration that targets it.** -/
theorem Independent.filter_places (h : Independent (done ++ d :: rest)) {n : ClassName}
    (hn : n ∈ d.targets) :
    (scanned program (done ++ d :: rest)).places.filter (·.owner = n)
      = (d.info program (patchCount done)).places.filter (·.owner = n) := by
  obtain ⟨-, hpairwise, hdone⟩ := List.pairwise_append.mp h.targets
  obtain ⟨hrest, -⟩ := List.pairwise_cons.mp hpairwise
  show ((infosFrom program 0 (done ++ d :: rest)).flatMap MixinInfo.places).filter _ = _
  rw [infosFrom_append, infosFrom, Nat.zero_add, List.flatMap_append, List.flatMap_cons,
    List.filter_append, List.filter_append,
    filter_places_eq_nil fun d' hd' hn' => hdone d' hd' d List.mem_cons_self n hn' hn,
    filter_places_eq_nil fun d' hd' => hrest d' hd' n hn]
  simp

/-- The copies on a class do not depend on how patches are numbered. -/
theorem mapM_copy_info (d : Mixin) (first : PatchId) (n : ClassName) :
    ((d.info program first).places.filter (·.owner = n)).mapM (·.copy program)
      = ((d.info program 0).places.filter (·.owner = n)).mapM (·.copy program) := by
  rw [MixinInfo.places_eq_map, MixinInfo.places_eq_map, List.filter_map, List.filter_map,
    List.mapM_map, List.mapM_map]
  -- a copy is made from its class and its method, with the name of the mixin and its shadows
  rfl

/-- **On a class of one declaration, the copies are those of that declaration alone.** -/
theorem Independent.filter_copies (h : Independent (done ++ d :: rest)) {n : ClassName}
    (hn : n ∈ d.targets) {t t₀ : CopyTable}
    (ht : t.MadeFor program (scanned program (done ++ d :: rest)).places)
    (ht₀ : t₀.MadeFor program (scanned program [d]).places) :
    t.copies.filter (·.ref.owner = n) = t₀.copies.filter (·.ref.owner = n) := by
  have halone : (scanned program [d]).places = (d.info program 0).places := List.append_nil _
  have hcopies := ht.filter n
  have hcopies₀ := ht₀.filter n
  rw [h.filter_places hn, mapM_copy_info] at hcopies
  rw [halone] at hcopies₀
  exact Except.ok.inj (hcopies.symm.trans hcopies₀)

/-- On a class of no declaration, there are no copies. -/
theorem filter_copies_eq_nil {n : ClassName} (hn : ∀ d ∈ mixins, n ∉ d.targets) {t : CopyTable}
    (ht : t.MadeFor program (scanned program mixins).places) :
    t.copies.filter (·.ref.owner = n) = [] := by
  have hcopies := ht.filter n
  have hnone : (scanned program mixins).places.filter (·.owner = n) = [] := filter_places_eq_nil hn
  rw [hnone] at hcopies
  exact (Except.ok.inj hcopies).symm

/-- **Copies are looked up by their class**, and copies on other classes do not matter. -/
theorem CopyTable.find_congr {t t' : CopyTable} {n : ClassName}
    (h : t.copies.filter (·.ref.owner = n) = t'.copies.filter (·.ref.owner = n))
    (source : MethodRef) : t.find n source = t'.find n source := by
  have hfind : ∀ u : CopyTable, u.find? n source
      = ((u.copies.filter (·.ref.owner = n)).reverse.find? (·.source = source)).map (·.ref) := by
    intro u
    rw [← List.filter_reverse, List.find?_filter]
    simp [find?]
  unfold find
  rw [hfind, hfind, h]

/-- The methods of a declaration can be copied onto its target classes. -/
def Mixin.Copiable (d : Mixin) (program : Program) : Prop :=
  ∀ c ∈ targetClasses program d, ∀ source ∈ d.copied,
    ∃ copy, makeCopy program (d.info program 0) c source = .ok copy

/-- The copies can be made exactly if those of each declaration can. -/
theorem exists_madeFor_iff :
    (∃ t : CopyTable, t.MadeFor program (scanned program mixins).places)
      ↔ ∀ d ∈ mixins, d.Copiable program := by
  constructor
  · rintro ⟨t, ht⟩ d hd c hc source hsource
    obtain ⟨done, rest, rfl⟩ := List.mem_iff_append.mp hd
    have hplace : ⟨d.info program (patchCount done), c, source⟩
        ∈ (scanned program (done ++ d :: rest)).places :=
      mem_places.mpr ⟨mem_mixins_scanned program done d rest, hc, hsource⟩
    obtain ⟨copy, -, hcopy⟩ := exists_of_mapM_ok ht hplace
    exact ⟨copy, hcopy⟩
  · intro h
    -- a copy that cannot be made belongs to one of the declarations
    cases hall : (scanned program mixins).places.mapM (·.copy program) with
    | ok copies => exact ⟨⟨copies⟩, hall⟩
    | error e =>
      obtain ⟨⟨info, c, source⟩, hp, hfails⟩ := exists_of_mapM_error hall
      obtain ⟨hinfo, hc, hsource⟩ := mem_places.mp hp
      obtain ⟨done, d, rest, rfl, rfl⟩ := exists_of_mem_infosFrom hinfo
      obtain ⟨copy, hcopy⟩ := h d (by simp) c hc source hsource
      have hmade : CopyPlace.copy program ⟨d.info program (0 + patchCount done), c, source⟩
          = .ok copy := hcopy
      rw [hmade] at hfails
      contradiction

/-- Copies can be declared exactly if their places are free, and no two are the same. -/
theorem declarable_iff {t : CopyTable} (ht : t.MadeFor program (scanned program mixins).places) :
    Declarable program t.copies ↔ (copiesAsked program mixins).Nodup
      ∧ ∀ place ∈ copiesAsked program mixins, program.hasMethod place = false := by
  have hrefs : t.copies.map (·.ref) = copiesAsked program mixins := by
    rw [ht.map_ref, map_ref_places]
  rw [← hrefs, List.forall_mem_map]
  constructor
  · exact fun h => ⟨h.distinct, h.free⟩
  · exact fun h => ⟨fun c hc => hasClass_of_mem_copies ht hc, h.2, h.1⟩

/-- **No two declarations ask for one place**, as the places of each are on its target classes. -/
theorem Independent.nodup_copiesAsked_iff (h : Independent mixins) :
    (copiesAsked program mixins).Nodup ↔ ∀ d ∈ mixins, (copiesAsked program [d]).Nodup := by
  have howner : ∀ (d : Mixin) place,
      place ∈ (targetClasses program d).flatMap (fun c => d.copied.map (d.copyRef c)) →
        place.owner ∈ d.targets := by
    intro d place hplace
    obtain ⟨c, hc, hplace⟩ := List.mem_flatMap.mp hplace
    obtain ⟨source, -, rfl⟩ := List.mem_map.mp hplace
    exact (mem_targetClasses.mp hc).1
  unfold copiesAsked
  simp only [List.flatMap_singleton]
  rw [List.nodup_flatMap, and_iff_left]
  refine h.targets.imp fun hdisjoint place hplace hplace' => ?_
  exact hdisjoint _ (howner _ place hplace) (howner _ place hplace')

end

/-! ## §4. Bodies. -/

section

variable {settings : Settings} {program : Program} {mixins done rest : List Mixin} {d : Mixin}
  {m : MethodRef} {woven : Body} {t t₀ : CopyTable}

section

variable {n : ClassName} (debugMarkers : Bool)

/-- The patches of a declaration have higher numbers beside others. -/
theorem Independent.renumbers_up (h : Independent (done ++ d :: rest)) (hn : n ∈ d.targets)
    (ht : t.MadeFor program (scanned program (done ++ d :: rest)).places)
    (ht₀ : t₀.MadeFor program (scanned program [d]).places) :
    Splicer.Renumbers (patchCount done + ·) n
      (fun id => ∃ p, (scanned program [d]).patch? id = some p)
      ⟨debugMarkers, scanned program [d], t₀⟩
      ⟨debugMarkers, scanned program (done ++ d :: rest), t⟩ := by
  refine ⟨rfl, ?_, CopyTable.find_congr (h.filter_copies hn ht ht₀)⟩
  rintro id ⟨p, hp⟩
  exact ⟨p, hp, patch?_renumber hp⟩

/-- The patches of a declaration have lower numbers where it is alone. -/
theorem Independent.renumbers_down (h : Independent (done ++ d :: rest)) (hn : n ∈ d.targets)
    (ht : t.MadeFor program (scanned program (done ++ d :: rest)).places)
    (ht₀ : t₀.MadeFor program (scanned program [d]).places) :
    Splicer.Renumbers (· - patchCount done) n
      (fun id => ∃ id₀ p, (scanned program [d]).patch? id₀ = some p ∧ patchCount done + id₀ = id)
      ⟨debugMarkers, scanned program (done ++ d :: rest), t⟩
      ⟨debugMarkers, scanned program [d], t₀⟩ := by
  refine ⟨rfl, ?_, CopyTable.find_congr (h.filter_copies hn ht ht₀).symm⟩
  rintro _ ⟨id₀, p, hp, rfl⟩
  refine ⟨_, patch?_renumber hp, ?_⟩
  show (scanned program [d]).patch? (patchCount done + id₀ - patchCount done)
    = some (p.renumber (patchCount done + id₀ - patchCount done))
  rw [Nat.add_sub_cancel_left, hp, ← id_eq_of_patch? hp]
  rfl

end

/-- What a declaration alone makes of a method, it makes of it beside others. -/
theorem Independent.remakes_of_alone (h : Independent (done ++ d :: rest))
    (ht : t.MadeFor program (scanned program (done ++ d :: rest)).places)
    (hremakes : Remakes settings program [d] m woven) :
    Remakes settings program (done ++ d :: rest) m woven := by
  -- something is selected in the method, so its class is one of the declaration
  obtain ⟨o, id, hid⟩ := hremakes.exists_selected
  have hm : m.owner ∈ d.targets := (mem_targetClasses.mp (owner_mem_of_selected hid)).1
  obtain ⟨t₀, offsets, run, ht₀, hlists, hne, hweaves⟩ := hremakes
  have hknown : ∀ o id, offsets.Has o id → ∃ p, (scanned program [d]).patch? id = some p := by
    intro o id hhas
    obtain ⟨p, -, hp, -⟩ := patch?_of_selected ((hlists.has_iff o id).mp hhas)
    exact ⟨p, hp⟩
  have hrenumbers := h.renumbers_up settings.debugMarkers hm ht ht₀
  obtain ⟨run', hweaves'⟩ := hrenumbers.weaves hknown hweaves
  refine ⟨t, _, run', ht, (hlists.renumber ?_).congr fun o id => (h.selected_iff hm).symm, ?_,
    hweaves'⟩
  · exact fun _ _ _ _ _ _ hlt => Nat.add_lt_add_left hlt _
  · simpa [Offsets.renumber] using hne

/-- What a declaration makes of a method beside others, it makes of it alone. -/
theorem Independent.alone_of_remakes (h : Independent (done ++ d :: rest))
    (hm : m.owner ∈ d.targets) (ht₀ : t₀.MadeFor program (scanned program [d]).places)
    (hremakes : Remakes settings program (done ++ d :: rest) m woven) :
    Remakes settings program [d] m woven := by
  obtain ⟨t, offsets, run, ht, hlists, hne, hweaves⟩ := hremakes
  -- every number that is selected is one of a patch of the declaration
  have hknown : ∀ o id, offsets.Has o id →
      ∃ id₀ p, (scanned program [d]).patch? id₀ = some p ∧ patchCount done + id₀ = id := by
    intro o id hhas
    obtain ⟨id₀, halone, heq⟩ := (h.selected_iff hm).mp ((hlists.has_iff o id).mp hhas)
    obtain ⟨p, -, hp, -⟩ := patch?_of_selected halone
    exact ⟨id₀, p, hp, heq⟩
  have hrenumbers := h.renumbers_down settings.debugMarkers hm ht ht₀
  obtain ⟨run', hweaves'⟩ := hrenumbers.weaves hknown hweaves
  -- lowering the numbers keeps the order, as none of them is below the first one
  have hlists' := hlists.congr fun o id => h.selected_iff hm
  refine ⟨t₀, _, run', ht₀, (hlists'.renumber ?_).congr fun o id => ?_, ?_, hweaves'⟩
  · rintro _ _ _ _ ⟨id, -, rfl⟩ ⟨id', -, rfl⟩ hlt
    rw [Nat.add_sub_cancel_left, Nat.add_sub_cancel_left]
    exact Nat.lt_of_add_lt_add_left hlt
  · constructor
    · rintro ⟨_, ⟨id₀, halone, rfl⟩, rfl⟩
      rwa [Nat.add_sub_cancel_left]
    · exact fun halone => ⟨_, ⟨id, halone, rfl⟩, Nat.add_sub_cancel_left _ _⟩
  · simpa [Offsets.renumber] using hne

/-- **Every body is one that a declaration alone makes.** -/
theorem Independent.remakes_iff (h : Independent mixins)
    (ht : t.MadeFor program (scanned program mixins).places) :
    Remakes settings program mixins m woven
      ↔ ∃ d ∈ mixins, Remakes settings program [d] m woven := by
  constructor
  · intro hremakes
    obtain ⟨o, id, hid⟩ := hremakes.exists_selected
    obtain ⟨done, d, rest, rfl, id₀, halone, -⟩ := exists_of_selected h.names hid
    have hd : d ∈ done ++ d :: rest := by simp
    obtain ⟨t₀, ht₀⟩ := exists_madeFor_iff.mpr
      (List.forall_mem_singleton.mpr (exists_madeFor_iff.mp ⟨t, ht⟩ d hd))
    exact ⟨d, hd, h.alone_of_remakes (mem_targetClasses.mp (owner_mem_of_selected halone)).1 ht₀
      hremakes⟩
  · rintro ⟨d, hd, halone⟩
    obtain ⟨done, rest, rfl⟩ := List.mem_iff_append.mp hd
    exact h.remakes_of_alone ht halone

/-! ## §5. Feasible runs. -/

theorem selectable_renumber (hnames : ((done ++ d :: rest).map (·.name)).Nodup) {p : Patch}
    (hp : p.mixin = d.name) (id : PatchId) :
    (p.renumber id).Selectable program (scanned program (done ++ d :: rest))
      ↔ p.Selectable program (scanned program [d]) := by
  constructor
  · rintro ⟨hresolves, hanalysed⟩
    rw [resolveTargets_renumber hnames hp] at hresolves
    exact ⟨hresolves, fun m hm => hanalysed m ((reaches_renumber hnames hp id).mpr hm)⟩
  · rintro ⟨hresolves, hanalysed⟩
    rw [← resolveTargets_renumber hnames hp id] at hresolves
    exact ⟨hresolves, fun m hm => hanalysed m ((reaches_renumber hnames hp id).mp hm)⟩

/-- Patches can be selected exactly if those of each declaration alone can. -/
theorem selectable_iff (hnames : (mixins.map (·.name)).Nodup) :
    (∀ p ∈ (scanned program mixins).patches, p.Selectable program (scanned program mixins))
      ↔ ∀ d ∈ mixins, ∀ p ∈ (scanned program [d]).patches,
          p.Selectable program (scanned program [d]) := by
  constructor
  · intro h d hd p hp
    obtain ⟨done, rest, rfl⟩ := List.mem_iff_append.mp hd
    have hp := mem_patches_single.mp hp
    refine (selectable_renumber hnames (Mixin.exists_of_mem_patches hp).1
      (patchCount done + p.id)).mp (h _ ?_)
    exact mem_patches_scanned.mpr ⟨done, d, rest, rfl, Mixin.mem_patches_iff.mpr ⟨p, hp, rfl⟩⟩
  · intro h p hp
    obtain ⟨done, d, rest, rfl, hd⟩ := mem_patches_scanned.mp hp
    obtain ⟨q, hq, rfl⟩ := Mixin.mem_patches_iff.mp hd
    exact (selectable_renumber hnames (Mixin.exists_of_mem_patches hq).1 _).mpr
      (h d (by simp) q (mem_patches_single.mpr hq))

/-- Copies can be made and declared exactly if those of each declaration alone can. -/
theorem Independent.copiable_iff (h : Independent mixins) :
    (∃ t : CopyTable, t.MadeFor program (scanned program mixins).places
        ∧ Declarable program t.copies)
      ↔ ∀ d ∈ mixins, ∃ t : CopyTable, t.MadeFor program (scanned program [d]).places
          ∧ Declarable program t.copies := by
  have hfree : (∀ place ∈ copiesAsked program mixins, program.hasMethod place = false)
      ↔ ∀ d ∈ mixins, ∀ place ∈ copiesAsked program [d], program.hasMethod place = false := by
    unfold copiesAsked
    simp only [List.flatMap_singleton, List.forall_mem_flatMap]
  constructor
  · rintro ⟨t, ht, hdeclarable⟩ d hd
    obtain ⟨t₀, ht₀⟩ := exists_madeFor_iff.mpr
      (List.forall_mem_singleton.mpr (exists_madeFor_iff.mp ⟨t, ht⟩ d hd))
    rw [declarable_iff ht, h.nodup_copiesAsked_iff, hfree] at hdeclarable
    exact ⟨t₀, ht₀, (declarable_iff ht₀).mpr ⟨hdeclarable.1 d hd, hdeclarable.2 d hd⟩⟩
  · -- the copies can be made first, and what they are called decides about the rest
    intro hall
    obtain ⟨t, ht⟩ : ∃ t : CopyTable, t.MadeFor program (scanned program mixins).places := by
      refine exists_madeFor_iff.mpr fun d hd => ?_
      obtain ⟨t₀, ht₀, -⟩ := hall d hd
      exact exists_madeFor_iff.mp ⟨t₀, ht₀⟩ d (List.mem_singleton.mpr rfl)
    refine ⟨t, ht, ?_⟩
    rw [declarable_iff ht, h.nodup_copiesAsked_iff, hfree, ← forall₂_and]
    intro d hd
    obtain ⟨t₀, ht₀, hdeclarable⟩ := hall d hd
    exact (declarable_iff ht₀).mp hdeclarable

/-- **Independent mixins can be woven together exactly if each of them can be woven alone.** -/
theorem Independent.feasible_iff (h : Independent mixins) :
    Feasible settings program mixins ↔ ∀ d ∈ mixins, Feasible settings program [d] := by
  constructor
  -- phase by phase; bodies are compared with those of the whole
  · intro hfeasible d hd
    have hcopiable := h.copiable_iff.mp hfeasible.copiable d hd
    refine ⟨List.forall_mem_singleton.mpr (hfeasible.acceptable d hd),
      (selectable_iff h.names).mp hfeasible.selectable d hd, hcopiable, fun m o id hid => ?_⟩
    obtain ⟨done, rest, rfl⟩ := List.mem_iff_append.mp hd
    obtain ⟨woven, hremakes⟩ := hfeasible.weavable m o _ (selected_of_alone h.names hid)
    obtain ⟨t₀, ht₀, -⟩ := hcopiable
    exact ⟨woven, h.alone_of_remakes (mem_targetClasses.mp (owner_mem_of_selected hid)).1 ht₀
      hremakes⟩
  · intro hall
    have hcopiable := h.copiable_iff.mpr fun d hd => (hall d hd).copiable
    refine ⟨fun d hd => (hall d hd).acceptable d (List.mem_singleton.mpr rfl),
      (selectable_iff h.names).mpr fun d hd => (hall d hd).selectable, hcopiable,
      fun m o id hid => ?_⟩
    obtain ⟨done, d, rest, rfl, id₀, halone, -⟩ := exists_of_selected h.names hid
    obtain ⟨woven, hremakes⟩ := (hall d (by simp)).weavable m o id₀ halone
    obtain ⟨t, ht, -⟩ := hcopiable
    exact ⟨woven, h.remakes_of_alone ht hremakes⟩

end

end PatchWeaver

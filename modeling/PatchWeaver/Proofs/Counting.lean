/-
  PatchWeaver.Proofs.Counting
  ───────────────────────────
  **COUNTS OF A RUN ARE EXACT.**

  A patch that is selected at an instruction is put in there once, however
  many of its selectors lead there; unless it would replace the instruction,
  and another one of higher rank does:

      instructions that the patch is selected at
      − those where it is left out             =  its blocks in new bodies
                                               =  the count reported

  The counters go through all methods one after the other, so the count is
  the sum over the methods; and as each method is spliced once, the sum
  counts every instruction once.

  Main results:
    * `Registry.Ranks.mem_patches_iff` — who is put in at an instruction.
    * `Splicer.Weaves.exists_offsets` — the count of one method.
    * `weave_counts_exactly` — the counts of a run, and its reports of them.
-/
import Mathlib.Data.Finset.Card
import Mathlib.Data.Finset.Prod
import PatchWeaver.Proofs.Blocks
import PatchWeaver.Proofs.Effects
import PatchWeaver.Proofs.Precedence
import PatchWeaver.Proofs.Telling

namespace PatchWeaver

/-! ## §1. Who is put in. -/

/-- A patch of a group is left out: another patch of the group would replace the instruction, too,
and outranks it. -/
structure Registry.Displaced (r : Registry) (group : PatchId → Prop) (id : PatchId) : Prop where
  mem : group id
  replaces : r.PlacedAt .replace id
  outranked : ∃ other, group other ∧ r.PlacedAt .replace other ∧ r.Outranks other id

section

variable {r : Registry} {ids : List PatchId} {plan : SitePlan} {id : PatchId}

namespace Registry

/-- A patch has one placement at most. -/
theorem PlacedAt.unique {p q : Placement} (h : r.PlacedAt p id) (h' : r.PlacedAt q id) : p = q := by
  obtain ⟨patch, hpatch, hp⟩ := h
  obtain ⟨patch', hpatch', hq⟩ := h'
  obtain rfl := Option.some_inj.mp (hpatch.symm.trans hpatch')
  exact Option.some_inj.mp (hp.symm.trans hq)

/-- Of two patches, one outranks the other. -/
theorem PlacedAt.outranks_or {p q : Placement} {other : PatchId} (h : r.PlacedAt p id)
    (h' : r.PlacedAt q other) (hne : id ≠ other) : r.Outranks id other ∨ r.Outranks other id := by
  obtain ⟨patch, hpatch, -⟩ := h
  obtain ⟨patch', hpatch', -⟩ := h'
  rcases Int.lt_trichotomy patch.priority.toInt patch'.priority.toInt with hlt | heq | hgt
  · exact .inr ⟨patch', patch, hpatch', hpatch, .inl hlt⟩
  · rcases Nat.lt_or_gt_of_ne hne with hless | hmore
    · exact .inl ⟨patch, patch', hpatch, hpatch', .inr ⟨heq, hless⟩⟩
    · exact .inr ⟨patch', patch, hpatch', hpatch, .inr ⟨heq.symm, hmore⟩⟩
  · exact .inl ⟨patch, patch', hpatch, hpatch', .inl hgt⟩

namespace Ranks

/-- The patches of a placement in a plan are those of the group that go there, or some of them. -/
theorem of_mem_patchesOf (h : r.Ranks ids plan) {placement : Placement}
    (hid : id ∈ plan.patchesOf placement) : id ∈ ids ∧ r.PlacedAt placement id := by
  cases placement with
  | before => exact (h.before.mem_iff id).mp hid
  | replace =>
    have hwins := (h.replace_iff id).mp (Option.mem_toList.mp hid)
    exact ⟨hwins.mem, hwins.replaces⟩
  | after => exact (h.after.mem_iff id).mp hid

/-- **Who is put in**: every patch of the group that is not left out. -/
theorem mem_patches_iff (h : r.Ranks ids plan)
    (hplaced : ∀ id ∈ ids, ∃ placement, r.PlacedAt placement id) :
    id ∈ plan.patches ↔ id ∈ ids ∧ ¬ r.Displaced (· ∈ ids) id := by
  rw [SitePlan.mem_patches_iff]
  constructor
  · rintro ⟨placement, hid⟩
    obtain ⟨hmem, hplacement⟩ := h.of_mem_patchesOf hid
    refine ⟨hmem, fun hdisplaced => ?_⟩
    -- only a replacing patch can be left out, and the one that is put in is outranked by none
    obtain rfl := hplacement.unique hdisplaced.replaces
    have hwins := (h.replace_iff id).mp (Option.mem_toList.mp hid)
    obtain ⟨other, hother, hreplaces, hover⟩ := hdisplaced.outranked
    have hne : other ≠ id := by
      rintro rfl
      exact hover.asymm hover
    exact hover.asymm (hwins.first other hother hreplaces hne)
  · rintro ⟨hmem, hstays⟩
    obtain ⟨placement, hplacement⟩ := hplaced id hmem
    refine ⟨placement, ?_⟩
    cases placement with
    | before => exact (h.before.mem_iff id).mpr ⟨hmem, hplacement⟩
    | after => exact (h.after.mem_iff id).mpr ⟨hmem, hplacement⟩
    | replace =>
      refine Option.mem_toList.mpr ((h.replace_iff id).mpr ⟨hmem, hplacement, ?_⟩)
      intro other hother hreplaces hne
      exact (hplacement.outranks_or hreplaces hne.symm).resolve_right fun hover =>
        hstays ⟨hmem, hplacement, other, hother, hreplaces, hover⟩

/-- Nobody is put in twice. -/
theorem nodup_patches (h : r.Ranks ids plan) : plan.patches.Nodup := by
  have hapart : ∀ {p q : Placement}, p ≠ q →
      ∀ a ∈ plan.patchesOf p, ∀ b ∈ plan.patchesOf q, a ≠ b := by
    rintro p q hpq a ha b hb rfl
    exact hpq ((h.of_mem_patchesOf ha).2.unique (h.of_mem_patchesOf hb).2)
  have hreplace : plan.replace.toList.Nodup := by
    cases plan.replace <;> simp
  unfold SitePlan.patches
  refine List.nodup_append.mpr ⟨List.nodup_append.mpr ⟨h.before.once, hreplace,
    hapart (p := .before) (q := .replace) (by simp)⟩, h.after.once, fun a ha b hb => ?_⟩
  rcases List.mem_append.mp ha with ha | ha
  · exact hapart (p := .before) (q := .after) (by simp) a ha b hb
  · exact hapart (p := .replace) (q := .after) (by simp) a ha b hb

end Ranks

/-- The plan of every offset is by rank. -/
theorem ranks_at {m : MethodRef} {offsets : Offsets} {plans : SitePlans} {o : Nat}
    (hplans : (r.resolveMethod m offsets).outcome = .ok plans) (htidy : offsets.Tidy)
    (hordered : offsets.Ordered) (hmem : (o, ids) ∈ offsets)
    (hknown : ∀ id ∈ ids, ∃ p, r.patch? id = some p) : r.Ranks ids (plans.at o) := by
  obtain ⟨ids', contenders, hids', hcontenders, hplan⟩ :=
    exists_of_mem_plans hplans (mem_plans_at hplans hmem)
  obtain ⟨-, rfl⟩ := Prod.mk.inj (List.inj_on_of_nodup_map htidy.ascending.nodup hmem hids' rfl)
  obtain ⟨contenders', hcontenders', hids⟩ := exists_contenders hknown
  obtain rfl := Except.ok.inj (hcontenders.symm.trans hcontenders')
  rw [hplan]
  exact ranks_planOf hcontenders hids (hordered _ hmem)

end Registry

end

/-! ## §2. One method. -/

/-- A patch is put in at an instruction: it is selected there, and not left out. -/
def Registry.Applied (r : Registry) (program : Program) (settings : ShiftSettings) (m : MethodRef)
    (o : Nat) (id : PatchId) : Prop :=
  r.Selected program settings m o id ∧ ¬ r.Displaced (r.Selected program settings m o) id

section

variable {program : Program} {settings : ShiftSettings} {mixins : List Mixin}
  {selection : Selection} {m : MethodRef} {offsets : Offsets} {plans : SitePlans} {id : PatchId}

/-- **The plan of an instruction has the patches that are put in there**, each once. -/
theorem plan_applies (hchoice : (scanned program mixins).Choice program settings selection)
    (hmem : (m, offsets) ∈ selection.methods)
    (hplans : ((scanned program mixins).resolveMethod m offsets).outcome = .ok plans) (o : Nat) :
    (plans.at o).patches.Nodup ∧ ∀ id, id ∈ (plans.at o).patches
      ↔ (scanned program mixins).Applied program settings m o id := by
  have hlists := hchoice.holds.lists hchoice.ordered hmem
  by_cases hoffset : ∃ ids, (o, ids) ∈ offsets
  · obtain ⟨ids, hids⟩ := hoffset
    have hgroup : (· ∈ ids) = (scanned program mixins).Selected program settings m o := by
      funext id
      exact propext (hlists.mem_ids_iff hids)
    have hselected : ∀ id ∈ ids, ∃ placement, (scanned program mixins).PlacedAt placement id := by
      intro id hid
      obtain ⟨patch, -, hfound, -, hgoes⟩ := patch?_of_selected ((hlists.mem_ids_iff hids).mp hid)
      obtain ⟨-, -, -, -, -, -, hmethod, -⟩ := hgoes.validated
      obtain ⟨placement, hplacement⟩ := exists_placement_of_validateMethod hmethod
      exact ⟨placement, patch, hfound, hplacement⟩
    have hknown : ∀ id ∈ ids, ∃ p, (scanned program mixins).patch? id = some p := fun id hid =>
      (hselected id hid).elim fun _ h => h.imp fun _ h => h.1
    have hranks := Registry.ranks_at hplans hlists.tidy hlists.ordered hids hknown
    refine ⟨hranks.nodup_patches, fun id => ?_⟩
    rw [hranks.mem_patches_iff hselected, hgroup, hlists.mem_ids_iff hids]
    rfl
  · -- nothing is selected at other instructions, and nothing is planned there
    have hnone : ∀ id, id ∉ (plans.at o).patches := by
      intro id hid
      obtain ⟨placement, hid⟩ := SitePlan.mem_patches_iff.mp hid
      obtain ⟨ids, -, hids, -⟩ := exists_of_mem_patchesOf hplans hid
      exact hoffset ⟨ids, hids⟩
    refine ⟨by simp [List.eq_nil_iff_forall_not_mem.mpr hnone], fun id => ?_⟩
    refine ⟨fun hid => absurd hid (hnone id), fun happlied => ?_⟩
    obtain ⟨ids, hids, -⟩ := (hlists.has_iff o id).mpr happlied.1
    exact absurd ⟨ids, hids⟩ hoffset

theorem flatMap_patches_filter (plans : List SitePlan) :
    (plans.filter (!·.isEmpty)).flatMap SitePlan.patches = plans.flatMap SitePlan.patches := by
  induction plans with
  | nil => rfl
  | cons plan rest ih =>
    cases hempty : plan.isEmpty with
    | true =>
      rw [List.filter_cons_of_neg (by simp [hempty]), ih, List.flatMap_cons,
        plan.isEmpty_iff_patches_eq_nil.mp hempty, List.nil_append]
    | false => rw [List.filter_cons_of_pos (by simp [hempty]), List.flatMap_cons, ih,
        List.flatMap_cons]

/-- **A run applies the patches of all plans**, instruction by instruction. -/
theorem Splicer.applied_splice {s : Splicer} {body woven : Body} {depths : Depths}
    (h : (s.splice m body depths plans).outcome = .ok woven) :
    (s.splice m body depths plans).applied
      = (List.range body.length).flatMap fun o => (plans.at o).patches := by
  obtain ⟨spliced, hspliced, -⟩ := bind_eq_ok_iff.mp h
  have hsteps := plans_of_steps hspliced
  calc (s.splice m body depths plans).applied
      = ((s.spliceFrom m depths plans body.length 0 0 body).steps.map (·.plan)).flatMap
          SitePlan.patches := by
        rw [List.flatMap_map]
        rfl
    _ = ((List.range' 0 body.length).map plans.at).flatMap SitePlan.patches := by
        rw [hsteps, flatMap_patches_filter]
    _ = (List.range body.length).flatMap fun o => (plans.at o).patches := by
        rw [List.flatMap_map, ← List.range_eq_range']

/-- Counting in lists without repetition counts the lists. -/
theorem count_flatMap_range {f : Nat → List PatchId} (h : ∀ o, (f o).Nodup) (n : Nat) :
    ((List.range n).flatMap f).count id = ((Finset.range n).filter (id ∈ f ·)).card := by
  induction n with
  | zero => rfl
  | succ n ih =>
    rw [List.range_succ, List.flatMap_append, List.count_append, ih, List.flatMap_singleton,
      (h n).count, Finset.range_add_one, Finset.filter_insert]
    split
    · rw [Finset.card_insert_of_notMem (by simp)]
    · rfl

/-- **The count of one method**: a patch is applied as often as there are instructions that it is
put in at. -/
theorem Splicer.Weaves.exists_offsets {debugMarkers : Bool} {copies : CopyTable} {run : SpliceRun}
    {woven : Body} (hchoice : (scanned program mixins).Choice program settings selection)
    (hmem : (m, offsets) ∈ selection.methods)
    (h : Weaves ⟨debugMarkers, scanned program mixins, copies⟩ program (m, offsets) run woven)
    (id : PatchId) :
    ∃ applied : Finset Nat,
      (∀ o, o ∈ applied ↔ (scanned program mixins).Applied program settings m o id)
        ∧ run.applied.count id = applied.card := by
  obtain ⟨body, depths, plans, hbody, -, hplans, rfl, hok⟩ := h
  have hplan := plan_applies hchoice hmem hplans
  refine ⟨(Finset.range body.length).filter fun o => id ∈ (plans.at o).patches, fun o => ?_, ?_⟩
  · rw [Finset.mem_filter, Finset.mem_range, (hplan o).2 id, and_iff_right_iff_imp]
    intro happlied
    obtain ⟨patch, -, -, -, hgoes⟩ := patch?_of_selected happlied.1
    obtain ⟨body', -, hbody', -, hlt, -⟩ := hgoes.validated
    obtain rfl := Option.some_inj.mp (hbody.symm.trans hbody')
    exact hlt
  · rw [applied_splice hok]
    exact count_flatMap_range (fun o => (hplan o).1) body.length

end

/-! ## §3. All methods. -/

/-- A method that gets a new body, with the run that makes it and the containers in pieces. -/
structure Rewoven where
  method : MethodRef
  run : SpliceRun
  pieces : List (List (Option PatchId × List Entry))

/-- The number of blocks of a patch in a new body. -/
def Rewoven.blocks (x : Rewoven) (id : PatchId) : Nat := x.pieces.flatten.countP (·.1 == some id)

/-- A method has got the body that its run comes to, with these containers. -/
structure Splicer.Rewove (s : Splicer) (program after : Program) (x : Rewoven) : Prop where
  weaves : ∃ offsets woven, s.Weaves program (x.method, offsets) x.run woven
    ∧ after.body? x.method = some woven
  carves : List.Forall₂ (s.Carves x.method) x.run.steps x.pieces

/-- **A patch has as many blocks as it was applied times.** -/
theorem Splicer.blocks_eq {s : Splicer} {x : Rewoven}
    (h : List.Forall₂ (s.Carves x.method) x.run.steps x.pieces) (id : PatchId) :
    x.blocks id = x.run.applied.count id := by
  obtain ⟨method, ⟨steps, outcome⟩, pieces⟩ := x
  unfold Rewoven.blocks SpliceRun.applied
  dsimp only at h ⊢
  induction h with
  | nil => rfl
  | cons hcarves _ ih =>
    obtain ⟨depth, kept, hsplits⟩ := hcarves
    rw [List.flatten_cons, List.countP_append, ih, List.flatMap_cons, List.count_append,
      hsplits.ids_eq, List.count_filterMap]

/-- Every application counts, once. -/
theorem Counts.of_add {counts : Counts} {id : PatchId} (hid : id < counts.length)
    (ids : List PatchId) : (counts.add ids).of id = counts.of id + ids.count id := by
  unfold add
  induction ids generalizing counts with
  | nil => rfl
  | cons first rest ih =>
    rw [List.foldl_cons, ih (by rwa [List.length_modify]), List.count_cons]
    have hfirst : Counts.of (counts.modify first (· + 1)) id
        = counts.of id + if first == id then 1 else 0 := by
      unfold Counts.of
      rw [List.getD_eq_getElem?_getD, List.getD_eq_getElem?_getD, List.getElem?_modify,
        List.getElem?_eq_getElem hid]
      by_cases heq : first = id <;> simp [heq]
    rw [hfirst]
    omega

section

variable {program : Program} {s : Splicer} {done : List (MethodRef × Offsets)} {made : Spliced}

/-- **Counters go through the methods that get new bodies**, one after the other. -/
theorem Spliced.MadeFor.exists_rewoven (h : MadeFor program s done made) :
    ∃ rewoven : List Rewoven, rewoven.map (·.method) = done.map (·.1)
      ∧ (∀ x ∈ rewoven, ∃ offsets woven, (x.method, offsets) ∈ done
        ∧ (x.method, woven) ∈ made.bodies ∧ s.Weaves program (x.method, offsets) x.run woven
        ∧ List.Forall₂ (s.Carves x.method) x.run.steps x.pieces)
      ∧ ∀ id < s.registry.patches.length,
        made.counts.of id = (rewoven.map (·.run.applied.count id)).sum := by
  induction h with
  | nil =>
    refine ⟨[], rfl, List.forall_mem_nil _, fun id hid => ?_⟩
    simp [Counts.of, hid]
  | @snoc done made selected run woven before weaves ih =>
    obtain ⟨rewoven, hmethods, hrewoven, hcounts⟩ := ih
    obtain ⟨pieces, hpieces⟩ : ∃ pieces, List.Forall₂ (s.Carves selected.1) run.steps pieces := by
      obtain ⟨body, depths, plans, -, -, -, rfl, -⟩ := weaves
      exact Splicer.exists_pieces_of_spliceFrom selected.1 depths plans body.length 0 0 body
    refine ⟨rewoven ++ [⟨selected.1, run, pieces⟩], by simp [hmethods], ?_, fun id hid => ?_⟩
    · refine List.forall_mem_append.mpr ⟨fun x hx => ?_, List.forall_mem_singleton.mpr ?_⟩
      · obtain ⟨offsets, woven', hdone, hbody, hx⟩ := hrewoven x hx
        exact ⟨offsets, woven', List.mem_append_left _ hdone, List.mem_append_left _ hbody, hx⟩
      · exact ⟨selected.2, woven, by simp, by simp, weaves, hpieces⟩
    · rw [Counts.of_add (by rwa [before.length_counts]), hcounts id hid]
      simp

end

/-- Counts of distinct methods, each of instructions in it, add up to one of instructions. -/
theorem exists_pairs (P : MethodRef → Nat → Prop) (n : Rewoven → Nat) {rewoven : List Rewoven}
    (hdistinct : (rewoven.map (·.method)).Nodup)
    (hcount : ∀ x ∈ rewoven, ∃ offsets : Finset Nat,
      (∀ o, o ∈ offsets ↔ P x.method o) ∧ n x = offsets.card) :
    ∃ pairs : Finset (MethodRef × Nat),
      (∀ m o, (m, o) ∈ pairs ↔ m ∈ rewoven.map (·.method) ∧ P m o)
        ∧ (rewoven.map n).sum = pairs.card := by
  induction rewoven with
  | nil => exact ⟨∅, by simp, rfl⟩
  | cons x rest ih =>
    rw [List.map_cons, List.nodup_cons] at hdistinct
    obtain ⟨⟨offsets, hoffsets, hfirst⟩, hrest⟩ := List.forall_mem_cons.mp hcount
    obtain ⟨pairs, hpairs, hsum⟩ := ih hdistinct.2 hrest
    -- the method comes but once, so none of its instructions is counted already
    have hapart : Disjoint ({x.method} ×ˢ offsets) pairs := by
      refine Finset.disjoint_left.mpr ?_
      rintro ⟨m, o⟩ hnew hold
      obtain rfl := Finset.mem_singleton.mp (Finset.mem_product.mp hnew).1
      exact hdistinct.1 ((hpairs _ o).mp hold).1
    refine ⟨({x.method} ×ˢ offsets) ∪ pairs, fun m o => ?_, ?_⟩
    · rw [Finset.mem_union, Finset.mem_product, Finset.mem_singleton, hpairs, List.map_cons,
        List.mem_cons, or_and_right]
      refine or_congr_left (and_congr_right ?_)
      rintro rfl
      exact hoffsets o
    · rw [List.map_cons, List.sum_cons, hsum, Finset.card_union_of_disjoint hapart,
        Finset.card_product, Finset.card_singleton, Nat.one_mul, hfirst]

/-- **The count of all methods**: the number of instructions that a patch is put in at. -/
theorem exists_applied {program : Program} {settings : ShiftSettings} {mixins : List Mixin}
    {selection : Selection} {debugMarkers : Bool} {copies : CopyTable} {rewoven : List Rewoven}
    (hchoice : (scanned program mixins).Choice program settings selection)
    (hmethods : rewoven.map (·.method) = selection.methods.map (·.1))
    (hweaves : ∀ x ∈ rewoven, ∃ offsets woven, (x.method, offsets) ∈ selection.methods
      ∧ Splicer.Weaves ⟨debugMarkers, scanned program mixins, copies⟩ program (x.method, offsets)
          x.run woven) (id : PatchId) :
    ∃ applied : Finset (MethodRef × Nat),
      (∀ m o, (m, o) ∈ applied ↔ (scanned program mixins).Applied program settings m o id)
        ∧ (rewoven.map (·.run.applied.count id)).sum = applied.card := by
  have hdistinct : (rewoven.map (·.method)).Nodup := by
    rw [hmethods]
    exact hchoice.holds.tidy.distinct
  obtain ⟨applied, happlied, hsum⟩ := exists_pairs
    (fun m o => (scanned program mixins).Applied program settings m o id)
    (·.run.applied.count id) hdistinct fun x hx => by
      obtain ⟨offsets, woven, hmem, hx⟩ := hweaves x hx
      exact hx.exists_offsets hchoice hmem id
  refine ⟨applied, fun m o => (happlied m o).trans (and_iff_right_of_imp fun hplaced => ?_), hsum⟩
  -- a method that a patch is put into is one of the selection
  obtain ⟨offsets, hmem, -⟩ := (hchoice.holds.selects_iff m o id).mpr hplaced.1
  rw [hmethods]
  exact List.mem_map_of_mem hmem

/-- A patch is selected at finitely many instructions. -/
theorem Selection.exists_pairs (s : Selection) (id : PatchId) :
    ∃ pairs : Finset (MethodRef × Nat), ∀ m o, (m, o) ∈ pairs ↔ s.Selects m o id := by
  refine ⟨(s.methods.flatMap fun x =>
    (x.2.filter (id ∈ ·.2)).map fun y => (x.1, y.1)).toFinset, fun m o => ?_⟩
  simp only [List.mem_toFinset, List.mem_flatMap, List.mem_map, List.mem_filter,
    decide_eq_true_eq, Selects, Offsets.Has]
  constructor
  · rintro ⟨⟨m', offsets⟩, hmem, ⟨o', ids⟩, ⟨hids, hid⟩, heq⟩
    obtain ⟨rfl, rfl⟩ := Prod.mk.inj heq
    exact ⟨offsets, hmem, ids, hids, hid⟩
  · rintro ⟨offsets, hmem, ids, hids, hid⟩
    exact ⟨(m, offsets), hmem, (o, ids), ⟨hids, hid⟩, rfl⟩

/-! ## §4. Runs. -/

/-- A number of applications is below the least one that an injector expects, or above the
greatest one. -/
def Injector.OutOfBounds (i : Injector) (count : Nat) : Prop :=
  count < i.minInjections ∨ ∃ max, i.maxInjections = some max ∧ max < count

theorem Injector.expects_eq_false_iff {i : Injector} {count : Nat} :
    i.expects count = false ↔ i.OutOfBounds count := by
  unfold expects OutOfBounds
  cases i.maxInjections with
  | none => simp
  | some max => simp [imp_iff_not_or]

instance (i : Injector) (count : Nat) : Decidable (i.OutOfBounds count) :=
  decidable_of_iff _ Injector.expects_eq_false_iff

/-- The report that a patch was applied an unexpected number of times. -/
def Patch.countReport (p : Patch) (count : Nat) : Report :=
  ⟨.warn, .transform, .injectionCount p.describe count p.injector.minInjections
    p.injector.maxInjections⟩

/-- A count is the number of instructions that a patch is selected at, less those where it is left
out. -/
structure Registry.Tallies (r : Registry) (program : Program) (settings : ShiftSettings)
    (id : PatchId) (count : Nat) (selected displaced : Finset (MethodRef × Nat)) : Prop where
  selected_iff : ∀ m o, (m, o) ∈ selected ↔ r.Selected program settings m o id
  displaced_iff : ∀ m o, (m, o) ∈ displaced ↔ r.Displaced (r.Selected program settings m o) id
  subset : displaced ⊆ selected
  count_eq : count = selected.card - displaced.card

/-- Instructions that a patch is put in at are those that it is selected at, less those where it is
left out. -/
theorem Registry.Choice.exists_tally {r : Registry} {program : Program} {settings : ShiftSettings}
    {selection : Selection} {id : PatchId} {applied : Finset (MethodRef × Nat)}
    (h : r.Choice program settings selection)
    (happlied : ∀ m o, (m, o) ∈ applied ↔ r.Applied program settings m o id) :
    ∃ selected displaced, r.Tallies program settings id applied.card selected displaced := by
  obtain ⟨selected, hselects⟩ := selection.exists_pairs id
  have hselected : ∀ m o, (m, o) ∈ selected ↔ r.Selected program settings m o id := fun m o =>
    (hselects m o).trans (h.holds.selects_iff m o id)
  have hsubset : applied ⊆ selected := by
    rintro ⟨m, o⟩ hmem
    exact (hselected m o).mpr ((happlied m o).mp hmem).1
  refine ⟨selected, selected \ applied, hselected, fun m o => ?_, Finset.sdiff_subset, ?_⟩
  · rw [Finset.mem_sdiff, hselected, happlied]
    constructor
    · rintro ⟨hmem, hnot⟩
      by_contra hstays
      exact hnot ⟨hmem, hstays⟩
    · exact fun hdisplaced => ⟨hdisplaced.mem, fun hstays => hstays.2 hdisplaced⟩
  · rw [Finset.card_sdiff_of_subset hsubset]
    have hle := Finset.card_le_card hsubset
    omega

/-- Counts and reports of a run are exact. -/
structure CountsExactly (settings : Settings) (program : Program) (mixins : List Mixin)
    (report : WeaveReport) (after : Program) (t : CopyTable) (rewoven : List Rewoven)
    (counts : PatchId → Nat) : Prop where
  /-- The copies are those that the run has declared. -/
  copies : t.MadeFor program (scanned program mixins).places
  added_eq : report.added = t.copies.map (·.ref)
  /-- The new bodies are those of the patched methods. -/
  patched_eq : report.patched = rewoven.map (·.method)
  rewove : ∀ x ∈ rewoven,
    Splicer.Rewove ⟨settings.debugMarkers, scanned program mixins, t⟩ program after x
  counts_eq : report.counts
    = (scanned program mixins).patches.map fun p => (p.describe, counts p.id)
  tallies : ∀ p ∈ (scanned program mixins).patches, ∃ selected displaced,
    (scanned program mixins).Tallies program settings.shifts p.id (counts p.id) selected displaced
  blocks : ∀ p ∈ (scanned program mixins).patches,
    counts p.id = (rewoven.map (·.blocks p.id)).sum
  /-- There is a report of each count that is out of bounds, and of no other one. -/
  reported : report.reports.filter (·.diagnostic.isCount)
    = ((scanned program mixins).patches.filter fun p =>
        p.injector.OutOfBounds (counts p.id)).map fun p => p.countReport (counts p.id)

section

variable {w : Weaver} {program : Program} {mixins : List Mixin}

/-- What is told at the end reports each count that is out of bounds. -/
theorem counted_closing (c : Changes) (changed : Changed) :
    (reportsOf (Weaver.closing c changed)).filter (·.diagnostic.isCount)
      = (c.registry.patches.filter fun p => p.injector.OutOfBounds (c.counts.of p.id)).map
          fun p => p.countReport (c.counts.of p.id) := by
  have hbounds : ∀ p : Patch, (!p.injector.expects (c.counts.of p.id))
      = decide (p.injector.OutOfBounds (c.counts.of p.id)) := by
    intro p
    rw [Bool.eq_iff_iff, Bool.not_eq_true', Injector.expects_eq_false_iff, decide_eq_true_iff]
  have hreports : reportsOf (Weaver.closing c changed)
      = (c.registry.patches.filter fun p => p.injector.OutOfBounds (c.counts.of p.id)).map
          fun p => p.countReport (c.counts.of p.id) := by
    unfold Weaver.closing Registry.unexpectedCounts
    rw [reportsOf_append]
    simp only [hbounds]
    refine (List.append_nil _).trans ((List.filterMap_map ..).trans ?_)
    show List.filterMap (fun p : Patch => some (p.countReport (c.counts.of p.id))) _ = _
    rw [List.filterMap_eq_map']
  rw [hreports]
  refine List.filter_eq_self.mpr fun r hr => ?_
  obtain ⟨p, -, rfl⟩ := List.mem_map.mp hr
  rfl

/-- The changes of a run that succeeds: what they come from, and what is told. -/
theorem Weaver.exists_changes {report : WeaveReport} (hruns : HasRun w program)
    (h : (w.weave program mixins).outcome = .ok report) :
    ∃ c selection declared events,
      (scanned program mixins).Choice program w.settings.shifts selection
        ∧ Prepared w.settings program mixins c
        ∧ Spliced.MadeFor program ⟨w.settings.debugMarkers, scanned program mixins, c.copies⟩
            selection.methods ⟨c.bodies, c.counts⟩
        ∧ installAll c.bodies declared
          = (.ok (c.bodies.map (·.1)), (w.weave program mixins).program)
        ∧ (∀ e ∈ events, e.Uncounted)
        ∧ report = ⟨c.bodies.map (·.1), c.copies.copies.map (·.ref),
            c.registry.patches.map (fun p => (p.describe, c.counts.of p.id)),
            w.reports ++ reportsOf
              (events ++ closing c ⟨c.bodies.map (·.1), c.copies.copies.map (·.ref)⟩)⟩ := by
  have hprepare := (phases_excusable w.settings program mixins).ensures_prepare
  rcases weave_cases hprepare hruns.accurate with ⟨e, cache, -, -, hweave⟩
    | ⟨c, declared, woven, ⟨hprepared, selection, hchoice, hmade⟩, -, hinstall, hweave⟩
  · rw [hweave] at h
    contradiction
  · rw [hweave] at h ⊢
    exact ⟨c, selection, declared, _, hchoice, hprepared, hmade, hinstall,
      tells_prepare w.settings program mixins w.cache, (Except.ok.inj h).symm⟩

/-- **The counts of a run are exact, and so are its reports of them.** For every patch, the count is
the number of instructions at which it is selected, less those at which another one replaces the
instruction in its place; it is the number of its blocks in the new bodies, too; and it is reported
as unexpected exactly if it is out of the bounds of the injector. -/
theorem weave_counts_exactly {report : WeaveReport} (hruns : HasRun w program)
    (h : (w.weave program mixins).outcome = .ok report) :
    ∃ t rewoven counts, CountsExactly w.settings program mixins report
      (w.weave program mixins).program t rewoven counts := by
  obtain ⟨c, selection, declared, events, hchoice, hprepared, hmade, hinstall, htells, rfl⟩ :=
    Weaver.exists_changes hruns h
  obtain ⟨rewoven, hmethods, hrewoven, hcounts⟩ := hmade.exists_rewoven
  have hselected : c.bodies.map (·.1) = selection.methods.map (·.1) := hmade.map_fst_bodies
  have hdistinct : (c.bodies.map (·.1)).Nodup := by
    rw [hselected]
    exact hchoice.holds.tidy.distinct
  have hcount : ∀ p ∈ (scanned program mixins).patches,
      c.counts.of p.id = (rewoven.map (·.run.applied.count p.id)).sum := fun p hp =>
    hcounts p.id (List.getElem?_eq_some_iff.mp (patch?_id_of_mem hp)).1
  refine ⟨c.copies, rewoven, c.counts.of, ?_⟩
  refine {
    copies := hprepared.registry_eq ▸ hprepared.copies
    added_eq := rfl
    patched_eq := hselected.trans hmethods.symm
    rewove := fun x hx => ?rewove
    counts_eq := by rw [hprepared.registry_eq]
    tallies := fun p hp => ?tallies
    blocks := fun p hp => ?blocks
    reported := ?reported }
  case rewove =>
    obtain ⟨offsets, woven, -, hbody, hweaves, hcarves⟩ := hrewoven x hx
    exact ⟨⟨offsets, woven, hweaves, body?_installAll hinstall hdistinct hbody⟩, hcarves⟩
  case tallies =>
    obtain ⟨applied, happlied, hsum⟩ := exists_applied hchoice hmethods (fun x hx => by
      obtain ⟨offsets, woven, hdone, -, hweaves, -⟩ := hrewoven x hx
      exact ⟨offsets, woven, hdone, hweaves⟩) p.id
    rw [hcount p hp, hsum]
    exact hchoice.exists_tally happlied
  case blocks =>
    rw [hcount p hp]
    refine congrArg List.sum (List.map_congr_left fun x hx => ?_)
    obtain ⟨-, -, -, -, -, hcarves⟩ := hrewoven x hx
    exact (Splicer.blocks_eq hcarves p.id).symm
  case reported =>
    -- neither what waits nor what the phases tell is about counts
    rw [List.filter_append, hruns.no_counts, List.nil_append, reportsOf_append, List.filter_append,
      filter_isCount_reportsOf htells, List.nil_append, counted_closing, hprepared.registry_eq]

end

/-! ### Two patches that replace one constant on two classes. -/

/-- A group that is in order already is not sorted. -/
theorem resolveSite_eq (r : Registry) (m : MethodRef) (o : Nat) (ids : List PatchId) :
    r.resolveSite m o ids = (do
      let contenders ← Traced.lift (r.contenders ids)
      let ordered := if contenders.Pairwise (fun a b => a.precedes b = true) then contenders
        else byPriority contenders
      displaceLosers m o (placed .replace ordered)
      return planOf ordered) := by
  have hsorted : ∀ contenders : List Contender, byPriority contenders
      = if contenders.Pairwise (fun a b => a.precedes b = true) then contenders
        else byPriority contenders := by
    intro contenders
    split
    · next horder => exact List.mergeSort_of_pairwise horder
    · rfl
  unfold Registry.resolveSite
  simp only [← hsorted]

namespace Rivals

/-- A method with one of the constants. -/
def runA : MethodDef :=
  { Twins.run with body := some (.ofInstructions [.push (.int 3), .pop, .ret]) }

/-- A method with both constants. -/
def runB : MethodDef := { Twins.run with
  body := some (.ofInstructions [.push (.int 3), .pop, .push (.int 4), .pop, .ret]) }

/-- A patch for some constants, which is to be applied once. -/
def rival (name : MemberName) (priority : Int32) (constants : List Int32) : MixinMethod where
  name := name
  descriptor := ⟨[.int], some .int⟩
  isStatic := true
  injectors :=
    [{ kind := .modifyConstant .dont, priority := some priority, maxInjections := some 1 }]
  targets := [{ name := runA.name }]
  selectors := constants.map fun value => { kind := .loadConstant (.int value) }

theorem segment_high : Segment "high".toList := segmentFault?_eq_none_iff.mp rfl

theorem segment_low : Segment "low".toList := segmentFault?_eq_none_iff.mp rfl

/-- The patch that goes first, with two selectors for the same constant. -/
def high : MixinMethod := rival ⟨"high", segment_high⟩ 5 [3, 3]

/-- The patch that loses the constant which both select. -/
def low : MixinMethod := rival ⟨"low", segment_low⟩ 0 [3, 4]

/-- The mixin of both patches. -/
def mixin : Mixin := { name := Twins.mixin, targets := [Twins.a, Twins.b], methods := [high, low] }

/-- The method of a patch in the class of the mixin. -/
def source (m : MixinMethod) : MethodDef :=
  { Twins.run with
    name := m.name
    descriptor := m.descriptor
    body := some (.ofInstructions [.loadLocal ⟨0, by decide⟩, .ret]) }

/-- The two targets and the class of the mixin. -/
def program : Program :=
  ⟨[(Twins.a, { superclass := none, methods := [runA] }),
    (Twins.b, { superclass := none, methods := [runB] }),
    (Twins.mixin, { superclass := none, methods := [source high, source low] })],
    by unfold ClassTable.Ordered; decide⟩

/-- The first run of a weaver. -/
def result : WeaveResult := (Weaver.new {}).weave program [mixin]

/-- One patch replaces the constant that both select, and does so on both classes, which is once too
often. The other one is left to its second constant. -/
theorem reports_result :
    result.outcome.toOption.map (fun report =>
        (report.counts.map (·.2), (report.reports.filter (·.diagnostic.isCount)).length))
      = some ([2, 1], 1) := by
  -- the order of the group is checked, as sorting it would not evaluate
  unfold result Weaver.weave prepare spliceMethod Registry.resolveMethod
  simp only [resolveSite_eq]
  decide +kernel

end Rivals

/-- Three instructions are selected for the second patch, and it is left out at two of them. -/
theorem weave_counts_exactly_rivals :
    ∃ report, Rivals.result.outcome = .ok report ∧ report.counts.map (·.2) = [2, 1]
      ∧ (report.reports.filter (·.diagnostic.isCount)).length = 1
      ∧ ∃ t rewoven counts, CountsExactly {} Rivals.program [Rivals.mixin] report
          Rivals.result.program t rewoven counts := by
  have hreports := Rivals.reports_result
  cases houtcome : Rivals.result.outcome with
  | error e => simp [houtcome, Except.toOption] at hreports
  | ok report =>
    obtain ⟨hcounts, hreported⟩ : report.counts.map (·.2) = _
        ∧ (report.reports.filter (·.diagnostic.isCount)).length = _ := by
      simpa [houtcome, Except.toOption] using hreports
    exact ⟨report, rfl, hcounts, hreported,
      weave_counts_exactly (.new {} Rivals.program) houtcome⟩

end PatchWeaver

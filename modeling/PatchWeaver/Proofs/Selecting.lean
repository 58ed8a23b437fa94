/-
  PatchWeaver.Proofs.Selecting
  ────────────────────────────
  **WHAT IS SELECTED.**

  A selection holds a patch at an offset of a method exactly if the targets
  of the patch name the method, and the patch goes to the offset there:

      s.Selects m o id  ↔  some patch of the registry with that id
                             reaches m, and goes to o in m

  Each method stands in it once, with ascending offsets, and no offset is
  without patches or has one twice.  The patches of an offset come in the
  order of their numbers, as patches are taken in that order; so the offsets
  of a method are determined by where patches go (`Offsets.Lists.unique`).

  Selecting fails where the targets of a patch do, or where the body of a
  method that a patch reaches does not pass the analysis, though the patch
  can go to the method.

  Main results:
    * `selects_associate` — one association adds one patch at one offset.
    * `ensures_selectAll` — the contract of selecting.
    * `Patch.GoesTo.validated` — where a patch goes, it has passed its checks.
-/
import Mathlib.Data.List.Sort
import PatchWeaver.Proofs.Contracts
import PatchWeaver.Proofs.Sweeping

namespace PatchWeaver

/-! ## §1. Offsets. -/

namespace Offsets

/-- A patch goes to an offset. -/
def Has (offsets : Offsets) (o : Nat) (id : PatchId) : Prop := ∃ ids, (o, ids) ∈ offsets ∧ id ∈ ids

/-- Offsets ascend, each has patches, and each of these once. -/
structure Tidy (offsets : Offsets) : Prop where
  ascending : (offsets.map (·.1)).Pairwise (· < ·)
  inhabited : ∀ x ∈ offsets, x.2 ≠ []
  distinct : ∀ x ∈ offsets, x.2.Nodup

variable {offset o : Nat} {patch id : PatchId} {offsets : Offsets}

theorem not_has_nil : ¬ Has [] o id := by simp [Has]

theorem has_cons {ids : List PatchId} :
    Has ((offset, ids) :: offsets) o id ↔ (o = offset ∧ id ∈ ids) ∨ offsets.Has o id := by
  unfold Has
  constructor
  · rintro ⟨ids', hmem, hid⟩
    rcases List.mem_cons.mp hmem with heq | hmem
    · obtain ⟨rfl, rfl⟩ := Prod.mk.inj heq
      exact .inl ⟨rfl, hid⟩
    · exact .inr ⟨ids', hmem, hid⟩
  · rintro (⟨rfl, hid⟩ | ⟨ids', hmem, hid⟩)
    · exact ⟨ids, List.mem_cons_self, hid⟩
    · exact ⟨ids', List.mem_cons_of_mem _ hmem, hid⟩

/-- Adding a patch at an offset adds it there, and nothing else. -/
theorem has_add :
    (offsets.add offset patch).Has o id ↔ offsets.Has o id ∨ (o = offset ∧ id = patch) := by
  induction offsets with
  | nil => simp [add, has_cons, not_has_nil]
  | cons x rest ih =>
    obtain ⟨o', ids⟩ := x
    unfold add
    split
    · rw [has_cons, List.mem_singleton, or_comm]
    · split
      · next heq =>
        subst heq
        rw [has_cons, has_cons]
        by_cases hmem : patch ∈ ids
        · rw [if_pos hmem]
          refine ⟨.inl, ?_⟩
          rintro (h | ⟨rfl, rfl⟩)
          · exact h
          · exact .inl ⟨rfl, hmem⟩
        · rw [if_neg hmem, List.mem_append, List.mem_singleton, and_or_left, or_right_comm]
      · rw [has_cons, has_cons, ih, or_assoc]

theorem mem_keys_add :
    o ∈ (offsets.add offset patch).map (·.1) ↔ o = offset ∨ o ∈ offsets.map (·.1) := by
  induction offsets with
  | nil => simp [add]
  | cons x rest ih =>
    obtain ⟨o', ids⟩ := x
    unfold add
    split
    · simp
    · split
      · next heq => subst heq; simp
      · rw [List.map_cons, List.mem_cons, ih, List.map_cons, List.mem_cons, or_left_comm]

/-- The first offset is the smallest one. -/
theorem tidy_cons {ids : List PatchId} :
    Tidy ((o, ids) :: offsets)
      ↔ (∀ k ∈ offsets.map (·.1), o < k) ∧ ids ≠ [] ∧ ids.Nodup ∧ offsets.Tidy := by
  constructor
  · rintro ⟨hascending, hinhabited, hdistinct⟩
    rw [List.map_cons, List.pairwise_cons] at hascending
    rw [List.forall_mem_cons] at hinhabited hdistinct
    exact ⟨hascending.1, hinhabited.1, hdistinct.1, hascending.2, hinhabited.2, hdistinct.2⟩
  · rintro ⟨hfirst, hne, hnodup, hrest⟩
    refine ⟨?_, ?_, ?_⟩
    · rw [List.map_cons, List.pairwise_cons]
      exact ⟨hfirst, hrest.ascending⟩
    · rw [List.forall_mem_cons]
      exact ⟨hne, hrest.inhabited⟩
    · rw [List.forall_mem_cons]
      exact ⟨hnodup, hrest.distinct⟩

/-- Where there are offsets, some patch goes somewhere. -/
theorem Tidy.exists_has (h : offsets.Tidy) (hne : offsets ≠ []) : ∃ o id, offsets.Has o id := by
  obtain ⟨⟨o, ids⟩, ho⟩ := List.exists_mem_of_ne_nil _ hne
  obtain ⟨id, hid⟩ := List.exists_mem_of_ne_nil _ (h.inhabited _ ho)
  exact ⟨o, id, ids, ho, hid⟩

/-- A patch that an offset has already is not added again. -/
theorem nodup_addOnce {ids : List PatchId} (h : ids.Nodup) :
    (if patch ∈ ids then ids else ids ++ [patch]).Nodup := by
  split
  · exact h
  · next hnew =>
    rw [List.nodup_append]
    refine ⟨h, by simp, fun a ha b hb heq => ?_⟩
    obtain rfl := List.mem_singleton.mp hb
    exact hnew (heq ▸ ha)

theorem Tidy.add (h : offsets.Tidy) : (offsets.add offset patch).Tidy := by
  induction offsets with
  | nil => exact ⟨by simp [Offsets.add], by simp [Offsets.add], by simp [Offsets.add]⟩
  | cons x rest ih =>
    obtain ⟨o', ids⟩ := x
    obtain ⟨hfirst, hne, hnodup, hrest⟩ := tidy_cons.mp h
    unfold Offsets.add
    split
    · next hlt =>
      refine tidy_cons.mpr ⟨fun k hk => ?_, by simp, by simp, h⟩
      rcases List.mem_cons.mp hk with rfl | hk
      · exact hlt
      · exact Nat.lt_trans hlt (hfirst k hk)
    · split
      · next heq =>
        subst heq
        refine tidy_cons.mpr ⟨hfirst, ?_, nodup_addOnce hnodup, hrest⟩
        split
        · exact hne
        · simp
      · next hge hne' =>
        refine tidy_cons.mpr ⟨fun k hk => ?_, hne, hnodup, ih hrest⟩
        rcases mem_keys_add.mp hk with rfl | hk
        · show o' < k
          omega
        · exact hfirst k hk

/-- Patches that go to one offset come in the order of their numbers. -/
def Ordered (offsets : Offsets) : Prop := ∀ x ∈ offsets, x.2.Pairwise (· < ·)

/-- A patch that is added behind smaller ones is in order. -/
theorem ordered_addOnce {ids : List PatchId} (h : ids.Pairwise (· < ·))
    (hle : ∀ id ∈ ids, id ≤ patch) :
    (if patch ∈ ids then ids else ids ++ [patch]).Pairwise (· < ·) := by
  split
  · exact h
  · next hnew =>
    rw [List.pairwise_append]
    refine ⟨h, List.pairwise_singleton _ _, fun id hid last hlast => ?_⟩
    obtain rfl := List.mem_singleton.mp hlast
    exact Nat.lt_of_le_of_ne (hle id hid) fun heq => hnew (heq ▸ hid)

theorem Ordered.add (h : offsets.Ordered) (hle : ∀ id, offsets.Has offset id → id ≤ patch) :
    (offsets.add offset patch).Ordered := by
  have hsingle : List.Pairwise (· < ·) [patch] := List.pairwise_singleton _ _
  induction offsets with
  | nil => exact List.forall_mem_singleton.mpr hsingle
  | cons x rest ih =>
    obtain ⟨o', ids⟩ := x
    obtain ⟨hids, hrest⟩ := List.forall_mem_cons.mp h
    unfold Offsets.add
    split
    · exact List.forall_mem_cons.mpr ⟨hsingle, h⟩
    · split
      · next heq =>
        refine List.forall_mem_cons.mpr ⟨ordered_addOnce hids fun id hid => ?_, hrest⟩
        exact hle id (has_cons.mpr (.inl ⟨heq, hid⟩))
      · exact List.forall_mem_cons.mpr
          ⟨hids, ih hrest fun id hid => hle id (has_cons.mpr (.inr hid))⟩

/-- Offsets that list where patches go, in the order in which a selection does. -/
structure Lists (offsets : Offsets) (goes : Nat → PatchId → Prop) : Prop where
  tidy : offsets.Tidy
  ordered : offsets.Ordered
  has_iff : ∀ o id, offsets.Has o id ↔ goes o id

namespace Lists

variable {goes : Nat → PatchId → Prop} {offsets' : Offsets}

theorem congr {goes' : Nat → PatchId → Prop} (h : offsets.Lists goes)
    (hgoes : ∀ o id, goes o id ↔ goes' o id) : offsets.Lists goes' :=
  ⟨h.tidy, h.ordered, fun o id => (h.has_iff o id).trans (hgoes o id)⟩

/-- The patches of an offset are those that go there. -/
theorem mem_ids_iff (h : offsets.Lists goes) {ids : List PatchId} (hmem : (o, ids) ∈ offsets) :
    id ∈ ids ↔ goes o id := by
  rw [← h.has_iff]
  refine ⟨fun hid => ⟨ids, hmem, hid⟩, ?_⟩
  rintro ⟨ids', hmem', hid⟩
  obtain ⟨-, rfl⟩ := Prod.mk.inj (List.inj_on_of_nodup_map h.tidy.ascending.nodup hmem hmem' rfl)
  exact hid

theorem mem_of_mem (h : offsets.Lists goes) (h' : offsets'.Lists goes) {x : Nat × List PatchId}
    (hx : x ∈ offsets) : x ∈ offsets' := by
  obtain ⟨o, ids⟩ := x
  obtain ⟨id, hid⟩ := List.exists_mem_of_ne_nil _ (h.tidy.inhabited _ hx)
  obtain ⟨ids', hmem', -⟩ := (h'.has_iff o id).mpr ((h.mem_ids_iff hx).mp hid)
  -- both have the same patches at the offset, in the same order
  obtain rfl : ids = ids' := (h.ordered _ hx).eq_of_mem_iff (h'.ordered _ hmem') fun id => by
    rw [h.mem_ids_iff hx, h'.mem_ids_iff hmem']
  exact hmem'

/-- **Where patches go determines the offsets.** -/
theorem unique (h : offsets.Lists goes) (h' : offsets'.Lists goes) : offsets = offsets' := by
  have hperm : offsets.Perm offsets' := by
    rw [List.perm_ext_iff_of_nodup h.tidy.ascending.nodup.of_map
      h'.tidy.ascending.nodup.of_map]
    exact fun x => ⟨h.mem_of_mem h', h'.mem_of_mem h⟩
  have hsorted : offsets.Pairwise (·.1 < ·.1) := List.pairwise_map.mp h.tidy.ascending
  have hsorted' : offsets'.Pairwise (·.1 < ·.1) := List.pairwise_map.mp h'.tidy.ascending
  exact hperm.eq_of_pairwise (fun x y _ _ hlt hlt' => absurd hlt' (Nat.lt_asymm hlt)) hsorted
    hsorted'

end Lists

end Offsets

/-! ## §2. Selections. -/

namespace Selection

/-- A patch goes to an offset of a method. -/
def Selects (s : Selection) (m : MethodRef) (o : Nat) (id : PatchId) : Prop :=
  ∃ offsets, (m, offsets) ∈ s.methods ∧ Offsets.Has offsets o id

/-- Each method stands there once, with offsets, which are in order. -/
structure Tidy (s : Selection) : Prop where
  distinct : (s.methods.map (·.1)).Nodup
  inhabited : ∀ x ∈ s.methods, x.2 ≠ []
  tidy : ∀ x ∈ s.methods, Offsets.Tidy x.2

/-- A selection is in order, and holds exactly the patches that go somewhere. -/
structure Holds (s : Selection) (goes : MethodRef → Nat → PatchId → Prop) : Prop where
  tidy : s.Tidy
  selects_iff : ∀ m o id, s.Selects m o id ↔ goes m o id

/-- Patches come in the order of their numbers, wherever they go. -/
def Ordered (s : Selection) : Prop := ∀ x ∈ s.methods, Offsets.Ordered x.2

/-- Patches come in order, and none of them behind a given number. -/
structure OrderedUpTo (s : Selection) (last : PatchId) : Prop where
  ordered : s.Ordered
  le : ∀ m o id, s.Selects m o id → id ≤ last

theorem tidy_empty : Tidy {} := ⟨by simp, by simp, by simp⟩

variable {s : Selection} {m m' : MethodRef} {o o' : Nat} {id id' : PatchId}

/-- **One association adds one patch at one offset of one method.** -/
theorem selects_associate : (s.associate m o id).Selects m' o' id'
    ↔ s.Selects m' o' id' ∨ (m' = m ∧ o' = o ∧ id' = id) := by
  unfold associate
  -- the method is selected in already, or an entry is made for it
  split
  · next hany =>
    obtain ⟨⟨n, offsets⟩, hmem, hn⟩ := List.any_eq_true.mp hany
    obtain rfl : n = m := by simpa using hn
    constructor
    · rintro ⟨offsets', hmem', hhas⟩
      obtain ⟨⟨n', offsets''⟩, hold, heq⟩ := List.mem_map.mp hmem'
      obtain ⟨rfl, rfl⟩ := Prod.mk.inj heq
      split at hhas
      · next hmethod =>
        subst hmethod
        rcases Offsets.has_add.mp hhas with hhas | ⟨rfl, rfl⟩
        · exact .inl ⟨offsets'', hold, hhas⟩
        · exact .inr ⟨rfl, rfl, rfl⟩
      · exact .inl ⟨offsets'', hold, hhas⟩
    · rintro (⟨offsets', hold, hhas⟩ | ⟨rfl, rfl, rfl⟩)
      · refine ⟨_, List.mem_map.mpr ⟨(m', offsets'), hold, rfl⟩, ?_⟩
        split
        · exact Offsets.has_add.mpr (.inl hhas)
        · exact hhas
      · refine ⟨_, List.mem_map.mpr ⟨(m', offsets), hmem, rfl⟩, ?_⟩
        rw [if_pos rfl]
        exact Offsets.has_add.mpr (.inr ⟨rfl, rfl⟩)
  · constructor
    · rintro ⟨offsets, hmem, hhas⟩
      rcases List.mem_append.mp hmem with hold | hnew
      · exact .inl ⟨offsets, hold, hhas⟩
      · obtain ⟨rfl, rfl⟩ := Prod.mk.inj (List.mem_singleton.mp hnew)
        rcases Offsets.has_add.mp hhas with ⟨_, hnone, -⟩ | ⟨rfl, rfl⟩
        · simp at hnone
        · exact .inr ⟨rfl, rfl, rfl⟩
    · rintro (⟨offsets, hold, hhas⟩ | ⟨rfl, rfl, rfl⟩)
      · exact ⟨offsets, List.mem_append_left _ hold, hhas⟩
      · exact ⟨_, List.mem_append_right _ (List.mem_singleton.mpr rfl),
          Offsets.has_add.mpr (.inr ⟨rfl, rfl⟩)⟩

theorem add_ne_nil (offsets : Offsets) : Offsets.add o id offsets ≠ [] := by
  intro hnil
  have hkey : o ∈ (Offsets.add o id offsets).map (·.1) := Offsets.mem_keys_add.mpr (.inl rfl)
  simp [hnil] at hkey

theorem Tidy.associate (h : s.Tidy) : (s.associate m o id).Tidy := by
  obtain ⟨hdistinct, hinhabited, htidy⟩ := h
  unfold Selection.associate
  -- as above: an entry grows, or a new one comes last
  split
  · refine ⟨?_, fun x hx => ?_, fun x hx => ?_⟩
    · simpa [Function.comp_def] using hdistinct
    · obtain ⟨x', hx', rfl⟩ := List.mem_map.mp hx
      dsimp only
      split
      · exact add_ne_nil _
      · exact hinhabited x' hx'
    · obtain ⟨x', hx', rfl⟩ := List.mem_map.mp hx
      dsimp only
      split
      · exact (htidy x' hx').add
      · exact htidy x' hx'
  · next hnew =>
    have hnew : ∀ x ∈ s.methods, x.1 ≠ m := fun x hx heq =>
      hnew (List.any_eq_true.mpr ⟨x, hx, by simpa using heq⟩)
    refine ⟨?_, fun x hx => ?_, fun x hx => ?_⟩
    · rw [List.map_append, List.nodup_append]
      refine ⟨hdistinct, by simp, fun n hn n' hn' heq => ?_⟩
      obtain ⟨x, hx, rfl⟩ := List.mem_map.mp hn
      obtain rfl : n' = m := by simpa using hn'
      exact hnew x hx heq
    · rcases List.mem_append.mp hx with hx | hx
      · exact hinhabited x hx
      · obtain rfl := List.mem_singleton.mp hx
        exact add_ne_nil []
    · rcases List.mem_append.mp hx with hx | hx
      · exact htidy x hx
      · obtain rfl := List.mem_singleton.mp hx
        exact Offsets.Tidy.add ⟨by simp, by simp, by simp⟩

theorem OrderedUpTo.associate (h : s.OrderedUpTo id) : (s.associate m o id).OrderedUpTo id := by
  refine ⟨fun x hx => ?_, fun m' o' id' hselects => ?_⟩
  · unfold Selection.associate at hx
    split at hx
    · obtain ⟨⟨n, offsets⟩, hold, rfl⟩ := List.mem_map.mp hx
      dsimp only
      split
      · exact (h.ordered _ hold).add fun id' hhas => h.le n o id' ⟨offsets, hold, hhas⟩
      · exact h.ordered _ hold
    · rcases List.mem_append.mp hx with hx | hx
      · exact h.ordered x hx
      · obtain rfl := List.mem_singleton.mp hx
        exact Offsets.Ordered.add (fun x hx => by contradiction) fun id' hhas =>
          absurd hhas Offsets.not_has_nil
  · rcases selects_associate.mp hselects with hold | ⟨-, -, rfl⟩
    · exact h.le m' o' id' hold
    · exact Nat.le_refl _

theorem OrderedUpTo.foldl_associate {offsets : List Nat} (h : s.OrderedUpTo id) :
    (offsets.foldl (fun s o => s.associate m o id) s).OrderedUpTo id := by
  induction offsets generalizing s with
  | nil => exact h
  | cons o rest ih => exact ih h.associate

/-- The offsets of a method list where patches go in it. -/
theorem Holds.lists {goes : MethodRef → Nat → PatchId → Prop} (h : s.Holds goes) (hs : s.Ordered)
    {offsets : Offsets} (hmem : (m, offsets) ∈ s.methods) : offsets.Lists (goes m) := by
  refine ⟨h.tidy.tidy _ hmem, hs _ hmem, fun o id => ?_⟩
  rw [← h.selects_iff]
  refine ⟨fun hhas => ⟨offsets, hmem, hhas⟩, ?_⟩
  rintro ⟨offsets', hmem', hhas⟩
  obtain ⟨-, rfl⟩ := Prod.mk.inj (List.inj_on_of_nodup_map h.tidy.distinct hmem hmem' rfl)
  exact hhas

/-- Associations add a patch at some offsets of one method. -/
theorem selects_foldl_associate {offsets : List Nat} :
    (offsets.foldl (fun s o => s.associate m o id) s).Selects m' o' id'
      ↔ s.Selects m' o' id' ∨ (m' = m ∧ o' ∈ offsets ∧ id' = id) := by
  induction offsets generalizing s with
  | nil => simp
  | cons o rest ih =>
    rw [List.foldl_cons, ih, selects_associate, or_assoc]
    refine or_congr_right ?_
    constructor
    · rintro (⟨hm, ho, hid⟩ | ⟨hm, ho, hid⟩)
      · exact ⟨hm, List.mem_cons.mpr (.inl ho), hid⟩
      · exact ⟨hm, List.mem_cons_of_mem _ ho, hid⟩
    · rintro ⟨hm, ho, hid⟩
      rcases List.mem_cons.mp ho with ho | ho
      · exact .inl ⟨hm, ho, hid⟩
      · exact .inr ⟨hm, ho, hid⟩

theorem Tidy.foldl_associate {offsets : List Nat} (h : s.Tidy) :
    (offsets.foldl (fun s o => s.associate m o id) s).Tidy := by
  induction offsets generalizing s with
  | nil => exact h
  | cons o rest ih => exact ih h.associate

end Selection

/-! ## §3. Where a patch goes. -/

section

variable (program : Program) (settings : ShiftSettings) (r : Registry) (patch : Patch)

/-- The targets of a patch name a method. -/
def Registry.Reaches (m : MethodRef) : Prop :=
  ∃ methods, (resolveTargets program r patch).outcome = .ok methods ∧ m ∈ methods

/-- A patch goes to an offset of a method, as far as its checks and selectors go. -/
def Patch.GoesTo (m : MethodRef) (o : Nat) : Prop :=
  ∃ body depths, targetBody program patch m = .ok body ∧ body.depths = .ok depths
    ∧ o ∈ SelectionSite.offsets ⟨settings, patch, m, body, depths⟩

/-- A patch of the registry reaches a method and goes to an offset there. -/
def Registry.Selected (m : MethodRef) (o : Nat) (id : PatchId) : Prop :=
  ∃ patch ∈ r.patches, r.Reaches program patch m ∧ patch.GoesTo program settings m o ∧ id = patch.id

/-- The body of a method passes the analysis, if the patch can go to the method at all. -/
def Patch.AnalysedIn (m : MethodRef) : Prop :=
  ∀ body, targetBody program patch m = .ok body → ∃ depths, body.depths = .ok depths

/-- The targets of a patch resolve, and the methods that they name can be analysed. -/
structure Patch.Selectable : Prop where
  resolves : ∃ methods, (resolveTargets program r patch).outcome = .ok methods
  analysed : ∀ m, r.Reaches program patch m → patch.AnalysedIn program m

/-- What a patch adds to a selection in some methods. -/
structure Patch.Adds (methods : MethodRef → Prop) (before s : Selection) : Prop where
  holds : s.Holds fun m o id => before.Selects m o id
    ∨ (methods m ∧ patch.GoesTo program settings m o ∧ id = patch.id)
  ordered : before.OrderedUpTo patch.id → s.OrderedUpTo patch.id
  analysed : ∀ m, methods m → patch.AnalysedIn program m

/-- What selecting comes to, and what its success says of the patches. -/
structure Registry.Choice (s : Selection) : Prop where
  holds : s.Holds (r.Selected program settings)
  ordered : s.Ordered
  selectable : ∀ patch ∈ r.patches, patch.Selectable program r

/-- What can go wrong in selecting. -/
inductive SelectionFailure : WeaveError → Prop where
  | unresolved {patch : Patch} {e : WeaveError} (patch_mem : patch ∈ r.patches)
      (fails : (resolveTargets program r patch).outcome = .error e) : SelectionFailure e
  | analysis {patch : Patch} {m : MethodRef} {body : Body} {cause : MachineError}
      (patch_mem : patch ∈ r.patches) (reaches : r.Reaches program patch m)
      (body_eq : program.body? m = some body) (fails : body.depths = .error cause) :
      SelectionFailure (.stackAnalysis m cause)

end

section

variable {program : Program} {settings : ShiftSettings} {r : Registry} {patch : Patch}

theorem targetBody_eq_ok_iff {m : MethodRef} {body : Body} :
    targetBody program patch m = .ok body
      ↔ validateMethod patch m = .ok () ∧ program.body? m = some body := by
  unfold targetBody
  rw [bind_eq_ok_iff]
  constructor
  · rintro ⟨⟨⟩, hmethod, hbody⟩
    refine ⟨hmethod, ?_⟩
    cases hfound : program.body? m <;> simp_all
  · rintro ⟨hmethod, hbody⟩
    exact ⟨(), hmethod, by rw [hbody]⟩

/-- An offset that counts is in the body, reachable, and fit for the patch. -/
theorem SelectionSite.of_mem_offsets {site : SelectionSite} {o : Nat} (h : o ∈ site.offsets) :
    o < site.body.length ∧ site.depths.isReachable o = true
      ∧ validateInstruction site.patch site.method site.body o = .ok () := by
  obtain ⟨s, -, index, htakes⟩ := mem_offsets_iff.mp h
  exact ⟨htakes.leads.inBody, htakes.reachable, htakes.fit⟩

/-- **Where a patch goes, it has passed its checks.** -/
theorem Patch.GoesTo.validated {m : MethodRef} {o : Nat} (h : patch.GoesTo program settings m o) :
    ∃ body depths, program.body? m = some body ∧ body.depths = .ok depths ∧ o < body.length
      ∧ depths.isReachable o = true ∧ validateMethod patch m = .ok ()
      ∧ validateInstruction patch m body o = .ok () := by
  obtain ⟨body, depths, htarget, hdepths, ho⟩ := h
  obtain ⟨hmethod, hbody⟩ := targetBody_eq_ok_iff.mp htarget
  obtain ⟨hlt, hreachable, hinstruction⟩ := SelectionSite.of_mem_offsets ho
  exact ⟨body, depths, hbody, hdepths, hlt, hreachable, hmethod, hinstruction⟩

/-! ## §4. Selecting. -/

/-- What a patch adds to a selection in a method. -/
theorem ensures_selectInMethod {selection : Selection} {m : MethodRef} {fails : WeaveError → Prop}
    (htidy : selection.Tidy)
    (hfails : ∀ body cause, targetBody program patch m = .ok body → body.depths = .error cause →
      fails (.stackAnalysis m cause)) :
    Analysing.Ensures program.body? (patch.Adds program settings (· = m) selection) fails
      (selectInMethod program settings patch selection m) := by
  unfold selectInMethod
  -- a method that cannot be selected in is passed over; nothing goes to it
  split
  · next reason hreason =>
    refine .bind (.lift_ok rfl) fun _ _ => .pure ⟨⟨htidy, fun m' o id => ?_⟩, fun h => h, ?_⟩
    · have hnowhere : ¬ patch.GoesTo program settings m o := by
        rintro ⟨body, depths, htarget, -⟩
        rw [hreason] at htarget
        contradiction
      refine ⟨.inl, ?_⟩
      rintro (hold | ⟨rfl, hgoes, -⟩)
      · exact hold
      · exact absurd hgoes hnowhere
    · rintro m' rfl body htarget
      rw [hreason] at htarget
      contradiction
  · next body htarget =>
    have hbody := (targetBody_eq_ok_iff.mp htarget).2
    refine .bind (.depths hbody fun cause => hfails body cause htarget) fun depths hdepths => ?_
    have hselect : (SelectionSite.select ⟨settings, patch, m, body, depths⟩).outcome
        = .ok (SelectionSite.offsets ⟨settings, patch, m, body, depths⟩) := by
      rw [SelectionSite.select_eq]
    refine .bind (.lift_ok hselect) fun offsets hoffsets =>
      .pure ⟨⟨htidy.foldl_associate, fun m' o id => ?_⟩, fun h => h.foldl_associate, ?_⟩
    · have hgoes : o ∈ offsets ↔ patch.GoesTo program settings m o := by
        rw [hoffsets]
        constructor
        · exact fun ho => ⟨body, depths, htarget, hdepths, ho⟩
        · rintro ⟨body', depths', htarget', hdepths', ho⟩
          obtain rfl := Except.ok.inj (htarget.symm.trans htarget')
          obtain rfl := Except.ok.inj (hdepths.symm.trans hdepths')
          exact ho
      rw [Selection.selects_foldl_associate, hgoes]
      refine or_congr_right (and_congr_right ?_)
      rintro rfl
      rfl
    · rintro m' rfl body' htarget'
      obtain rfl := Except.ok.inj (htarget.symm.trans htarget')
      exact ⟨depths, hdepths⟩

/-- What a patch adds in some methods and then in one more. -/
theorem Patch.Adds.snoc {selection s s' : Selection} {done : List MethodRef} {m : MethodRef}
    (h : patch.Adds program settings (· ∈ done) selection s)
    (h' : patch.Adds program settings (· = m) s s') :
    patch.Adds program settings (· ∈ done ++ [m]) selection s' := by
  refine ⟨⟨h'.holds.tidy, fun m' o id => ?_⟩, fun hs => h'.ordered (h.ordered hs), fun m' hm' => ?_⟩
  · rw [h'.holds.selects_iff, h.holds.selects_iff, or_assoc, List.mem_append, List.mem_singleton,
      or_and_right]
  · rcases List.mem_append.mp hm' with hm' | hm'
    · exact h.analysed m' hm'
    · exact h'.analysed m' (List.mem_singleton.mp hm')

/-- What a patch adds to a selection. -/
theorem ensures_selectPatch {selection : Selection} {fails : WeaveError → Prop}
    (htidy : selection.Tidy)
    (hresolve : ∀ e, (resolveTargets program r patch).outcome = .error e → fails e)
    (hanalysis : ∀ m body cause, r.Reaches program patch m → targetBody program patch m = .ok body →
      body.depths = .error cause → fails (.stackAnalysis m cause)) :
    Analysing.Ensures program.body?
      (fun s => patch.Adds program settings (r.Reaches program patch) selection s
        ∧ patch.Selectable program r) fails (selectPatch program settings r selection patch) := by
  unfold selectPatch
  refine .bind (.lift (.of_errors hresolve)) fun methods hmethods => ?_
  have hreaches : r.Reaches program patch = (· ∈ methods) := by
    funext m
    refine propext ⟨?_, fun hm => ⟨methods, hmethods, hm⟩⟩
    rintro ⟨methods', hmethods', hm⟩
    obtain rfl := Except.ok.inj (hmethods.symm.trans hmethods')
    exact hm
  rw [hreaches]
  -- after some of the methods, what the patch adds in these is there
  refine Analysing.Ensures.mono (.foldlM (fun done s =>
      patch.Adds program settings (· ∈ done) selection s) ?_ ?_)
    (fun s hs => ⟨hs, ?_⟩) fun _ he => he
  · exact ⟨⟨htidy, by simp⟩, fun h => h, by simp⟩
  · rintro done m rest s rfl hadds
    refine (ensures_selectInMethod hadds.holds.tidy
      fun body cause => hanalysis m body cause ?_).mono (fun _ hs' => hadds.snoc hs') fun _ he => he
    rw [hreaches]
    simp
  · exact ⟨⟨methods, hmethods⟩, by rw [hreaches]; exact hs.analysed⟩

/-- **The contract of selecting**: the patches are where they go, and nowhere else. -/
theorem ensures_selectAll {fails : WeaveError → Prop} (hids : r.patches.Pairwise (·.id ≤ ·.id))
    (hresolve : ∀ p ∈ r.patches, ∀ e, (resolveTargets program r p).outcome = .error e → fails e)
    (hanalysis : ∀ p ∈ r.patches, ∀ m body cause, r.Reaches program p m →
      targetBody program p m = .ok body → body.depths = .error cause →
        fails (.stackAnalysis m cause)) :
    Analysing.Ensures program.body? (r.Choice program settings) fails
      (selectAll program settings r) := by
  unfold selectAll
  -- after some of the patches, what these add is there, and nothing else
  refine .bind (.foldlM (fun done (s : Selection) => s.Holds (fun m o id => ∃ patch ∈ done,
      r.Reaches program patch m ∧ patch.GoesTo program settings m o ∧ id = patch.id)
        ∧ s.Ordered ∧ ∀ patch ∈ done, patch.Selectable program r) ?_ ?_)
    fun s hs => .bind (.lift_ok rfl) fun _ _ => .pure ⟨hs.1, hs.2.1, hs.2.2⟩
  · exact ⟨⟨Selection.tidy_empty, by simp [Selection.Selects]⟩, fun x hx => by contradiction,
      by simp⟩
  · rintro done patch rest s hpatches ⟨⟨htidy, hselects⟩, hordered, hselectable⟩
    have hpatch : patch ∈ r.patches := by simp [hpatches]
    refine (ensures_selectPatch htidy (hresolve patch hpatch) (hanalysis patch hpatch)).mono ?_
      fun _ he => he
    rintro s' ⟨⟨⟨htidy', hselects'⟩, hordered', -⟩, hselectable'⟩
    refine ⟨⟨htidy', fun m o id => ?_⟩, (hordered' ⟨hordered, fun m o id hid => ?_⟩).ordered, ?_⟩
    · rw [hselects', hselects]
      simp [or_and_right, exists_or]
    · obtain ⟨p, hp, -, -, rfl⟩ := (hselects m o id).mp hid
      rw [hpatches, List.pairwise_append] at hids
      exact hids.2.2 p hp patch List.mem_cons_self
    · intro p hp
      rcases List.mem_append.mp hp with hp | hp
      · exact hselectable p hp
      · obtain rfl := List.mem_singleton.mp hp
        exact hselectable'

end

end PatchWeaver

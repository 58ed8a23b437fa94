/-
  PatchWeaver.Proofs.Precedence
  ─────────────────────────────
  **WHO COMES FIRST AT AN INSTRUCTION.**

  The patches of one instruction are called in the order of their rank: by
  descending priority, and among equals by ascending number.  Numbers are not
  compared when the patches are sorted.  They decide all the same, as sorting
  keeps the order of equals, and every group of a selection comes in ascending
  order:

      patches of the registry    taken one after the other, by number
      group of an instruction    each patch is added at its end, and once
      sorted by priority         equals stay in the order of the group

  So the patches of a plan are those of the group, each once and by rank, and
  the replacing patch is the one that outranks all others.  The others are left
  out, and it is an error exactly if one of them may not be.

  Main results:
    * `ranked_byPriority` — sorting a group in order puts it in order of rank.
    * `ensures_selectAll_inOrder` — the groups of any selection are in order.
    * `resolveSite_by_rank` — what becomes of every group of a selection.
-/
import Mathlib.Data.List.Sort
import PatchWeaver.Proofs.Plans
import PatchWeaver.Proofs.Selecting
import PatchWeaver.Proofs.Targets

namespace PatchWeaver

/-! ## §1. Sorting by priority. -/

/-- A contender goes ahead of another: its priority is higher, or the same, and its number is
smaller. -/
def Contender.Outranks (a b : Contender) : Prop :=
  b.patch.priority.toInt < a.patch.priority.toInt
    ∨ (a.patch.priority.toInt = b.patch.priority.toInt ∧ a.id < b.id)

theorem Contender.precedes_iff {a b : Contender} :
    a.precedes b = true ↔ b.patch.priority.toInt ≤ a.patch.priority.toInt := by
  simp [precedes]

theorem Contender.precedes_trans (a b c : Contender) (hab : a.precedes b = true)
    (hbc : b.precedes c = true) : a.precedes c = true := by
  rw [precedes_iff] at hab hbc ⊢
  omega

theorem Contender.precedes_total (a b : Contender) : (a.precedes b || b.precedes a) = true := by
  rw [Bool.or_eq_true, precedes_iff, precedes_iff]
  omega

/-- **Sorting keeps the order of equals**: those of one priority are the same list as before. -/
theorem filter_byPriority (contenders : List Contender) (priority : Int) :
    (byPriority contenders).filter (·.patch.priority.toInt = priority)
      = contenders.filter (·.patch.priority.toInt = priority) := by
  -- patches of one priority are in order as they stand, so a stable sort keeps them in line
  have hequal : (contenders.filter (·.patch.priority.toInt = priority)).Pairwise
      fun a b => a.precedes b = true := by
    refine List.pairwise_of_forall_mem_list fun a ha b hb => ?_
    have ha' : a.patch.priority.toInt = priority := by simpa using (List.mem_filter.mp ha).2
    have hb' : b.patch.priority.toInt = priority := by simpa using (List.mem_filter.mp hb).2
    rw [Contender.precedes_iff]
    omega
  have hsub : (contenders.filter (·.patch.priority.toInt = priority)).Sublist
      (byPriority contenders) :=
    List.sublist_mergeSort Contender.precedes_trans Contender.precedes_total hequal
      List.filter_sublist
  have hsub' := hsub.filter (·.patch.priority.toInt = priority)
  rw [List.filter_filter] at hsub'
  simp only [Bool.and_self] at hsub'
  -- nothing is added to them, so the kept line is all there is of that priority
  have hperm := (List.mergeSort_perm contenders Contender.precedes).filter
    (·.patch.priority.toInt = priority)
  exact (hsub'.eq_of_length hperm.length_eq.symm).symm

/-- **A group in order is sorted by rank.** -/
theorem ranked_byPriority {contenders : List Contender}
    (h : contenders.Pairwise (·.id < ·.id)) :
    (byPriority contenders).Pairwise Contender.Outranks := by
  have hsorted : (byPriority contenders).Pairwise fun a b => a.precedes b = true :=
    List.pairwise_mergeSort Contender.precedes_trans Contender.precedes_total contenders
  rw [List.pairwise_iff_forall_sublist]
  intro a b hab
  have hle := Contender.precedes_iff.mp (List.pairwise_iff_forall_sublist.mp hsorted hab)
  by_cases heq : a.patch.priority.toInt = b.patch.priority.toInt
  · -- equals stand as they did in the group
    have hpair := hab.filter (·.patch.priority.toInt = b.patch.priority.toInt)
    rw [filter_byPriority] at hpair
    have hpair' : [a, b].Sublist contenders := by
      simpa [heq] using hpair.trans List.filter_sublist
    exact .inr ⟨heq, List.pairwise_iff_forall_sublist.mp h hpair'⟩
  · exact .inl (by omega)

/-! ## §2. Groups. -/

section

variable (r : Registry) (ids : List PatchId)

/-- The patch of one number goes ahead of that of another. -/
def Registry.Outranks (a b : PatchId) : Prop :=
  ∃ p q, r.patch? a = some p ∧ r.patch? b = some q
    ∧ (q.priority.toInt < p.priority.toInt ∨ (p.priority.toInt = q.priority.toInt ∧ a < b))

/-- The patch of a number goes to a placement. -/
def Registry.PlacedAt (placement : Placement) (id : PatchId) : Prop :=
  ∃ p, r.patch? id = some p ∧ p.kind.placement? = some placement

/-- The patches of a group that go to a placement, each once and by rank. -/
structure Registry.Queues (placement : Placement) (line : List PatchId) : Prop where
  mem_iff : ∀ id, id ∈ line ↔ id ∈ ids ∧ r.PlacedAt placement id
  once : line.Nodup
  ranked : line.Pairwise r.Outranks

/-- The replacing patch of a group that comes first. -/
structure Registry.Wins (winner : PatchId) : Prop where
  mem : winner ∈ ids
  replaces : r.PlacedAt .replace winner
  first : ∀ id ∈ ids, r.PlacedAt .replace id → id ≠ winner → r.Outranks winner id

/-- A replacing patch of a group that does not come first, though it is required. -/
structure Registry.Deprived (loser : PatchId) : Prop where
  mem : loser ∈ ids
  replaces : r.PlacedAt .replace loser
  required : ∃ p, r.patch? loser = some p ∧ p.injector.required = true
  loses : ¬ r.Wins ids loser

/-- A plan has every patch of a group by rank, but of the replacing ones the first only. -/
structure Registry.Ranks (plan : SitePlan) : Prop where
  before : r.Queues ids .before plan.before
  after : r.Queues ids .after plan.after
  replace_iff : ∀ id, plan.replace = some id ↔ r.Wins ids id
  replace_none_iff : plan.replace = none ↔ ∀ id ∈ ids, ¬ r.PlacedAt .replace id

end

section

variable {r : Registry} {ids : List PatchId}

theorem Registry.Outranks.asymm {a b : PatchId} (h : r.Outranks a b) : ¬ r.Outranks b a := by
  intro h'
  obtain ⟨p, q, hp, hq, hrank⟩ := h
  obtain ⟨q', p', hq', hp', hrank'⟩ := h'
  obtain rfl := Option.some_inj.mp (hp.symm.trans hp')
  obtain rfl := Option.some_inj.mp (hq.symm.trans hq')
  rcases hrank with hhigher | ⟨hequal, hless⟩
  · omega
  · rcases hrank' with hhigher' | ⟨-, hless'⟩
    · omega
    · exact Nat.lt_asymm hless hless'

/-- Numbers of the registry have their contenders. -/
theorem exists_contenders (hknown : ∀ id ∈ ids, ∃ p, r.patch? id = some p) :
    ∃ contenders, r.contenders ids = .ok contenders ∧ contenders.map (·.id) = ids := by
  induction ids with
  | nil => exact ⟨[], rfl, rfl⟩
  | cons id rest ih =>
    obtain ⟨⟨p, hp⟩, hrest⟩ := List.forall_mem_cons.mp hknown
    obtain ⟨contenders, hcontenders, hids⟩ := ih hrest
    refine ⟨⟨id, p⟩ :: contenders, ?_, by rw [List.map_cons, hids]⟩
    unfold Registry.contenders at hcontenders ⊢
    rw [List.mapM_cons, hp, hcontenders]
    rfl

variable {contenders : List Contender}

theorem outranks_of_contenders (hcontenders : r.contenders ids = .ok contenders) {a b : Contender}
    (ha : a ∈ contenders) (hb : b ∈ contenders) (h : a.Outranks b) : r.Outranks a.id b.id :=
  ⟨a.patch, b.patch, (of_mem_contenders hcontenders ha).2, (of_mem_contenders hcontenders hb).2, h⟩

/-- **The patches of a placement, in order of rank.** -/
theorem queues_placed (hcontenders : r.contenders ids = .ok contenders)
    (hids : contenders.map (·.id) = ids) (horder : ids.Pairwise (· < ·)) (placement : Placement) :
    r.Queues ids placement ((placed placement (byPriority contenders)).map (·.id)) := by
  -- neither sorting nor filtering by placement loses or adds a patch
  have hmem : ∀ c, c ∈ placed placement (byPriority contenders)
      ↔ c ∈ contenders ∧ c.placement? = some placement := by
    intro c
    unfold placed byPriority
    rw [List.mem_filter, List.mem_mergeSort, decide_eq_true_iff]
  -- ties of priority are settled by the order of the group, which is ascending
  have hranked : (placed placement (byPriority contenders)).Pairwise
      fun a b => r.Outranks a.id b.id := by
    have hascending : contenders.Pairwise (·.id < ·.id) := by
      rw [← List.pairwise_map, hids]
      exact horder
    refine ((ranked_byPriority hascending).filter _).imp_of_mem fun ha hb h => ?_
    exact outranks_of_contenders hcontenders ((hmem _).mp ha).1 ((hmem _).mp hb).1 h
  refine ⟨fun id => ?_, ?_, ?_⟩
  · rw [List.mem_map]
    constructor
    · intro h
      obtain ⟨c, hc, hid⟩ := h
      obtain ⟨hc, hplacement⟩ := (hmem c).mp hc
      obtain ⟨hselected, hpatch⟩ := of_mem_contenders hcontenders hc
      subst hid
      exact ⟨hselected, c.patch, hpatch, hplacement⟩
    · intro ⟨hid, p, hp, hplacement⟩
      rw [← hids] at hid
      obtain ⟨c, hc, hid⟩ := List.mem_map.mp hid
      subst hid
      have hpatch := (of_mem_contenders hcontenders hc).2
      obtain rfl := Option.some_inj.mp (hpatch.symm.trans hp)
      exact ⟨c, (hmem c).mpr ⟨hc, hplacement⟩, rfl⟩
  · rw [List.Nodup, List.pairwise_map]
    refine hranked.imp fun h heq => ?_
    rw [heq] at h
    exact h.asymm h
  · rw [List.pairwise_map]
    exact hranked

/-- The first of the replacing patches wins, and no other. -/
theorem head?_eq_some_iff_wins {line : List PatchId} (h : r.Queues ids .replace line)
    {id : PatchId} : line.head? = some id ↔ r.Wins ids id := by
  cases line with
  | nil =>
    refine ⟨nofun, fun hwins => ?_⟩
    have hnone := (h.mem_iff id).mpr ⟨hwins.mem, hwins.replaces⟩
    contradiction
  | cons first rest =>
    have hfirst : r.Wins ids first := by
      obtain ⟨hmem, hreplaces⟩ := (h.mem_iff first).mp List.mem_cons_self
      refine ⟨hmem, hreplaces, fun other hother hreplaces' hne => ?_⟩
      have hline := (h.mem_iff other).mpr ⟨hother, hreplaces'⟩
      rcases List.mem_cons.mp hline with heq | hrest
      · exact absurd heq hne
      · exact (List.pairwise_cons.mp h.ranked).1 other hrest
    rw [List.head?_cons, Option.some_inj]
    constructor
    · intro heq
      rw [← heq]
      exact hfirst
    · intro hwins
      by_contra hne
      -- two winners would outrank each other
      have hover := hfirst.first id hwins.mem hwins.replaces (Ne.symm hne)
      exact hover.asymm (hwins.first first hfirst.mem hfirst.replaces hne)

/-! ## §3. Losers. -/

theorem outcome_displace (m : MethodRef) (o : Nat) (winner loser : Contender) :
    (displace m o winner loser).outcome = if loser.patch.injector.required then
      .error (.requiredDisplaced loser.patch.describe winner.patch.describe m o) else .ok () := by
  unfold displace
  split
  · rfl
  · exact Traced.outcome_note _ _ _

/-- **Losers are left out, unless one of them is required.** -/
theorem displace_losers (m : MethodRef) (o : Nat) (winner : Contender) (losers : List Contender) :
    ((losers.forM (displace m o winner)).outcome = .ok ()
        ∧ ∀ c ∈ losers, c.patch.injector.required = false)
      ∨ ∃ c ∈ losers, c.patch.injector.required = true
        ∧ (losers.forM (displace m o winner)).outcome
          = .error (.requiredDisplaced c.patch.describe winner.patch.describe m o) := by
  induction losers with
  | nil => exact .inl ⟨rfl, List.forall_mem_nil _⟩
  | cons loser rest ih =>
    have hstep : ((loser :: rest).forM (displace m o winner)).outcome
        = (displace m o winner loser).outcome >>= fun _ =>
          (rest.forM (displace m o winner)).outcome := by
      change (displace m o winner loser >>= fun _ => rest.forM (displace m o winner)).outcome = _
      rw [Traced.outcome_bind]
    rw [hstep, outcome_displace]
    -- the first required loser ends the loop; the others are only noted
    by_cases hrequired : loser.patch.injector.required = true
    · rw [if_pos hrequired, error_bind]
      exact .inr ⟨loser, List.mem_cons_self, hrequired, rfl⟩
    · rw [if_neg hrequired, ok_bind]
      rcases ih with ⟨hok, hnone⟩ | ⟨c, hc, hcrequired, herror⟩
      · exact .inl ⟨hok, List.forall_mem_cons.mpr ⟨Bool.eq_false_iff.mpr hrequired, hnone⟩⟩
      · exact .inr ⟨c, List.mem_cons_of_mem _ hc, hcrequired, herror⟩

end

/-! ## §4. The groups of a selection. -/

/-- Groups in ascending order, whose patches are some of the given ones. -/
structure Selection.InOrder (s : Selection) (patches : List Patch) : Prop where
  ordered : s.Ordered
  exists_of_selects : ∀ m o id, s.Selects m o id → ∃ p ∈ patches, p.id = id

/-- Nothing is said of a cache when no body is known. -/
theorem Analysing.ensures_true {α : Type} (x : Analysing α) :
    Analysing.Ensures (fun _ => none) (fun _ => True) (fun _ => True) x := by
  intro cache _
  refine ⟨fun _ _ _ hnone => by contradiction, ?_⟩
  exact (Yields.of_errors fun _ _ => trivial).mono (fun _ _ => trivial) fun _ h => h

section

variable {program : Program} {settings : ShiftSettings} {r : Registry} {patch : Patch}
  {s : Selection} {patches : List Patch}

/-- A patch that is no smaller than the others is added behind them. -/
theorem Selection.InOrder.orderedUpTo (h : s.InOrder patches)
    (hle : ∀ p ∈ patches, p.id ≤ patch.id) :
    s.OrderedUpTo patch.id := by
  refine ⟨h.ordered, fun m o id hselects => ?_⟩
  obtain ⟨p, hp, hid⟩ := h.exists_of_selects m o id hselects
  rw [← hid]
  exact hle p hp

/-- **Selecting a patch in one method** keeps groups in order, whatever the cache says. -/
theorem ensures_selectInMethod_inOrder {m : MethodRef} (hordered : s.InOrder patches)
    (hmem : patch ∈ patches) (hle : ∀ p ∈ patches, p.id ≤ patch.id) :
    Analysing.Ensures (fun _ => none) (Selection.InOrder · patches) (fun _ => True)
      (selectInMethod program settings patch s m) := by
  unfold selectInMethod
  split
  · exact .bind (Analysing.ensures_true _) fun _ _ => .pure hordered
  · refine .bind (Analysing.ensures_true _) fun depths _ =>
      .bind (Analysing.ensures_true _) fun offsets _ => .pure ⟨?_, fun m' o id hselects => ?_⟩
    · exact (hordered.orderedUpTo hle).foldl_associate.ordered
    · rcases Selection.selects_foldl_associate.mp hselects with hold | ⟨-, -, hid⟩
      · exact hordered.exists_of_selects m' o id hold
      · exact ⟨patch, hmem, hid.symm⟩

/-- **Selecting the patches in turn** keeps groups in order, whatever the cache says. -/
theorem ensures_selectAll_inOrder (program : Program) (settings : ShiftSettings)
    (hids : r.patches.Pairwise (·.id ≤ ·.id)) :
    Analysing.Ensures (fun _ => none) (Selection.InOrder · r.patches) (fun _ => True)
      (selectAll program settings r) := by
  unfold selectAll
  refine .bind (.foldlM (fun done s => Selection.InOrder s done) ?_ ?_) fun s hs =>
    .bind (Analysing.ensures_true _) fun _ _ => .pure hs
  · refine ⟨fun x hx => by contradiction, fun m o id hselects => ?_⟩
    obtain ⟨offsets, hmem, -⟩ := hselects
    contradiction
  · intro done patch rest s hpatches hordered
    -- numbers ascend along the registry, so none before this patch is greater
    have hle : ∀ p ∈ done ++ [patch], p.id ≤ patch.id := by
      rw [hpatches, List.pairwise_append] at hids
      intro p hp
      rcases List.mem_append.mp hp with hp | hp
      · exact hids.2.2 p hp patch List.mem_cons_self
      · rw [List.mem_singleton.mp hp]
    have hmem : patch ∈ done ++ [patch] := by simp
    unfold selectPatch
    refine .bind (Analysing.ensures_true _) fun methods _ => ?_
    refine .foldlM (fun _ s => Selection.InOrder s (done ++ [patch])) ?_ ?_
    · refine ⟨hordered.ordered, fun m o id hselects => ?_⟩
      obtain ⟨p, hp, hid⟩ := hordered.exists_of_selects m o id hselects
      exact ⟨p, List.mem_append_left _ hp, hid⟩
    · exact fun _ m _ s _ hs => ensures_selectInMethod_inOrder hs hmem hle

end

/-! ## §5. Plans by rank. -/

section

variable {r : Registry} {ids : List PatchId} {contenders : List Contender}

/-- The plan of a group in order has its patches by rank. -/
theorem ranks_planOf (hcontenders : r.contenders ids = .ok contenders)
    (hids : contenders.map (·.id) = ids) (horder : ids.Pairwise (· < ·)) :
    r.Ranks ids (planOf (byPriority contenders)) := by
  have hqueues := queues_placed hcontenders hids horder
  have hhead : (planOf (byPriority contenders)).replace
      = ((placed .replace (byPriority contenders)).map (·.id)).head? := by
    rw [List.head?_map]
    rfl
  refine ⟨hqueues .before, hqueues .after, fun id => ?_, ?_⟩
  · rw [hhead]
    exact head?_eq_some_iff_wins (hqueues .replace)
  · rw [hhead, List.head?_eq_none_iff, List.eq_nil_iff_forall_not_mem]
    refine forall_congr' fun id => ?_
    rw [(hqueues .replace).mem_iff, not_and]

/-- **What becomes of a group in order**: a plan by rank, or the error that a required patch is
left out. -/
theorem resolveSite_of_ascending (m : MethodRef) (o : Nat) (horder : ids.Pairwise (· < ·))
    (hknown : ∀ id ∈ ids, ∃ p, r.patch? id = some p) :
    (∃ plan, (r.resolveSite m o ids).outcome = .ok plan ∧ r.Ranks ids plan
        ∧ ∀ id, ¬ r.Deprived ids id)
      ∨ ∃ loser winner p q, r.Deprived ids loser ∧ r.Wins ids winner
        ∧ r.patch? loser = some p ∧ r.patch? winner = some q
        ∧ (r.resolveSite m o ids).outcome
          = .error (.requiredDisplaced p.describe q.describe m o) := by
  obtain ⟨contenders, hcontenders, hids⟩ := exists_contenders hknown
  have hranks := ranks_planOf hcontenders hids horder
  have hqueue := queues_placed hcontenders hids horder .replace
  have houtcome : (r.resolveSite m o ids).outcome
      = (displaceLosers m o (placed .replace (byPriority contenders))).outcome >>= fun _ =>
        .ok (planOf (byPriority contenders)) := by
    unfold Registry.resolveSite
    simp only [Traced.outcome_bind, Traced.outcome_lift, hcontenders, ok_bind, Traced.outcome_pure]
  have hmade : ∀ c ∈ placed .replace (byPriority contenders), r.patch? c.id = some c.patch := by
    intro c hc
    have hc : c ∈ contenders := List.mem_mergeSort.mp (List.mem_filter.mp hc).1
    exact (of_mem_contenders hcontenders hc).2
  rw [houtcome]
  cases hplaced : placed .replace (byPriority contenders) with
  | nil =>
    rw [hplaced] at hqueue
    refine .inl ⟨_, rfl, hranks, fun id hdeprived => ?_⟩
    have hnone := (hqueue.mem_iff id).mpr ⟨hdeprived.mem, hdeprived.replaces⟩
    contradiction
  | cons winner losers =>
    rw [hplaced] at hqueue hmade
    have hwins : r.Wins ids winner.id := (head?_eq_some_iff_wins hqueue).mp rfl
    have hloser : ∀ c ∈ losers, c.id ≠ winner.id := by
      intro c hc heq
      exact (List.nodup_cons.mp hqueue.once).1 (List.mem_map.mpr ⟨c, hc, heq⟩)
    rcases displace_losers m o winner losers with ⟨hok, hnone⟩ | ⟨c, hc, hrequired, herror⟩
    · refine .inl ⟨planOf (byPriority contenders), ?_, hranks, fun id hdeprived => ?_⟩
      · change (losers.forM (displace m o winner)).outcome >>= _ = _
        rw [hok]
        rfl
      · -- whoever does not win is among those that may be left out
        have hline := (hqueue.mem_iff id).mpr ⟨hdeprived.mem, hdeprived.replaces⟩
        rcases List.mem_cons.mp hline with heq | hrest
        · rw [heq] at hdeprived
          exact hdeprived.loses hwins
        · obtain ⟨c, hc, hid⟩ := List.mem_map.mp hrest
          obtain ⟨p, hp, hrequired⟩ := hdeprived.required
          rw [← hid, hmade c (List.mem_cons_of_mem _ hc)] at hp
          obtain rfl := Option.some_inj.mp hp
          rw [hnone c hc] at hrequired
          contradiction
    · have hpatch := hmade c (List.mem_cons_of_mem _ hc)
      have hmem : c.id ∈ (winner :: losers).map (·.id) :=
        List.mem_map.mpr ⟨c, List.mem_cons_of_mem _ hc, rfl⟩
      obtain ⟨hgroup, hreplaces⟩ := (hqueue.mem_iff c.id).mp hmem
      refine .inr ⟨c.id, winner.id, c.patch, winner.patch, ⟨hgroup, hreplaces,
        ⟨c.patch, hpatch, hrequired⟩, fun hcwins => ?_⟩, hwins, hpatch,
        hmade winner List.mem_cons_self, ?_⟩
      · -- there is one winner only
        have hhead := (head?_eq_some_iff_wins hqueue).mpr hcwins
        exact hloser c hc (Option.some_inj.mp hhead).symm
      · change (losers.forM (displace m o winner)).outcome >>= _ = _
        rw [herror]
        rfl

end

/-- **Plans follow rank, and nobody is left out silently who may not be.** Every group of patches
that is selected for an instruction comes to a plan by rank, or to the error that a required patch
would be left out; and to this error exactly if there is such a patch. -/
theorem resolveSite_by_rank {program host : Program} {mixins : List Mixin} {r : Registry}
    {settings : ShiftSettings} {cache : DepthCache} {selection : Selection} {m : MethodRef}
    {offsets : Offsets} {o : Nat} {ids : List PatchId}
    (hscan : (Registry.scan program mixins).outcome = .ok r)
    (hselect : (selectAll host settings r).outcome cache = .ok selection)
    (hm : (m, offsets) ∈ selection.methods) (ho : (o, ids) ∈ offsets) :
    ((∃ plan, (r.resolveSite m o ids).outcome = .ok plan ∧ r.Ranks ids plan)
        ∨ ∃ loser winner, (r.resolveSite m o ids).outcome
          = .error (.requiredDisplaced loser winner m o))
      ∧ ((∃ loser winner, (r.resolveSite m o ids).outcome
          = .error (.requiredDisplaced loser winner m o)) ↔ ∃ id, r.Deprived ids id) := by
  obtain ⟨-, rfl⟩ := scan_eq_ok_iff.mp hscan
  -- the order of a group is what selecting leaves, whatever depths the cache holds
  have horder : selection.InOrder (scanned program mixins).patches := by
    have hcontract := ensures_selectAll_inOrder host settings
      (pairwise_id_patches_scanned program mixins) cache (fun _ _ _ hnone => by contradiction)
    rw [hselect] at hcontract
    cases hcontract.2
    assumption
  have hascending : ids.Pairwise (· < ·) := horder.ordered _ hm _ ho
  -- so no number of the group is unknown to the registry
  have hknown : ∀ id ∈ ids, ∃ p, (scanned program mixins).patch? id = some p := by
    intro id hid
    obtain ⟨p, hp, heq⟩ := horder.exists_of_selects m o id ⟨offsets, hm, ids, ho, hid⟩
    rw [← heq]
    exact ⟨p, patch?_id_of_mem hp⟩
  rcases resolveSite_of_ascending m o hascending hknown with
    ⟨plan, hplan, hranks, hnobody⟩ | ⟨loser, winner, p, q, hdeprived, -, -, -, herror⟩
  · refine ⟨.inl ⟨plan, hplan, hranks⟩, ?_⟩
    constructor
    · intro ⟨_, _, herror⟩
      rw [hplan] at herror
      contradiction
    · intro ⟨id, hdeprived⟩
      exact absurd hdeprived (hnobody id)
  · exact ⟨.inr ⟨_, _, herror⟩, fun _ => ⟨loser, hdeprived⟩, fun _ => ⟨_, _, herror⟩⟩

/-! ### Three patches that replace one constant. -/

namespace Contest

/-- A method with one constant. -/
def run : MethodDef :=
  { Twins.run with body := some (.ofInstructions [.push (.int 3), .pop, .ret]) }

/-- The program that declares it. -/
def program : Program :=
  ⟨[(Twins.a, { superclass := none, methods := [run] })], by unfold ClassTable.Ordered; decide⟩

/-- A patch that replaces the constant. -/
def replacement (name : MemberName) (priority : Int32) : MixinMethod where
  name := name
  descriptor := ⟨[.int], some .int⟩
  isStatic := true
  injectors := [{ kind := .modifyConstant .dont, priority := some priority }]
  targets := [{ name := run.name }]
  selectors := [{ kind := .loadConstant (.int 3) }]

/-- Three such patches, of which the last two are of equal priority. -/
def mixin : Mixin where
  name := Twins.mixin
  targets := [Twins.a]
  methods :=
    [replacement ⟨"low", segmentFault?_eq_none_iff.mp rfl⟩ 0,
      replacement ⟨"high", segmentFault?_eq_none_iff.mp rfl⟩ 5,
      replacement ⟨"late", segmentFault?_eq_none_iff.mp rfl⟩ 5]

/-- What a scan makes of them. -/
def registry : Registry := scanned program [mixin]

/-- All three go to the constant, in the order of their numbers. -/
def selection : Selection := ⟨[(run.ref Twins.a, [(0, [0, 1, 2])])]⟩

theorem scan_mixin : (Registry.scan program [mixin]).outcome = .ok registry := rfl

theorem selectAll_registry : (selectAll program {} registry).outcome {} = .ok selection := by
  decide +kernel

theorem not_required {id : PatchId} {p : Patch} (hid : id ∈ [0, 1, 2])
    (hp : registry.patch? id = some p) : p.injector.required = false := by
  have hall : ∀ id ∈ [0, 1, 2], ∀ p ∈ registry.patch? id, p.injector.required = false := by decide
  exact hall id hid p hp

theorem wins : registry.Wins [0, 1, 2] 1 := by
  refine ⟨by decide, ⟨_, rfl, rfl⟩, fun id hid _ hne => ?_⟩
  rcases List.mem_cons.mp hid with heq | hid
  · rw [heq]
    exact ⟨_, _, rfl, rfl, .inl (by decide)⟩
  rcases List.mem_cons.mp hid with heq | hid
  · exact absurd heq hne
  · -- the same priority, found later
    rw [List.mem_singleton.mp hid]
    exact ⟨_, _, rfl, rfl, .inr ⟨rfl, by decide⟩⟩

end Contest

/-- The first of the two patches of high priority wins. -/
theorem resolveSite_by_rank_contest :
    ∃ plan, (Contest.registry.resolveSite (Contest.run.ref Twins.a) 0 [0, 1, 2]).outcome = .ok plan
      ∧ Contest.registry.Ranks [0, 1, 2] plan ∧ plan.replace = some 1 := by
  obtain ⟨hrank, hiff⟩ := resolveSite_by_rank Contest.scan_mixin Contest.selectAll_registry
    List.mem_cons_self List.mem_cons_self
  rcases hrank with ⟨plan, hplan, hranks⟩ | herror
  · exact ⟨plan, hplan, hranks, (hranks.replace_iff 1).mpr Contest.wins⟩
  · -- nobody who loses is required
    obtain ⟨id, hdeprived⟩ := hiff.mp herror
    obtain ⟨p, hp, hrequired⟩ := hdeprived.required
    rw [Contest.not_required hdeprived.mem hp] at hrequired
    contradiction

end PatchWeaver

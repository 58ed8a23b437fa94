/-
  PatchWeaver.Proofs.Sweeping
  ───────────────────────────
  **SELECTING MEANS WHAT IT SAYS.**

  A patch is selected in a body by one pass with a tally for every selector.
  What the pass comes to can be said without it.  A selector keeps the
  positions that have its shape, all of them or the one of its ordinal:

      s.Keeps body i   i has the shape, and as many positions in front of it
                       do as the ordinal says

  After the positions below `n`, the tally of a selector holds what these
  positions give (`tallyAt`), the offsets are those that they lead to, and the
  events are what came of them, so after the last one

      o is selected  ↔  some selector keeps some i, and o is i moved by its
                        shift, in the body, reachable, and fit for the patch

  Every kept match that does not lead to its offset makes one report, that of
  the first condition which fails, and every selector none of whose kept
  matches leads into the body makes one.

  Main results:
    * `look_tallyAt`, `sweep_eq` — one test, and the whole pass.
    * `select_eq` — what the pass comes to, without counting.
    * `select_means` — the offsets and the reports of a selection.
-/
import Mathlib.Data.List.Induction
import Mathlib.Data.List.Sort
import PatchWeaver.Proofs.Outcome
import PatchWeaver.Weave.Selection

namespace PatchWeaver

/-! ## §1. The matches that a selector keeps. -/

/-- The element behind `k` others that satisfy `p`, among the numbers below `n`. -/
theorem getElem?_filter_range (p : Nat → Bool) (n k i : Nat) :
    ((List.range n).filter p)[k]? = some i
      ↔ i < n ∧ p i = true ∧ (List.range i).countP p = k := by
  induction n with
  | zero => simp
  | succ n ih =>
    rw [List.range_succ, List.filter_append]
    have hlength : ((List.range n).filter p).length = (List.range n).countP p :=
      List.countP_eq_length_filter.symm
    by_cases hk : k < (List.range n).countP p
    · rw [List.getElem?_append_left (by omega), ih]
      constructor
      · rintro ⟨hi, hp, hcount⟩
        exact ⟨by omega, hp, hcount⟩
      · rintro ⟨hi, hp, hcount⟩
        have hne : i ≠ n := by
          rintro rfl
          omega
        exact ⟨by omega, hp, hcount⟩
    · rw [List.getElem?_append_right (by omega), hlength]
      -- no number below `n` is behind so many others
      have hbelow : i < n → p i = true → (List.range i).countP p < (List.range n).countP p := by
        intro hi hp
        have hmono : (List.range (i + 1)).countP p ≤ (List.range n).countP p :=
          (List.range_sublist.mpr (by omega)).countP_le
        rw [List.range_succ, List.countP_append, List.countP_singleton, if_pos hp] at hmono
        omega
      cases hpn : p n with
      | false =>
        simp only [List.filter_cons, hpn, List.filter_nil]
        constructor
        · simp
        · rintro ⟨hi, hp, hcount⟩
          have hne : i ≠ n := by
            rintro rfl
            simp [hpn] at hp
          have := hbelow (by omega) hp
          omega
      | true =>
        simp only [List.filter_cons, hpn, if_true, List.filter_nil, List.getElem?_singleton]
        constructor
        · intro h
          split at h
          · obtain rfl := Option.some_inj.mp h
            exact ⟨by omega, hpn, by omega⟩
          · contradiction
        · rintro ⟨hi, hp, hcount⟩
          have heq : i = n := by
            by_contra hne
            have := hbelow (by omega) hp
            omega
          rw [if_pos (by rw [← hcount, heq]; omega), heq]

/-- Numbering a list and keeping the numbers of some elements. -/
theorem filterMap_zipIdx {α : Type} (q : Nat → α → Bool) (l : List α) :
    l.zipIdx.filterMap (fun (a, i) => if q i a then some i else none)
      = (List.range l.length).filter fun i => (l[i]?).any (q i) := by
  induction l using List.reverseRecOn with
  | nil => rfl
  | append_singleton l a ih =>
    have hold : (List.range l.length).filter (fun i => ((l ++ [a])[i]?).any (q i))
        = (List.range l.length).filter fun i => (l[i]?).any (q i) := by
      refine List.filter_congr fun i hi => ?_
      rw [List.getElem?_append_left (List.mem_range.mp hi)]
    rw [List.zipIdx_append, List.filterMap_append, ih, List.length_append, List.length_singleton,
      List.range_succ, List.filter_append, hold]
    cases hq : q l.length a <;> simp [hq]

/-- The places of a list ascend. -/
theorem pairwise_zipIdx {α : Type} (l : List α) : l.zipIdx.Pairwise (·.2 < ·.2) := by
  rw [← List.pairwise_map, List.zipIdx_map_snd]
  exact List.pairwise_lt_range'

namespace Selector

variable (s : Selector) (body : Body)

/-- Whether the instruction at a position has the selector's shape. -/
def matchesAt (index : Nat) : Bool :=
  (body.entries[index]?).any fun e => s.kind.matches? body.length index e.instruction

/-- How many positions in front of a position have the selector's shape. -/
def matchesBefore (index : Nat) : Nat := (List.range index).countP (s.matchesAt body)

/-- A position has the selector's shape, and is the one of these that the ordinal asks for. -/
structure Keeps (index : Nat) : Prop where
  shape : s.matchesAt body index = true
  nth : ∀ k, s.ordinal = some k → s.matchesBefore body index = k

/-- The positions of a selector's shape that its ordinal keeps. -/
def kept (s : Selector) (body : Body) : List Nat :=
  match s.ordinal with
  | none => s.kind.positions body
  | some n => ((s.kind.positions body)[n]?).toList

variable {s body} {index : Nat}

theorem matchesAt_of_getElem? {e : Entry} (he : body.entries[index]? = some e) :
    s.matchesAt body index = s.kind.matches? body.length index e.instruction := by
  simp [matchesAt, he]

theorem lt_of_matchesAt (h : s.matchesAt body index = true) : index < body.length := by
  obtain ⟨e, he, -⟩ := Option.any_eq_true _ _ |>.mp h
  exact (List.getElem?_eq_some_iff.mp he).1

theorem matchesBefore_succ : s.matchesBefore body (index + 1)
    = s.matchesBefore body index + if s.matchesAt body index then 1 else 0 := by
  unfold matchesBefore
  rw [List.range_succ, List.countP_append, List.countP_singleton]

/-- The positions of a shape are those with a match. -/
theorem positions_eq :
    s.kind.positions body = (List.range body.length).filter (s.matchesAt body) :=
  filterMap_zipIdx (fun i (e : Entry) => s.kind.matches? body.length i e.instruction) body.entries

/-- **What an ordinal keeps, by counting.** -/
theorem mem_kept_iff : index ∈ s.kept body ↔ s.Keeps body index := by
  unfold kept
  rw [positions_eq]
  split
  · next hnone =>
    constructor
    · intro h
      exact ⟨(List.mem_filter.mp h).2, by simp [hnone]⟩
    · intro h
      exact List.mem_filter.mpr ⟨List.mem_range.mpr (lt_of_matchesAt h.shape), h.shape⟩
  · next n hsome =>
    -- the n-th match is the one with n matches before it
    rw [Option.mem_toList, getElem?_filter_range]
    constructor
    · rintro ⟨-, hshape, hcount⟩
      refine ⟨hshape, fun k hk => ?_⟩
      rw [hsome] at hk
      exact hcount.trans (Option.some_inj.mp hk)
    · intro h
      exact ⟨lt_of_matchesAt h.shape, h.shape, h.nth n hsome⟩

end Selector

/-! ## §2. A selection without counting. -/

namespace SelectionSite

/-- What comes of every match, by position and then by selector. -/
def outcomes (site : SelectionSite) : List MatchOutcome :=
  let kept := site.patch.selectors.map fun s => (s, s.kept site.body)
  (List.range site.body.length).flatMap fun index =>
    kept.filterMap fun (s, positions) =>
      if index ∈ positions then some (site.outcome s index) else none

/-- Whether some match of a selector leads to an offset in the body. -/
def isUsed (site : SelectionSite) (s : Selector) : Bool :=
  (s.kept site.body).any fun index => (s.offsetOf? site.settings site.body index).isSome

/-- A report for every selector that leads nowhere. -/
def unusedSelectors (site : SelectionSite) : List Event :=
  (site.patch.selectors.filter (!site.isUsed ·)).map fun s =>
    .warn .select (.unusedSelector (s.describe site.patch.mixin) site.method)

/-- The offsets that the patch goes to, in ascending order. -/
def offsets (site : SelectionSite) : List Nat :=
  let accepted := site.outcomes.filterMap MatchOutcome.offset?
  (List.range site.body.length).filter (· ∈ accepted)

variable (site : SelectionSite)

/-- What comes of a position for one selector. -/
def outcomeAt? (index : Nat) (s : Selector) : Option MatchOutcome :=
  if index ∈ s.kept site.body then some (site.outcome s index) else none

/-- What comes of the positions below `n`. -/
def outcomesBelow (n : Nat) : List MatchOutcome :=
  (List.range n).flatMap fun index => site.patch.selectors.filterMap (site.outcomeAt? index)

theorem outcomes_eq : site.outcomes = site.outcomesBelow site.body.length := by
  unfold outcomes outcomesBelow outcomeAt?
  simp only [List.filterMap_map, Function.comp_def]

theorem outcomesBelow_succ (n : Nat) : site.outcomesBelow (n + 1)
    = site.outcomesBelow n ++ site.patch.selectors.filterMap (site.outcomeAt? n) := by
  unfold outcomesBelow
  rw [List.range_succ, List.flatMap_append, List.flatMap_singleton]

/-! ## §3. The pass. -/

/-- The tally of a selector behind the positions below `n`. -/
def tallyAt (n : Nat) (s : Selector) : Tally where
  selector := s
  seen := s.matchesBefore site.body n
  used := (List.range n).any fun index =>
    decide (index ∈ s.kept site.body) && (s.offsetOf? site.settings site.body index).isSome

variable {site} {n : Nat} {e : Entry} {s : Selector}

theorem tallyAt_succ : site.tallyAt (n + 1) s
    = ⟨s, (site.tallyAt n s).seen + if s.matchesAt site.body n then 1 else 0,
      (site.tallyAt n s).used || (decide (n ∈ s.kept site.body)
        && (s.offsetOf? site.settings site.body n).isSome)⟩ := by
  simp [tallyAt, List.range_succ, Selector.matchesBefore_succ]

/-- What an ordinal is compared with is the number of matches in front. -/
theorem all_ordinal_iff : s.ordinal.all (· = (site.tallyAt n s).seen) = true
    ↔ ∀ k, s.ordinal = some k → s.matchesBefore site.body n = k := by
  rw [Option.all_eq_true]
  refine forall_congr' fun k => forall_congr' fun _ => ?_
  rw [decide_eq_true_iff]
  exact eq_comm

/-- **One test.** It counts a match, and tries it exactly if the ordinal keeps it. -/
theorem look_tallyAt (he : site.body.entries[n]? = some e) :
    site.look n e.instruction (site.tallyAt n s)
      = (site.tallyAt (n + 1) s, site.outcomeAt? n s) := by
  have hshape := Selector.matchesAt_of_getElem? (s := s) he
  have hkept : n ∈ s.kept site.body ↔ s.Keeps site.body n := Selector.mem_kept_iff
  rw [tallyAt_succ]
  unfold look outcomeAt?
  change (if s.kind.matches? _ _ _ then if s.ordinal.all _ then _ else _ else _) = _
  rw [← hshape]
  -- what does not match is not counted; what matches is counted, whether it is tried or not
  by_cases hmatch : s.matchesAt site.body n = true
  · rw [if_pos hmatch, if_pos hmatch]
    by_cases hnth : s.ordinal.all (· = (site.tallyAt n s).seen) = true
    · have hmem : n ∈ s.kept site.body := hkept.mpr ⟨hmatch, all_ordinal_iff.mp hnth⟩
      rw [if_pos hnth, if_pos hmem]
      simp [hmem, tallyAt]
    · have hmem : n ∉ s.kept site.body := fun h => hnth (all_ordinal_iff.mpr (hkept.mp h).nth)
      rw [if_neg hnth, if_neg hmem]
      simp [hmem, tallyAt]
  · have hmem : n ∉ s.kept site.body := fun h => hmatch (hkept.mp h).shape
    rw [if_neg hmatch, if_neg hmatch, if_neg hmem]
    simp [hmem, tallyAt]

/-! ### The offsets. -/

theorem mem_addOffset {o offset : Nat} {os : List Nat} :
    o ∈ addOffset offset os ↔ o = offset ∨ o ∈ os := by
  induction os with
  | nil => simp [addOffset]
  | cons head rest ih =>
    unfold addOffset
    split
    · simp
    · split
      · next heq =>
        subst heq
        simp
      · rw [List.mem_cons, ih, List.mem_cons]
        exact or_left_comm

theorem ascending_addOffset {offset : Nat} {os : List Nat} (h : os.Pairwise (· < ·)) :
    (addOffset offset os).Pairwise (· < ·) := by
  induction h with
  | nil => simp [addOffset]
  | @cons head rest hhead hrest ih =>
    -- the new offset goes in front, is there already, or goes further back
    unfold addOffset
    split
    · next hlt =>
      refine .cons (fun o ho => ?_) (.cons hhead hrest)
      rcases List.mem_cons.mp ho with rfl | ho
      · exact hlt
      · exact hlt.trans (hhead o ho)
    · split
      · exact .cons hhead hrest
      · refine .cons (fun o ho => ?_) ih
        rcases mem_addOffset.mp ho with rfl | ho
        · omega
        · exact hhead o ho

/-- Adding some offsets in turn. -/
theorem foldl_addOffset (added : List Nat) {os : List Nat} (h : os.Pairwise (· < ·)) :
    (added.foldl (fun os o => addOffset o os) os).Pairwise (· < ·)
      ∧ ∀ o, o ∈ added.foldl (fun os o => addOffset o os) os ↔ o ∈ os ∨ o ∈ added := by
  induction added generalizing os with
  | nil => exact ⟨h, by simp⟩
  | cons head rest ih =>
    have hhead : (addOffset head os).Pairwise (· < ·) := ascending_addOffset h
    obtain ⟨hascending, hmem⟩ := ih hhead
    refine ⟨hascending, fun o => ?_⟩
    rw [List.foldl_cons, hmem, mem_addOffset, List.mem_cons]
    exact or_assoc.trans or_left_comm

/-! ### The whole pass. -/

variable (site n) in
/-- What the pass has come to behind the positions below `n`. -/
structure SweptTo (sweep : Sweep) : Prop where
  tallies_eq : sweep.tallies = site.patch.selectors.map (site.tallyAt n)
  ascending : sweep.offsets.Pairwise (· < ·)
  mem_offsets_iff : ∀ o, o ∈ sweep.offsets
    ↔ o ∈ (site.outcomesBelow n).filterMap MatchOutcome.offset?
  events_eq : sweep.events = (site.outcomesBelow n).map site.event

/-- **One step of the pass.** -/
theorem SweptTo.visit {sweep : Sweep} (h : site.SweptTo n sweep)
    (he : site.body.entries[n]? = some e) : site.SweptTo (n + 1) (site.visit sweep (e, n)) := by
  have hlooks : sweep.tallies.map (site.look n e.instruction)
      = site.patch.selectors.map fun s => (site.tallyAt (n + 1) s, site.outcomeAt? n s) := by
    rw [h.tallies_eq, List.map_map]
    exact List.map_congr_left fun s _ => look_tallyAt he
  have houtcomes : (sweep.tallies.map (site.look n e.instruction)).filterMap (·.2)
      = site.patch.selectors.filterMap (site.outcomeAt? n) := by
    rw [hlooks, List.filterMap_map]
    rfl
  obtain ⟨hascending, hmem⟩ := foldl_addOffset
    ((site.patch.selectors.filterMap (site.outcomeAt? n)).filterMap MatchOutcome.offset?)
    h.ascending
  unfold SelectionSite.visit
  dsimp only
  rw [houtcomes]
  constructor
  · rw [hlooks, List.map_map]
    rfl
  · exact hascending
  · intro o
    rw [hmem, h.mem_offsets_iff, outcomesBelow_succ, List.filterMap_append, List.mem_append]
  · rw [h.events_eq, outcomesBelow_succ, List.map_append]

/-- **The pass through the first positions.** -/
theorem sweptTo_foldl (hn : n ≤ site.body.length) :
    site.SweptTo n ((site.body.entries.zipIdx.take n).foldl site.visit site.start) := by
  induction n with
  | zero =>
    constructor
    · simp [start, tallyAt, Selector.matchesBefore]
    · exact .nil
    · simp [start, outcomesBelow]
    · simp [start, outcomesBelow]
  | succ n ih =>
    have he : site.body.entries[n]? = some site.body.entries[n] := List.getElem?_eq_getElem hn
    have hplace : site.body.entries.zipIdx[n]? = some (site.body.entries[n], n) := by
      simp [List.getElem?_zipIdx, he]
    rw [List.take_add_one, hplace, Option.toList_some, List.foldl_concat]
    exact (ih (by omega)).visit he

/-! ## §4. What comes of a match. -/

variable (site) in
/-- The shift of a selector leads from a position to an offset of the body. -/
structure LeadsTo (s : Selector) (index o : Nat) : Prop where
  shifted : (o : Int) = index + s.resolveShift site.settings
  inBody : o < site.body.length

variable (site) in
/-- A match that the ordinal of a selector keeps leads to an offset where the patch can go. -/
structure Takes (s : Selector) (index o : Nat) : Prop where
  kept : s.Keeps site.body index
  leads : site.LeadsTo s index o
  reachable : site.depths.isReachable o = true
  fit : validateInstruction site.patch site.method site.body o = .ok ()

variable (site) in
/-- What is reported of a kept match: the first condition that fails, and nothing if none does. -/
inductive Verdict (s : Selector) (index : Nat) : Option Report → Prop where
  | outOfBounds (outside : ∀ o, ¬ site.LeadsTo s index o) :
      Verdict s index (some ⟨.error, .select, .shiftOutOfBounds (s.describe site.patch.mixin)
        site.method index (s.resolveShift site.settings)⟩)
  | unreachable {o : Nat} (leads : site.LeadsTo s index o)
      (unreachable : site.depths.isReachable o = false) :
      Verdict s index (some ⟨.warn, .select, .unreachableInjection site.patch.describe
        site.method o⟩)
  | rejected {o : Nat} {reason : Rejection} (leads : site.LeadsTo s index o)
      (reachable : site.depths.isReachable o = true)
      (unfit : validateInstruction site.patch site.method site.body o = .error reason) :
      Verdict s index (some ⟨.error, .select, .rejectedInstruction site.patch.describe
        site.method o reason⟩)
  | taken {o : Nat} (leads : site.LeadsTo s index o)
      (reachable : site.depths.isReachable o = true)
      (fit : validateInstruction site.patch site.method site.body o = .ok ()) :
      Verdict s index none

variable {index o : Nat}

theorem offsetOf?_eq_some_iff :
    s.offsetOf? site.settings site.body index = some o ↔ site.LeadsTo s index o := by
  dsimp only [Selector.offsetOf?, shifted?]
  constructor
  · intro h
    split at h
    · next hrange =>
      have ho := Option.some_inj.mp h
      exact ⟨by omega, by omega⟩
    · contradiction
  · rintro ⟨hshifted, hin⟩
    rw [if_pos (by omega)]
    exact congrArg some (by omega)

/-- **A match gets the verdict of the first check that it does not pass.** -/
theorem verdict_outcome (site : SelectionSite) (s : Selector) (index : Nat) :
    site.Verdict s index (site.event (site.outcome s index)).report? := by
  unfold outcome
  -- the checks in their order: the place of the offset, then the depth there, then the instruction
  cases hoffset : s.offsetOf? site.settings site.body index with
  | none =>
    refine .outOfBounds fun o hleads => ?_
    rw [offsetOf?_eq_some_iff.mpr hleads] at hoffset
    contradiction
  | some o =>
    have hleads := offsetOf?_eq_some_iff.mp hoffset
    dsimp only
    cases hreachable : site.depths.isReachable o with
    | false => exact .unreachable hleads hreachable
    | true =>
      cases hfit : validateInstruction site.patch site.method site.body o with
      | error reason => exact .rejected hleads hreachable hfit
      | ok => exact .taken hleads hreachable hfit

/-- A match contributes the offset that it leads to if that passes the checks. -/
theorem offset?_outcome_eq_some_iff : (site.outcome s index).offset? = some o
    ↔ site.LeadsTo s index o ∧ site.depths.isReachable o = true
      ∧ validateInstruction site.patch site.method site.body o = .ok () := by
  unfold outcome
  cases hoffset : s.offsetOf? site.settings site.body index with
  | none =>
    refine ⟨nofun, fun ⟨hleads, _⟩ => ?_⟩
    rw [offsetOf?_eq_some_iff.mpr hleads] at hoffset
    contradiction
  | some target =>
    rw [← offsetOf?_eq_some_iff, hoffset, Option.some_inj]
    dsimp only
    constructor
    · intro h
      split at h
      · contradiction
      · next hreachable =>
        split at h
        · contradiction
        · next hfit =>
          obtain rfl := Option.some_inj.mp h
          exact ⟨rfl, Decidable.not_not.mp hreachable, hfit⟩
    · rintro ⟨rfl, hreachable, hfit⟩
      rw [if_neg (not_not_intro hreachable), hfit]
      rfl

/-- The offsets that the matches contribute are those that some selector takes. -/
theorem mem_accepted_iff : o ∈ site.outcomes.filterMap MatchOutcome.offset?
    ↔ ∃ s ∈ site.patch.selectors, ∃ index, site.Takes s index o := by
  -- an outcome stands for a position and a selector that keeps it
  rw [outcomes_eq]
  simp only [outcomesBelow, List.mem_filterMap, List.mem_flatMap, List.mem_range, outcomeAt?]
  constructor
  · rintro ⟨outcome, ⟨index, -, s, hs, houtcome⟩, hoffset⟩
    split at houtcome
    · next hkept =>
      obtain rfl := Option.some_inj.mp houtcome
      obtain ⟨hleads, hreachable, hfit⟩ := offset?_outcome_eq_some_iff.mp hoffset
      exact ⟨s, hs, index, Selector.mem_kept_iff.mp hkept, hleads, hreachable, hfit⟩
    · contradiction
  · rintro ⟨s, hs, index, hkept, hleads, hreachable, hfit⟩
    refine ⟨site.outcome s index, ⟨index, Selector.lt_of_matchesAt hkept.shape, s, hs, ?_⟩,
      offset?_outcome_eq_some_iff.mpr ⟨hleads, hreachable, hfit⟩⟩
    rw [if_pos (Selector.mem_kept_iff.mpr hkept)]

theorem mem_offsets_iff :
    o ∈ site.offsets ↔ ∃ s ∈ site.patch.selectors, ∃ index, site.Takes s index o := by
  unfold offsets
  rw [List.mem_filter, decide_eq_true_iff, mem_accepted_iff, List.mem_range]
  refine and_iff_right_of_imp ?_
  rintro ⟨s, -, index, htakes⟩
  exact htakes.leads.inBody

theorem ascending_offsets (site : SelectionSite) : site.offsets.Pairwise (· < ·) :=
  List.pairwise_lt_range.filter _

theorem isUsed_iff : site.isUsed s = true
    ↔ ∃ index o, s.Keeps site.body index ∧ site.LeadsTo s index o := by
  unfold isUsed
  rw [List.any_eq_true]
  refine exists_congr fun index => ?_
  rw [Selector.mem_kept_iff, Option.isSome_iff_exists]
  simp only [offsetOf?_eq_some_iff, exists_and_left]

/-! ## §5. What a selection comes to. -/

theorem sweptTo_sweep (site : SelectionSite) : site.SweptTo site.body.length site.sweep := by
  have h : site.SweptTo site.body.length _ := sweptTo_foldl le_rfl
  rwa [List.take_of_length_le (by simp [Body.length])] at h

theorem used_tallyAt : (site.tallyAt site.body.length s).used = site.isUsed s := by
  rw [Bool.eq_iff_iff]
  unfold tallyAt isUsed
  simp only [List.any_eq_true, Bool.and_eq_true, decide_eq_true_iff]
  refine exists_congr fun index => ?_
  constructor
  · rintro ⟨-, h⟩
    exact h
  · rintro ⟨hkept, hsome⟩
    have hlt := Selector.lt_of_matchesAt (Selector.mem_kept_iff.mp hkept).shape
    exact ⟨List.mem_range.mpr hlt, hkept, hsome⟩

/-- **The pass finds what can be said without counting.** -/
theorem select_eq (site : SelectionSite) :
    site.select = ⟨.ok site.offsets, site.outcomes.map site.event ++ site.unusedSelectors⟩ := by
  have hswept := site.sweptTo_sweep
  have hoffsets : site.sweep.offsets = site.offsets := by
    refine List.Pairwise.eq_of_mem_iff hswept.ascending site.ascending_offsets fun o => ?_
    rw [hswept.mem_offsets_iff, ← outcomes_eq, mem_accepted_iff, mem_offsets_iff]
  have hunused : (site.sweep.tallies.filter (!·.used)).map (site.unused ·.selector)
      = site.unusedSelectors := by
    rw [hswept.tallies_eq, List.filter_map, List.map_map]
    simp only [Function.comp_def, used_tallyAt]
    rfl
  dsimp only [select]
  rw [hoffsets, hunused, hswept.events_eq, ← outcomes_eq]
  show Traced.bind _ _ = _
  simp [Traced.bind, Traced.tell, bind, pure, Traced.pure]

/-! ## §6. Reports. -/

variable (site) in
/-- The matches that ordinals keep, by position and then by selector: the position of each, and the
place of its selector in the patch. -/
structure ListsMatches (ms : List (Nat × Nat)) : Prop where
  ordered : ms.Pairwise fun a b => a.1 < b.1 ∨ (a.1 = b.1 ∧ a.2 < b.2)
  mem_iff : ∀ index k, (index, k) ∈ ms
    ↔ ∃ s, site.patch.selectors[k]? = some s ∧ s.Keeps site.body index

variable (site) in
/-- The places of the selectors none of whose kept matches leads into the body. -/
structure ListsIdle (ks : List Nat) : Prop where
  ascending : ks.Pairwise (· < ·)
  mem_iff : ∀ k, k ∈ ks ↔ ∃ s, site.patch.selectors[k]? = some s
    ∧ ∀ index o, s.Keeps site.body index → ¬ site.LeadsTo s index o

variable (site) in
/-- What a selection in a body says: the offsets, and the reports on matches and selectors. -/
structure Means (offsets : List Nat) (reports : List Report) : Prop where
  ascending : offsets.Pairwise (· < ·)
  mem_iff : ∀ o, o ∈ offsets ↔ ∃ s ∈ site.patch.selectors, ∃ index, site.Takes s index o
  reported : ∃ ms verdicts ks warnings, site.ListsMatches ms ∧ site.ListsIdle ks
    ∧ List.Forall₂ (fun m verdict => ∃ s, site.patch.selectors[m.2]? = some s
        ∧ site.Verdict s m.1 verdict) ms verdicts
    ∧ List.Forall₂ (fun k warning => ∃ s, site.patch.selectors[k]? = some s
        ∧ warning = ⟨.warn, .select, .unusedSelector (s.describe site.patch.mixin) site.method⟩)
        ks warnings
    ∧ reports = verdicts.reduceOption ++ warnings

/-- The kept matches of a position, with the places of their selectors. -/
def matchesOf (site : SelectionSite) (index : Nat) : List ((Nat × Nat) × Selector) :=
  site.patch.selectors.zipIdx.filterMap fun (s, k) =>
    if index ∈ s.kept site.body then some ((index, k), s) else none

/-- The kept matches, with the places of their selectors. -/
def allMatches (site : SelectionSite) : List ((Nat × Nat) × Selector) :=
  (List.range site.body.length).flatMap site.matchesOf

/-- The selectors that lead nowhere, with their places. -/
def idle (site : SelectionSite) : List (Selector × Nat) :=
  site.patch.selectors.zipIdx.filter (!site.isUsed ·.1)

theorem outcomes_eq_map (site : SelectionSite) :
    site.outcomes = site.allMatches.map fun m => site.outcome m.2 m.1.1 := by
  have hat (index : Nat) : site.patch.selectors.filterMap (site.outcomeAt? index)
      = (site.matchesOf index).map fun m => site.outcome m.2 m.1.1 := by
    conv_lhs => rw [← List.zipIdx_map_fst 0 site.patch.selectors, List.filterMap_map]
    unfold matchesOf
    rw [List.map_filterMap]
    refine List.filterMap_congr fun m _ => ?_
    simp only [Function.comp_apply, outcomeAt?]
    split <;> rfl
  rw [outcomes_eq]
  unfold outcomesBelow allMatches
  rw [List.map_flatMap]
  exact List.flatMap_congr fun index _ => hat index

theorem unusedSelectors_eq_map (site : SelectionSite) :
    site.unusedSelectors = site.idle.map fun m => site.unused m.1 := by
  have hselectors : site.patch.selectors = site.patch.selectors.zipIdx.map Prod.fst :=
    (List.zipIdx_map_fst 0 _).symm
  unfold unusedSelectors idle
  rw [hselectors, List.filter_map, List.map_map]
  simp only [List.zipIdx_map_fst]
  rfl

theorem mem_matchesOf_iff {place : Nat} {k : Nat} : ((place, k), s) ∈ site.matchesOf index
    ↔ place = index ∧ site.patch.selectors[k]? = some s ∧ s.Keeps site.body index := by
  unfold matchesOf
  rw [List.mem_filterMap]
  constructor
  · rintro ⟨⟨s', k'⟩, hmem, hmade⟩
    dsimp only at hmade
    split at hmade
    · next hkept =>
      cases hmade
      exact ⟨rfl, List.mem_zipIdx_iff_getElem?.mp hmem, Selector.mem_kept_iff.mp hkept⟩
    · contradiction
  · rintro ⟨rfl, hselector, hkeeps⟩
    exact ⟨(s, k), List.mem_zipIdx_iff_getElem?.mpr hselector,
      if_pos (Selector.mem_kept_iff.mpr hkeeps)⟩

theorem mem_allMatches_iff {k : Nat} : ((index, k), s) ∈ site.allMatches
    ↔ site.patch.selectors[k]? = some s ∧ s.Keeps site.body index := by
  unfold allMatches
  rw [List.mem_flatMap]
  constructor
  · rintro ⟨place, -, hmem⟩
    obtain ⟨rfl, hmatch⟩ := mem_matchesOf_iff.mp hmem
    exact hmatch
  · intro hmatch
    exact ⟨index, List.mem_range.mpr (Selector.lt_of_matchesAt hmatch.2.shape),
      mem_matchesOf_iff.mpr ⟨rfl, hmatch⟩⟩

theorem listsMatches_allMatches (site : SelectionSite) :
    site.ListsMatches (site.allMatches.map (·.1)) := by
  constructor
  · rw [List.pairwise_map]
    refine List.pairwise_flatMap.mpr ⟨fun index _ => ?_, ?_⟩
    · -- at one position, the selectors come in their order
      refine List.Pairwise.filterMap _ (fun a b hlt x hx y hy => ?_)
        (pairwise_zipIdx site.patch.selectors)
      dsimp only at hx hy
      split at hx
      · split at hy
        · cases hx
          cases hy
          exact .inr ⟨rfl, hlt⟩
        · contradiction
      · contradiction
    · refine List.pairwise_lt_range.imp fun {i j} hlt x hx y hy => ?_
      obtain ⟨⟨i', k⟩, s⟩ := x
      obtain ⟨⟨j', k'⟩, s'⟩ := y
      obtain ⟨rfl, -⟩ := mem_matchesOf_iff.mp hx
      obtain ⟨rfl, -⟩ := mem_matchesOf_iff.mp hy
      exact .inl hlt
  · intro index k
    rw [List.mem_map]
    constructor
    · rintro ⟨⟨place, s⟩, hmem, rfl⟩
      exact ⟨s, mem_allMatches_iff.mp hmem⟩
    · rintro ⟨s, hmatch⟩
      exact ⟨((index, k), s), mem_allMatches_iff.mpr hmatch, rfl⟩

theorem listsIdle_idle (site : SelectionSite) : site.ListsIdle (site.idle.map (·.2)) := by
  constructor
  · rw [List.pairwise_map]
    exact (pairwise_zipIdx site.patch.selectors).filter _
  · intro k
    -- a selector is unused exactly if none of its matches leads anywhere
    have hidle (s : Selector) : (!site.isUsed s) = true
        ↔ ∀ index o, s.Keeps site.body index → ¬ site.LeadsTo s index o := by
      rw [Bool.not_eq_true', ← Bool.not_eq_true, isUsed_iff]
      simp only [not_exists, not_and]
    rw [List.mem_map]
    constructor
    · rintro ⟨⟨s, k⟩, hmem, rfl⟩
      obtain ⟨hplace, hunused⟩ := List.mem_filter.mp hmem
      exact ⟨s, List.mem_zipIdx_iff_getElem?.mp hplace, (hidle s).mp hunused⟩
    · rintro ⟨s, hselector, hnowhere⟩
      exact ⟨(s, k), List.mem_filter.mpr ⟨List.mem_zipIdx_iff_getElem?.mpr hselector,
        (hidle s).mpr hnowhere⟩, rfl⟩

/-- **Selecting means what it says.** -/
theorem select_means (site : SelectionSite) :
    ∃ offsets, site.select.outcome = .ok offsets
      ∧ site.Means offsets (reportsOf site.select.events) := by
  rw [select_eq]
  refine ⟨site.offsets, rfl, site.ascending_offsets, fun o => mem_offsets_iff, ?_⟩
  -- the reports of the matches come first, those of unused selectors behind them
  refine ⟨_, site.allMatches.map fun m => (site.event (site.outcome m.2 m.1.1)).report?, _,
    site.idle.map fun m => ⟨.warn, .select, .unusedSelector (m.1.describe site.patch.mixin)
      site.method⟩, site.listsMatches_allMatches, site.listsIdle_idle, ?_, ?_, ?_⟩
  · rw [List.forall₂_map_left_iff, List.forall₂_map_right_iff, List.forall₂_same]
    rintro ⟨⟨index, k⟩, s⟩ hmem
    exact ⟨s, (mem_allMatches_iff.mp hmem).1, site.verdict_outcome s index⟩
  · rw [List.forall₂_map_left_iff, List.forall₂_map_right_iff, List.forall₂_same]
    rintro ⟨s, k⟩ hmem
    exact ⟨s, List.mem_zipIdx_iff_getElem?.mp (List.mem_filter.mp hmem).1, rfl⟩
  · rw [outcomes_eq_map, unusedSelectors_eq_map]
    unfold reportsOf
    rw [List.filterMap_append, List.map_map, List.filterMap_map, List.filterMap_map]
    unfold List.reduceOption
    rw [List.filterMap_map]
    exact congrArg _ (congrFun List.filterMap_eq_map _)

end SelectionSite

end PatchWeaver

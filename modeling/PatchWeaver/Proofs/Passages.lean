/-
  PatchWeaver.Proofs.Passages
  ───────────────────────────
  **FROM WHERE ONE PART STARTS TO WHERE ANOTHER DOES.**

  A run of the woven body that starts where a part does stays within the
  part until it comes to where a part starts again, or leaves the method
  (`Within`).  All the while it is at stages of the part, and it never runs
  an entry twice:

      within i, run ahead of q  →  q is at stage k of i, and run ≤ k

  The other way round, every step of the body as it was can be followed by a
  run within the part and one more step.

  Main results:
    * `Within.exists_stage` — a run within a part is at a stage of it.
    * `Visit.exists_passage` — every step of the body as it was is followed.
    * `exists_walk_entry` — so is every walk.
-/
import PatchWeaver.Proofs.Stages

namespace PatchWeaver

/-- What a run of the woven body does. -/
def Body.actsOn (body woven : Body) (run : List Nat) : List Act :=
  run.flatMap fun q =>
    match woven.entries[q]? with
    | some x => body.actsOf x
    | none => []

theorem Body.actsOn_append_singleton {body woven : Body} {q : Nat} {x : Entry}
    (hx : woven.entries[q]? = some x) (run : List Nat) :
    body.actsOn woven (run ++ [q]) = body.actsOn woven run ++ body.actsOf x := by
  simp [actsOn, hx]

namespace Weaving

variable {s : Splicer} {method : MethodRef} {body : Body} {depths : Depths} {plans : SitePlans}
  {woven : Body} {w : Weaving s method body depths plans woven}

/-! ## §1. Runs within a part. -/

/-- A run that starts where the part of an instruction does, and has not come to where a part
starts since. -/
structure Within (w : Weaving s method body depths plans woven) (i : Nat) (run : List Nat)
    (q : Nat) : Prop where
  walk : woven.Walk (w.entry i) run q
  inside : ∀ r ∈ (run ++ [q]).tail, ∀ j, r ≠ w.entry j

variable {i j q : Nat} {run : List Nat} {e : Entry} {p : Part}

/-- No part starts in the middle of another. -/
theorem ne_entry {r : Nat} (hp : w.parts[i]? = some p) (hlt : w.entry i < r)
    (hr : r < w.entry i + p.entries.length) (j : Nat) : r ≠ w.entry j := by
  rintro rfl
  -- parts before this one end where it starts, and parts behind it start where it ends
  rcases Nat.lt_or_ge i j with hij | hij
  · have hmono : w.entry (i + 1) ≤ w.entry j := entryOf_mono w.parts hij
    rw [w.entry_succ hp] at hmono
    omega
  · have hmono : w.entry j ≤ w.entry i := entryOf_mono w.parts hij
    omega

/-- A run that goes forwards within a part is within it. -/
theorem within_of_advances (hp : w.parts[i]? = some p) (h : woven.Advances (w.entry i) run q)
    (hq : q < w.entry i + p.entries.length) : w.Within i run q := by
  refine ⟨h.walk, fun r hr j => ?_⟩
  cases run with
  | nil => simp at hr
  | cons first run =>
    have hfirst := h.within first List.mem_cons_self
    rcases List.mem_append.mp hr with hr | hr
    · have hlt := h.lt_of_mem_tail hr
      have hlater := h.within r (List.mem_cons_of_mem _ hr)
      exact ne_entry hp hlt (by omega) j
    · obtain rfl : r = q := by simpa using hr
      exact ne_entry hp (by omega) hq j

/-- **A run within a part is at a stage of it**, and has done what the stage says. -/
theorem Within.exists_stage (h : w.Within i run q) (hvisit : w.Visit i e p) :
    ∃ k st, q = w.entry i + k ∧ w.Stage i k st ∧ st.acts = body.actsOn woven run
      ∧ run.length ≤ k := by
  obtain ⟨walk, inside⟩ := h
  -- a walk grows at its end, and what is within the part stays so if the end is cut off
  induction walk with
  | stay => exact ⟨0, _, rfl, hvisit.starts, rfl, Nat.le_refl _⟩
  | @step r q run walk edge ih =>
    have hsub : ∀ r' ∈ (run ++ [r]).tail, r' ∈ (run ++ [r] ++ [q]).tail := by
      intro r' hr'
      rw [List.tail_append_of_ne_nil (by simp)]
      exact List.mem_append_left _ hr'
    obtain ⟨k, st, rfl, hstage, hacts, hlength⟩ := ih fun r' hr' => inside r' (hsub r' hr')
    obtain ⟨-, -, x, -, -, hx⟩ := hstage.exists_entry
    have hdone : (st.past body x).acts = body.actsOn woven (run ++ [w.entry i + k]) := by
      rw [Body.actsOn_append_singleton hx, ← hacts]
      rfl
    cases hstage.next hx edge.step with
    | @stays k' later there stage =>
      refine ⟨k', _, there, stage, hdone, ?_⟩
      rw [List.length_append, List.length_singleton]
      omega
    | @leaves e' p' j visit step there done =>
      -- a run within the part does not come to where a part starts
      have hmem : q ∈ (run ++ [w.entry i + k] ++ [q]).tail := by
        rw [List.tail_append_of_ne_nil (by simp)]
        exact List.mem_append_right _ List.mem_cons_self
      exact absurd there (inside q hmem j)

/-! ## §2. Every step is followed. -/

namespace Visit

/-- Nothing but an instruction that stays alone is without an end marker. -/
theorem isSome_kept_of_back_eq_nil (h : w.Visit i e p) (hback : p.back = []) :
    p.kept.isSome = true := by
  cases hplan : (plans.at i).isEmpty with
  | true =>
    rw [h.stands.bare hplan]
    rfl
  | false =>
    exact absurd (List.append_eq_nil_iff.mp hback).2 (h.stands.builds hplan).closing_ne_nil

/-- An instruction that control does not just go on behind is kept. -/
theorem isSome_kept_of_flow_ne (h : w.Visit i e p) (hflow : e.instruction.flow ≠ .next) :
    p.kept.isSome = true := by
  cases hkept : p.kept.isSome with
  | true => rfl
  | false => exact absurd (h.follows.goesOn (.inl (by simpa using hkept))) hflow

/-- A run gets to the kept instruction. -/
theorem exists_advance_kept (h : w.Visit i e p) (hkept : p.kept.isSome = true) :
    ∃ run, woven.Advances (w.entry i) run (w.entry i + p.front.length) := by
  obtain ⟨code, hreal, htrack⟩ := h.follows.enters
  have hinside : w.entry i + p.front.length < woven.length :=
    (List.getElem?_eq_some_iff.mp (h.instruction?_kept hkept)).1
  rw [hreal.length_eq] at hinside ⊢
  exact htrack.exists_advance_behind w.nodup (h.carries_front hreal) hinside

/-- A run gets behind it, if control goes on there. -/
theorem exists_advance_back (h : w.Visit i e p) (hfalls : e.instruction.fallsThrough = true)
    (hback : p.back ≠ []) :
    ∃ run, woven.Advances (w.entry i) run (w.entry i + (p.front ++ p.kept.toList).length) := by
  have hinside : w.entry i + (p.front ++ p.kept.toList).length < woven.length := by
    obtain ⟨x, xs, hcons⟩ := List.exists_cons_of_ne_nil hback
    have hx : p.back[0]? = some x := by rw [hcons]; rfl
    exact (List.getElem?_eq_some_iff.mp (h.getElem?_back hx)).1
  -- control comes from the kept instruction, or else from behind the code in its place
  cases hkept : p.kept.isSome with
  | true =>
    obtain ⟨run, hadvance⟩ := h.exists_advance_kept hkept
    have hins : woven.instruction? (w.entry i + p.front.length)
        = some (e.instruction.rename w.sent) :=
      Body.instruction?_eq_some_iff.mpr ⟨_, h.instruction?_kept hkept, rfl⟩
    have hlength : (p.front ++ p.kept.toList).length = p.front.length + 1 := by
      simp [h.kept_eq hkept]
    rw [hlength, ← Nat.add_assoc] at hinside ⊢
    have hedge : woven.Edge (w.entry i + p.front.length) (w.entry i + p.front.length + 1) :=
      .next hins (by simpa using hfalls) rfl hinside
    exact ⟨_, hadvance.append (.single hedge (Nat.lt_succ_self _))⟩
  | false =>
    obtain ⟨code, hreal, htrack⟩ := h.follows.enters
    have hlength : (p.front ++ p.kept.toList).length = code.length := by
      have hnone : p.kept = none := by simpa using hkept
      simp [hnone, hreal.length_eq]
    rw [hlength] at hinside ⊢
    exact htrack.exists_advance_behind w.nodup (h.carries_front hreal) hinside

/-- A run gets to the last entry of the part, if control goes on behind it. -/
theorem exists_advance_last (h : w.Visit i e p) (hfalls : e.instruction.fallsThrough = true) :
    ∃ run q ins, woven.Advances (w.entry i) run q ∧ q + 1 = w.entry (i + 1)
      ∧ woven.instruction? q = some ins ∧ ins.fallsThrough = true := by
  rw [w.entry_succ h.part_eq, Part.entries, List.length_append]
  -- the part ends with the instruction, or with the code behind it
  by_cases hback : p.back = []
  · have hkept := h.isSome_kept_of_back_eq_nil hback
    obtain ⟨run, hadvance⟩ := h.exists_advance_kept hkept
    refine ⟨run, _, e.instruction.rename w.sent, hadvance, ?_, ?_, by simpa using hfalls⟩
    · simp [h.kept_eq hkept, hback, Nat.add_assoc]
    · exact Body.instruction?_eq_some_iff.mpr ⟨_, h.instruction?_kept hkept, rfl⟩
  · obtain ⟨run, hadvance⟩ := h.exists_advance_back hfalls hback
    obtain ⟨code, hreal, htrack⟩ := h.follows.leaves
    have hcode := h.carries_back hreal
    have hpos : 0 < code.length := by
      rw [← hreal.length_eq]
      exact List.length_pos_iff.mpr hback
    obtain ⟨run', hadvance', last, hlast, hgoes⟩ :=
      htrack.exists_advance (List.length_pos_iff.mp hpos) w.nodup hcode
    refine ⟨run ++ run', _, last.instruction, hadvance.append hadvance', ?_, hcode.instruction?
      hlast, hgoes⟩
    rw [hreal.length_eq]
    omega

/-- **Every step of the body as it was is followed** by a run within the part and one more step. -/
theorem exists_passage (h : w.Visit i e p) (hstep : body.Step i j) :
    ∃ run q, w.Within i run q ∧ woven.Step q (w.entry j) := by
  have hins := h.instruction?_eq
  cases hstep with
  | @next ins at_i falls behind =>
    obtain rfl : e.instruction = ins := Option.some_inj.mp (hins.symm.trans at_i)
    obtain ⟨run, q, last, hadvance, hq, hlast, hgoes⟩ := h.exists_advance_last falls
    rw [behind, ← hq]
    rw [w.entry_succ h.part_eq] at hq
    exact ⟨run, q, within_of_advances h.part_eq hadvance (by omega), .next hlast hgoes rfl⟩
  | @jump ins l at_i target lands =>
    obtain rfl : e.instruction = ins := Option.some_inj.mp (hins.symm.trans at_i)
    -- a jump is never replaced, so it stands in its part
    have hkept := h.isSome_kept_of_flow_ne (Instruction.flow_ne_of_target? target)
    obtain ⟨run, hadvance⟩ := h.exists_advance_kept hkept
    obtain ⟨⟨e', he', rfl⟩, -⟩ := lands
    have hinside : p.front.length < p.entries.length := by
      simp [Part.entries, h.kept_eq hkept]
    refine ⟨run, _, within_of_advances h.part_eq hadvance (by omega), ?_⟩
    refine .jump (Body.instruction?_eq_some_iff.mpr ⟨_, h.instruction?_kept hkept, rfl⟩) ?_
      (w.lastPlace he')
    rw [Entry.rename_instruction, Instruction.target?_rename, target]
    rfl

end Visit

/-- **Every walk of the body as it was is followed** from where a part starts to where another
does. -/
theorem exists_walk_entry (w : Weaving s method body depths plans woven) (h : body.Walk 0 run i)
    (hi : i < body.length) : ∃ run', woven.Walk 0 run' (w.entry i) := by
  induction h with
  | stay =>
    rw [w.entry_zero]
    exact ⟨[], .stay 0⟩
  | @step j k run walk edge ih =>
    obtain ⟨ins, hins⟩ := edge.exists_instruction
    have hj := Body.lt_length_of_instruction? hins
    obtain ⟨run', hwalk⟩ := ih hj
    -- what is walked to has a depth, and so it is visited
    obtain ⟨depth, hdepth, -⟩ := Body.at?_of_walk w.sound hj walk
    obtain ⟨-, e, p, visit⟩ := w.exists_visit hdepth
    obtain ⟨run'', q, hwithin, hstep⟩ := visit.exists_passage edge.step
    exact ⟨_, .step (hwalk.append hwithin.walk) (hstep.edge (w.entry_lt_length hi))⟩

end Weaving

end PatchWeaver

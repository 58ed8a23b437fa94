/-
  PatchWeaver.Proofs.WovenDepths
  ──────────────────────────────
  **A WOVEN BODY HAS THE STACK DEPTHS OF THE BODY AS IT WAS.**

  Every walk of the woven body is at a stage of some instruction, and what
  the walk does to the stack is what the stage says.  A place determines its
  stage, so walks to one place agree; and since nothing misuses the stack at
  any stage, the woven body is consistent and passes the analysis:

      depth at entry i  =  depth of i in the body as it was
      depth at exit i   =  depth behind i

  Main results:
    * `exists_stage_of_walk` — a walk is at a stage, at the depth of it.
    * `consistent` — a woven body is consistent.
    * `splice_preserves_depths` — putting in validated patches succeeds, and
      preserves stack depths.
-/
import PatchWeaver.Proofs.Passages

namespace PatchWeaver

namespace Weaving

variable {s : Splicer} {method : MethodRef} {body : Body} {depths : Depths} {plans : SitePlans}
  {woven : Body} {after : Depths}

/-! ## §1. Walks from the first instruction. -/

/-- A walk that comes to where the part of an instruction starts is at the first stage of it. -/
theorem stage_zero (w : Weaving s method body depths plans woven) {i depth : Nat}
    (h : depths.at? i = some depth) : w.Stage i 0 ⟨[], depth⟩ := by
  obtain ⟨hdepth, e, p, visit⟩ := w.exists_visit h
  rw [← hdepth]
  exact visit.starts

/-- **A walk of the woven body is at a stage, at the depth of the stage.** -/
theorem exists_stage_of_walk (w : Weaving s method body depths plans woven) {run : List Nat}
    {q : Nat} (h : woven.Walk 0 run q) (hq : q < woven.length) :
    ∃ i k st, q = w.entry i + k ∧ w.Stage i k st ∧ woven.balance run = st.depth := by
  -- along the walk: every edge keeps to the stages of a part, or enters the next part
  induction h with
  | stay =>
    rw [← w.entry_zero] at hq
    have hstart := w.stage_zero (w.sound.start (w.lt_length_of_entry_lt hq))
    exact ⟨0, 0, _, by rw [w.entry_zero], hstart, rfl⟩
  | @step r q run walk edge ih =>
    obtain ⟨ins, hins⟩ := edge.exists_instruction
    obtain ⟨i, k, st, rfl, hstage, hbalance⟩ := ih (Body.lt_length_of_instruction? hins)
    obtain ⟨-, -, x, -, -, hx⟩ := hstage.exists_entry
    -- the stack behind the entry
    have hcovered := (hstage.safe hx).covered
    have hbehind : woven.balance (run ++ [w.entry i + k]) = (st.past body x).depth := by
      have hins : woven.instruction? (w.entry i + k) = some x.instruction :=
        Body.instruction?_eq_some_iff.mpr ⟨x, hx, rfl⟩
      rw [Body.balance_append, Body.balance_singleton hins, hbalance]
      simp only [Instruction.gain, Progress.past, Instruction.depthAfter]
      omega
    cases hstage.next hx edge.step with
    | stays later there stage => exact ⟨i, _, _, there, stage, hbehind⟩
    | @leaves e p j visit step there done =>
      -- the instruction is settled, so its depth has been carried to the next one
      rw [there] at hq
      have hedge := step.edge (w.lt_length_of_entry_lt hq)
      have hstart :=
        w.stage_zero (visit.settled.carried e.instruction j visit.instruction?_eq hedge)
      refine ⟨j, 0, _, there, hstart, ?_⟩
      rw [hbehind, done]
      rfl

/-- **A woven body is consistent.** -/
theorem consistent (w : Weaving s method body depths plans woven) : woven.Consistent where
  covered run q ins hwalk hins := by
    obtain ⟨i, k, st, rfl, hstage, hbalance⟩ :=
      w.exists_stage_of_walk hwalk (Body.lt_length_of_instruction? hins)
    obtain ⟨x, hx, rfl⟩ := Body.instruction?_eq_some_iff.mp hins
    have hcovered := (hstage.safe hx).covered
    omega
  known run q ins l hwalk hins hl := by
    obtain ⟨i, k, st, rfl, hstage, -⟩ :=
      w.exists_stage_of_walk hwalk (Body.lt_length_of_instruction? hins)
    obtain ⟨x, hx, rfl⟩ := Body.instruction?_eq_some_iff.mp hins
    obtain ⟨j, ⟨y, hy, hlabel⟩, -⟩ := (hstage.safe hx).known l hl
    exact ⟨y, List.mem_of_getElem? hy, hlabel⟩
  returns run q hwalk hins := by
    obtain ⟨i, k, st, rfl, hstage, hbalance⟩ :=
      w.exists_stage_of_walk hwalk (Body.lt_length_of_instruction? hins)
    obtain ⟨x, hx, hret⟩ := Body.instruction?_eq_some_iff.mp hins
    have hreturns := (hstage.safe hx).returns hret
    omega
  agree run run' q hwalk hwalk' := by
    by_cases hq : q < woven.length
    · -- both walks are at the one stage of the place
      obtain ⟨i, k, st, hplace, hstage, hbalance⟩ := w.exists_stage_of_walk hwalk hq
      obtain ⟨i', k', st', hplace', hstage', hbalance'⟩ := w.exists_stage_of_walk hwalk' hq
      obtain ⟨rfl, rfl⟩ := hstage.place_unique hstage' (hplace.symm.trans hplace')
      rw [hbalance, hbalance', hstage.unique hstage']
    · rw [hwalk.eq_nil_of_not_lt hq, hwalk'.eq_nil_of_not_lt hq]

/-! ## §2. Depths of the woven body. -/

/-- What is reached in the woven body is a stage, at the depth of the stage. -/
theorem exists_stage_of_depth (w : Weaving s method body depths plans woven)
    (hafter : woven.depths = .ok after) {q depth : Nat} (h : after.at? q = some depth) :
    ∃ i k st, q = w.entry i + k ∧ w.Stage i k st ∧ st.depth = depth := by
  have hq : q < woven.length := by
    have hlt := Depths.lt_length_of_at? h
    rwa [(Body.sound_of_depths hafter).length_eq] at hlt
  obtain ⟨run, hwalk, hbalance⟩ := (Body.at?_depths_iff hafter hq).mp h
  obtain ⟨i, k, st, hplace, hstage, hdepth⟩ := w.exists_stage_of_walk hwalk hq
  exact ⟨i, k, st, hplace, hstage, by omega⟩

/-- **Where a part starts, there is the depth of its instruction**, or none. -/
theorem at?_entry (w : Weaving s method body depths plans woven) (hafter : woven.depths = .ok after)
    {i : Nat} (hi : i < body.length) : after.at? (w.entry i) = depths.at? i := by
  cases hdepth : depths.at? i with
  | some depth =>
    -- a walk to the instruction is followed by one to its part
    obtain ⟨run, hwalk, -⟩ := w.sound.reached i depth hdepth
    obtain ⟨run', hwalk'⟩ := w.exists_walk_entry hwalk hi
    have hlt := w.entry_lt_length hi
    obtain ⟨j, k, st, hplace, hstage, hbalance⟩ := w.exists_stage_of_walk hwalk' hlt
    obtain ⟨rfl, rfl⟩ := hstage.eq_of_entry_eq hi hplace
    rw [hstage.unique (w.stage_zero hdepth)] at hbalance
    exact (Body.at?_depths_iff hafter hlt).mpr ⟨run', hwalk', hbalance⟩
  | none =>
    cases hat : after.at? (w.entry i) with
    | none => rfl
    | some depth =>
      -- whatever is reached belongs to an instruction that is reached
      obtain ⟨j, k, st, hplace, hstage, -⟩ := w.exists_stage_of_depth hafter hat
      obtain ⟨rfl, rfl⟩ := hstage.eq_of_entry_eq hi hplace
      obtain ⟨e, p, x, visit, -⟩ := hstage.exists_entry
      rw [visit.depth_eq] at hdepth
      contradiction

/-- **Where an end marker starts, there is the depth behind the instruction**, if it is reached. -/
theorem at?_exit (w : Weaving s method body depths plans woven) (hafter : woven.depths = .ok after)
    {i : Nat} {e : Entry} (he : body.entries[i]? = some e) (hplan : (plans.at i).isEmpty = false)
    {depth : Nat} (h : after.at? (w.exit i) = some depth) :
    ∃ before, depths.at? i = some before ∧ depth = e.instruction.depthAfter before := by
  obtain ⟨j, k, st, hplace, hstage, rfl⟩ := w.exists_stage_of_depth hafter h
  obtain ⟨p, hp, hstands⟩ := w.exists_part he
  have hclosing := (hstands.builds hplan).closing_ne_nil
  -- the end marker stands at a place of the part of `i`, so the stage is one of `i`
  have hpos : 0 < p.closing.length := List.length_pos_iff.mpr hclosing
  have hk : (p.front ++ p.kept.toList).length + p.after.length < p.entries.length := by
    simp only [Part.entries, Part.back, List.length_append]
    omega
  obtain ⟨e', p', visit, htable⟩ := hstage.exists_table
  have hk' := (List.getElem?_eq_some_iff.mp htable).1
  rw [visit.follows.length_table] at hk'
  rw [w.exit_eq hp] at hplace
  obtain ⟨rfl, rfl⟩ := position_unique hp visit.part_eq hk hk' hplace
  obtain rfl : e = e' := Option.some_inj.mp (he.symm.trans visit.entry_eq)
  obtain rfl : p = p' := Option.some_inj.mp (hp.symm.trans visit.part_eq)
  rw [visit.follows.getElem?_table_back, visit.follows.closes hclosing] at htable
  refine ⟨_, visit.depth_eq, ?_⟩
  rw [← Option.some_inj.mp htable]
  rfl

/-- How the depths of the woven body go with the depth of an instruction. -/
structure Keeps (w : Weaving s method body depths plans woven) (after : Depths) (i : Nat)
    (e : Entry) : Prop where
  alone : (plans.at i).isEmpty = true → woven.entries[w.entry i]? = some (e.rename w.sent)
  begins : (plans.at i).isEmpty = false →
    ∃ x, woven.entries[w.entry i]? = some x ∧ x.origin = .beginMarker
  closes : (plans.at i).isEmpty = false →
    ∃ x, woven.entries[w.exit i]? = some x ∧ x.origin = .endMarker
  /-- The instruction or its begin marker has the depth of the instruction, or none if it has
  none. -/
  before : after.at? (w.entry i) = depths.at? i
  /-- The end marker has the depth that the instruction leaves, if it is reached. -/
  behind : (plans.at i).isEmpty = false → ∀ depth, after.at? (w.exit i) = some depth →
    ∃ before, depths.at? i = some before ∧ depth = e.instruction.depthAfter before

theorem keeps (w : Weaving s method body depths plans woven) (hafter : woven.depths = .ok after)
    {i : Nat} {e : Entry} (he : body.entries[i]? = some e) : w.Keeps after i e where
  alone hplan := w.getElem?_of_isEmpty he hplan
  begins hplan := (w.exists_markers he hplan).1
  closes hplan := (w.exists_markers he hplan).2
  before := w.at?_entry hafter (List.getElem?_eq_some_iff.mp he).1
  behind hplan _ hdepth := w.at?_exit hafter he hplan hdepth

end Weaving

/-! ## §3. Splicing. -/

/-- A body that was spliced has passed the analysis of its stack depths. -/
theorem splice_of_depths {s : Splicer} {method : MethodRef} {body : Body} {depths : Depths}
    {plans : SitePlans} {woven : Body} {after : Depths}
    (hrun : (s.spliceFrom method depths plans body.length 0 0 body).outcome = .ok woven)
    (hafter : woven.depths = .ok after) :
    (s.splice method body depths plans).outcome = .ok woven := by
  unfold Splicer.splice SpliceRun.checked
  rw [hrun]
  refine bind_eq_ok_iff.mpr ⟨woven, rfl, ?_⟩
  rw [hafter]

/-- **Putting validated patches into a body succeeds, and preserves stack depths.**  The body has
distinct labels and a supply ahead of them, and has passed the analysis itself. -/
theorem splice_preserves_depths {s : Splicer} {method : MethodRef} {body : Body} {depths : Depths}
    {offsets : Offsets} {plans : SitePlans} (hnodup : body.labelList.Nodup) (hahead : body.Ahead)
    (hdepths : body.depths = .ok depths)
    (hplans : (s.registry.resolveMethod method offsets).outcome = .ok plans)
    (hvalid : s.Validated method body depths offsets) :
    ∃ woven after, (s.splice method body depths plans).outcome = .ok woven
      ∧ woven.depths = .ok after
      ∧ ∃ w : Weaving s method body depths plans woven,
        ∀ i e, body.entries[i]? = some e → w.Keeps after i e := by
  obtain ⟨woven, hrun, ⟨w⟩⟩ := exists_weaving hnodup hahead hdepths hplans hvalid
  obtain ⟨after, hafter⟩ := Body.exists_depths w.consistent
  exact ⟨woven, after, splice_of_depths hrun hafter, hafter, w, fun i e he => w.keeps hafter he⟩

/-- A loop with a patch that replaces its constant, and one that can cancel it in two places. -/
theorem splice_preserves_depths_sample :
    ∃ woven after,
      (Sample.splicer.splice Sample.method Sample.body Sample.depths Sample.plans).outcome
        = .ok woven
      ∧ woven.depths = .ok after
      ∧ ∃ w : Weaving Sample.splicer Sample.method Sample.body Sample.depths Sample.plans woven,
        ∀ i e, Sample.body.entries[i]? = some e → w.Keeps after i e :=
  splice_preserves_depths Sample.nodup_body (Body.ahead_of_unseeded rfl) Sample.depths_body
    Sample.resolveMethod_offsets Sample.validated

end PatchWeaver

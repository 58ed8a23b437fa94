/-
  PatchWeaver.Proofs.Splicing
  ───────────────────────────
  **PUTTING PATCHES IN DOES NOT FAIL.**

  In front of every step of the loop, the body ends with the entries that
  the loop has not come to, but for jumps that were sent elsewhere:

      body  =  what stands in front of the cursor  ++  entries ahead

  So the cursor is at the entry at hand, whatever the labels of the body
  are, and a plan whose patches can be called there is carried out.  Only
  the analysis of the finished body can fail; labels that are distinct and
  behind the supply keep it from failing, too (`splice_preserves_depths`).

  Main results:
    * `exists_spliceFrom` — the loop comes to its end.
    * `plans_of_steps` — its steps carry out the plans, one by one.
    * `Splicer.Validated.yields_splice` — the contract of splicing.
-/
import PatchWeaver.Proofs.Contracts
import PatchWeaver.Proofs.WovenDepths

namespace PatchWeaver

namespace Splicer

variable {s : Splicer} {method : MethodRef} {depths : Depths} {plans : SitePlans}

/-! ## §1. The loop. -/

/-- One instruction gives way to its container, whatever the labels are. -/
theorem exists_spliceAt {body : Body} {front rest : List Entry} {kept : Entry} {plan : SitePlan}
    {depth : Nat} (hbody : body.entries = front ++ kept :: rest)
    (hplan : s.Plannable method body.locals kept.instruction plan)
    (hdepth : kept.instruction.effect.pop ≤ depth) :
    ∃ step first body', s.spliceAt method front.length depth plan body = .ok (step, body')
      ∧ body'.entries = (front ++ step.entries ++ rest).map (Entry.rename (kept.label.sentTo first))
      ∧ body.locals <+: body'.locals := by
  have hat : entryAt body.entries front.length = .ok kept := by simp [entryAt, hbody]
  obtain ⟨before, after, acts, behind, mid, w, hcontainer, hfills⟩ :=
    container_of_plannable kept hplan hdepth
  have hgrows : body.Extends w.body := hfills.before.grows.trans hfills.after.grows
  have hfinish := Block.extends_assignLabels (s.containerCode plan kept before after) w.body
  have hreal := Block.realizes_assignLabels (s.containerCode plan kept before after) w.body
  generalize hassign : Block.assignLabels (s.containerCode plan kept before after) w.body = finished
    at hfinish hreal
  obtain ⟨entries, drawn⟩ := finished
  have hfinished : (⟨.beginMarker, s.containerCode plan kept before after, none⟩ : Block).finish
      w.body = .ok (entries, drawn) := congrArg Except.ok hassign
  -- a container starts with a marker
  obtain ⟨first, es, rfl⟩ : ∃ first es, entries = first :: es := by
    refine List.exists_cons_of_ne_nil fun hnil => ?_
    have hlength := hreal.length_eq
    have hmarker := List.length_pos_iff.mpr (markerInstructions_ne_nil s "debug: patch begin")
    rw [hnil] at hlength
    simp only [containerCode, opening, unlabelled, List.length_append, List.length_map,
      List.length_nil] at hlength
    omega
  have hgrows' : body.Extends drawn := hgrows.trans hfinish
  have hdrawn : drawn.entries = front ++ kept :: rest := hgrows'.entries_eq.trans hbody
  let spliced : Body := { drawn with entries := front ++ (first :: es) ++ rest }
  refine ⟨⟨front.length, plan, first :: es, (spliced.incoming kept.label).length⟩, first.label,
    spliced.retarget kept.label first.label, ?_, ?_, hgrows'.locals_le⟩
  · have hfirst : entryAt (first :: es) 0 = .ok first := rfl
    simp only [spliceAt, hat, ok_bind, hcontainer, hfinished, liftMachine_ok, hfirst,
      Body.splice?_of_entries_eq hdrawn]
    rfl
  · show List.map (Entry.retarget kept.label first.label) _ = _
    rw [funext (Entry.retarget_eq_rename kept.label first.label)]

/-- **The loop comes to its end** if every plan can be carried out. -/
theorem exists_spliceFrom {entries front : List Entry} {locals : List FieldType}
    {g : Label → Label} {index : Nat} {body : Body}
    (hbody : body.entries = front ++ entries.map (Entry.rename g))
    (hlocals : locals <+: body.locals)
    (hplan : ∀ k e, entries[k]? = some e → (plans.at (index + k)).isEmpty = false →
      s.Workable method locals (depths.at? (index + k)) e.instruction (plans.at (index + k))) :
    ∃ woven,
      (s.spliceFrom method depths plans entries.length index front.length body).outcome
        = .ok woven := by
  induction entries generalizing front g index body with
  | nil => exact ⟨body, rfl⟩
  | cons e rest ih =>
    have hplan' : ∀ k e', rest[k]? = some e' → (plans.at (index + 1 + k)).isEmpty = false →
        s.Workable method locals (depths.at? (index + 1 + k)) e'.instruction
          (plans.at (index + 1 + k)) := by
      intro k e' he'
      rw [show index + 1 + k = index + (k + 1) by omega]
      exact hplan (k + 1) e' (by simpa using he')
    cases hempty : (plans.at index).isEmpty with
    | true =>
      have hkept : body.entries = front ++ [e.rename g] ++ rest.map (Entry.rename g) := by
        simp [hbody]
      obtain ⟨woven, hrun⟩ := ih hkept hlocals hplan'
      refine ⟨woven, ?_⟩
      simp only [List.length_cons, spliceFrom, hempty, if_true]
      simpa using hrun
    | false =>
      obtain ⟨hplannable, depth, hdepth, hcovered⟩ := hplan 0 e rfl hempty
      rw [Nat.add_zero] at hplannable hdepth
      have hplannable' : s.Plannable method body.locals (e.rename g).instruction (plans.at index) :=
        (hplannable.mono hlocals).rename g
      obtain ⟨step, first, body', hsplice, hentries, hgrows⟩ :=
        exists_spliceAt hbody hplannable' (by simpa using hcovered)
      -- the entries ahead are renamed once more
      rw [List.map_append, List.map_map] at hentries
      have hahead : body'.entries
          = (front ++ step.entries).map (Entry.rename ((e.rename g).label.sentTo first))
            ++ rest.map (Entry.rename ((e.rename g).label.sentTo first ∘ g)) := by
        rw [hentries]
        congr 1
        exact List.map_congr_left fun e' _ => Entry.rename_rename _ _ e'
      obtain ⟨woven, hrun⟩ := ih hahead (hlocals.trans hgrows) hplan'
      rw [List.length_map, List.length_append] at hrun
      refine ⟨woven, ?_⟩
      simp only [List.length_cons, spliceFrom, hempty, hdepth, Option.getD_some, hsplice]
      simpa [SpliceRun.precededBy] using hrun

/-- A step carries out its plan. -/
theorem plan_of_spliceAt {cursor depth : Nat} {plan : SitePlan} {body body' : Body}
    {step : SpliceStep} (h : s.spliceAt method cursor depth plan body = .ok (step, body')) :
    step.plan = plan := by
  unfold spliceAt at h
  obtain ⟨entry, -, h⟩ := bind_eq_ok_iff.mp h
  obtain ⟨⟨block, w⟩, -, h⟩ := bind_eq_ok_iff.mp h
  obtain ⟨⟨entries, drawn⟩, -, h⟩ := bind_eq_ok_iff.mp h
  obtain ⟨first, -, h⟩ := bind_eq_ok_iff.mp h
  dsimp only at h
  split at h
  · contradiction
  · obtain ⟨rfl, -⟩ := Prod.mk.inj (Except.ok.inj h)
    rfl

/-- **The steps of a loop that comes to its end carry out the plans**, one by one. -/
theorem plans_of_steps {count index cursor : Nat} {body woven : Body}
    (h : (s.spliceFrom method depths plans count index cursor body).outcome = .ok woven) :
    (s.spliceFrom method depths plans count index cursor body).steps.map (·.plan)
      = ((List.range' index count).map plans.at).filter (!·.isEmpty) := by
  induction count generalizing index cursor body with
  | zero => rfl
  | succ count ih =>
    rw [List.range'_succ, List.map_cons]
    unfold spliceFrom at h ⊢
    cases hempty : (plans.at index).isEmpty with
    | true =>
      simp only [hempty, if_true] at h ⊢
      rw [List.filter_cons_of_neg (by simp [hempty])]
      exact ih h
    | false =>
      simp only [hempty, Bool.false_eq_true, if_false] at h ⊢
      rw [List.filter_cons_of_pos (by simp [hempty])]
      cases hsplice :
          s.spliceAt method cursor ((depths.at? index).getD 0) (plans.at index) body with
      | error e =>
        rw [hsplice] at h
        contradiction
      | ok made =>
        obtain ⟨step, body'⟩ := made
        rw [hsplice] at h
        have hsteps := ih h
        show step.plan :: _ = _
        rw [plan_of_spliceAt hsplice]
        exact congrArg _ hsteps

/-! ## §2. Whole bodies. -/

/-- **The contract of splicing**: a body that selected patches are put into fails at most its last
analysis, and that only where labels are repeated or drawn a second time. -/
theorem Validated.yields_splice {body : Body} {offsets : Offsets}
    (h : s.Validated method body depths offsets) (hdepths : body.depths = .ok depths)
    (hplans : (s.registry.resolveMethod method offsets).outcome = .ok plans) :
    Yields (fun woven => (s.splice method body depths plans).outcome = .ok woven)
      (fun e => (∃ cause, e = .stackAnalysis method cause) ∧ ¬ (body.labelList.Nodup ∧ body.Ahead))
      (s.splice method body depths plans).outcome := by
  refine .of_errors fun e he => ⟨?_, ?_⟩
  · have hbody : body.entries = [] ++ body.entries.map (Entry.rename id) := by
      have hid : ∀ e ∈ body.entries, e.rename id = id e := fun e _ =>
        Entry.rename_eq_self fun _ _ => rfl
      rw [List.map_congr_left hid]
      simp
    have hends : ∃ woven,
        (s.spliceFrom method depths plans body.entries.length 0
          ([] : List Entry).length body).outcome = .ok woven := by
      refine exists_spliceFrom hbody (List.prefix_refl _) fun k e hk hplan => ?_
      rw [Nat.zero_add] at hplan ⊢
      exact h.workable hdepths hplans hk hplan
    obtain ⟨woven, hrun⟩ := hends
    unfold splice SpliceRun.checked at he
    dsimp only at he
    have hrun' : (s.spliceFrom method depths plans body.length 0 0 body).outcome = .ok woven := hrun
    rw [hrun', ok_bind] at he
    split at he
    · contradiction
    · next cause _ => exact ⟨cause, (Except.error.inj he).symm⟩
  · rintro ⟨hnodup, hahead⟩
    obtain ⟨woven, hrun, ⟨w⟩⟩ := exists_weaving hnodup hahead hdepths hplans h
    obtain ⟨after, hafter⟩ := Body.exists_depths w.consistent
    rw [splice_of_depths hrun hafter] at he
    contradiction

end Splicer

end PatchWeaver

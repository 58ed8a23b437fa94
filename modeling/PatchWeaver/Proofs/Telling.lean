/-
  PatchWeaver.Proofs.Telling
  ──────────────────────────
  **WHICH REPORTS A RUN MAKES WHEN.**

  A report that a patch was applied too seldom or too often is made at the
  end of a run, when all is counted, and in no phase before that:

      scan, select, copy, splice     reports of other kinds
      at the end                     one for each count out of bounds

  Reports of a run that fails wait for the next report that is taken.  Such
  a run does not come to its end, so no count is among those that wait.

  Main results:
    * `Traced.Tells.bind`, `Analysing.Tells.bind` — what is told by steps.
    * `tells_prepare` — no phase reports a count.
    * `HasRun.no_counts` — no reports of counts wait.
-/
import PatchWeaver.Proofs.Runs

namespace PatchWeaver

/-! ## §1. What computations tell. -/

namespace Traced

/-- All events of a computation are of one kind, whether it fails or not. -/
def Tells {α : Type} (P : Event → Prop) (x : Traced α) : Prop := ∀ e ∈ x.events, P e

namespace Tells

variable {α β : Type} {P : Event → Prop}

theorem pure (a : α) : Tells P (Pure.pure a : Traced α) := List.forall_mem_nil _

theorem lift (x : Except WeaveError α) : Tells P (Traced.lift x) := List.forall_mem_nil _

theorem fail (e : WeaveError) : Tells P (Traced.fail e : Traced α) := List.forall_mem_nil _

theorem note {level : Level} {phase : Phase} {text : String}
    (h : P (.note level phase text)) : Tells P (Traced.note level phase text) :=
  List.forall_mem_singleton.mpr h

theorem bind {x : Traced α} {f : α → Traced β} (h : Tells P x) (hf : ∀ a, Tells P (f a)) :
    Tells P (x >>= f) := by
  intro e he
  cases hx : x.outcome with
  | error cause =>
    rw [events_bind_of_error f hx] at he
    exact h e he
  | ok a =>
    rw [events_bind_of_ok f hx] at he
    exact (List.mem_append.mp he).elim (h e) (hf a e)

theorem mapM {f : α → Traced β} (h : ∀ a, Tells P (f a)) (as : List α) : Tells P (as.mapM f) := by
  induction as with
  | nil => exact .pure []
  | cons a as ih =>
    rw [List.mapM_cons]
    exact (h a).bind fun b => ih.bind fun bs => .pure (b :: bs)

theorem foldlM {f : β → α → Traced β} (h : ∀ b a, Tells P (f b a)) (as : List α) (b : β) :
    Tells P (as.foldlM f b) := by
  induction as generalizing b with
  | nil => exact .pure b
  | cons a as ih =>
    rw [List.foldlM_cons]
    exact (h b a).bind ih

theorem forM {f : α → Traced Unit} (h : ∀ a, Tells P (f a)) (as : List α) :
    Tells P (as.forM f) := by
  induction as with
  | nil => exact .pure ()
  | cons a as ih => exact (h a).bind fun _ => ih

end Tells

end Traced

namespace Analysing

/-- All events of a computation are of one kind, whatever depths it starts with. -/
def Tells {α : Type} (P : Event → Prop) (x : Analysing α) : Prop :=
  ∀ cache, (x.run cache).1.Tells P

namespace Tells

variable {α β : Type} {P : Event → Prop}

theorem pure (a : α) : Tells P (Pure.pure a : Analysing α) := fun _ => .pure a

theorem lift {x : Traced α} (h : x.Tells P) : Tells P (Analysing.lift x) := fun _ => h

theorem depths (method : MethodRef) (body : Body) : Tells P (Analysing.depths method body) :=
  fun _ => .lift _

theorem bind {x : Analysing α} {f : α → Analysing β} (h : Tells P x) (hf : ∀ a, Tells P (f a)) :
    Tells P (x >>= f) := by
  intro cache
  have hfirst := h cache
  cases hrun : x.run cache with
  | mk first cache' =>
    obtain ⟨outcome, events⟩ := first
    rw [hrun] at hfirst
    cases outcome with
    | error e =>
      rw [run_bind_of_error f hrun]
      exact hfirst
    | ok a =>
      rw [run_bind_of_ok f hrun]
      exact fun e he => (List.mem_append.mp he).elim (hfirst e) (hf a cache' e)

theorem foldlM {f : β → α → Analysing β} (h : ∀ b a, Tells P (f b a)) (as : List α) (b : β) :
    Tells P (as.foldlM f b) := by
  induction as generalizing b with
  | nil => exact .pure b
  | cons a as ih =>
    rw [List.foldlM_cons]
    exact (h b a).bind ih

end Tells

end Analysing

/-! ## §2. Reports of counts. -/

/-- Whether a diagnostic is about the number of times that a patch was applied. -/
def Diagnostic.isCount : Diagnostic → Bool
  | .injectionCount .. => true
  | _ => false

/-- An event reports no count. -/
def Event.Uncounted (e : Event) : Prop := ∀ r, e.report? = some r → r.diagnostic.isCount = false

theorem Event.uncounted_note (level : Level) (phase : Phase) (text : String) :
    (Event.note level phase text).Uncounted := fun _ h => by contradiction

theorem Event.uncounted_report {r : Report} (h : r.diagnostic.isCount = false) :
    (Event.report r).Uncounted := by
  rintro _ ⟨⟩
  exact h

theorem reportsOf_append (events events' : List Event) :
    reportsOf (events ++ events') = reportsOf events ++ reportsOf events' :=
  List.filterMap_append

/-- Reports among events that report no count are about other things. -/
theorem filter_isCount_reportsOf {events : List Event} (h : ∀ e ∈ events, e.Uncounted) :
    (reportsOf events).filter (·.diagnostic.isCount) = [] := by
  refine List.filter_eq_nil_iff.mpr fun r hr => ?_
  obtain ⟨e, he, hreport⟩ := List.mem_filterMap.mp hr
  rw [h e he r hreport]
  exact Bool.false_ne_true

/-! ## §3. The phases of a run. -/

section

variable {program : Program}

open Event (Uncounted uncounted_note uncounted_report)

theorem tells_scan (program : Program) (mixins : List Mixin) :
    (Registry.scan program mixins).Tells Uncounted := by
  have hinjector : ∀ mixin method injector s, (scanInjector mixin method injector s).Tells
      Uncounted := by
    intro mixin method injector s
    unfold scanInjector
    split
    · exact .fail _
    · split
      · exact (Traced.Tells.note (uncounted_note _ _ _)).bind fun _ => .pure s
      · split
        · exact .fail _
        · split
          · exact .fail _
          · exact (Traced.Tells.note (uncounted_note _ _ _)).bind fun _ => .pure _
  have hmethod : ∀ mixin s method, (scanMethod mixin s method).Tells Uncounted := by
    intro mixin s method
    unfold scanMethod
    split
    · exact .fail _
    · exact .pure _
    · split
      · exact .fail _
      · exact hinjector _ _ _ _
  have hmixin : ∀ r mixin, (scanMixin program r mixin).Tells Uncounted := by
    intro r mixin
    unfold scanMixin
    refine (Traced.Tells.note (uncounted_note _ _ _)).bind fun _ =>
      .bind (fun e he => ?_) fun _ => (Traced.Tells.foldlM (hmethod mixin) _ _).bind fun s => ?_
    · obtain ⟨c, -, rfl⟩ := List.mem_map.mp he
      exact uncounted_report rfl
    · split
      · exact .fail _
      · exact .pure _
  unfold Registry.scan
  exact (Traced.Tells.foldlM hmixin _ _).bind fun r =>
    (Traced.Tells.note (uncounted_note _ _ _)).bind fun _ => .pure r

theorem tells_writeSnapshot (settings : Settings) (r : Registry) :
    (writeSnapshot settings r).Tells Uncounted := by
  unfold writeSnapshot
  split
  · exact .pure ()
  · split
    · refine .bind (List.forall_mem_singleton.mpr ?_) fun _ => .note (uncounted_note _ _ _)
      exact fun _ h => by contradiction
    · exact .fail _

theorem tells_resolveTargets (program : Program) (r : Registry) (patch : Patch) :
    (resolveTargets program r patch).Tells Uncounted := by
  have hmissed : ∀ target owner, (missedTarget patch target owner).Tells Uncounted := by
    intro target owner
    unfold missedTarget
    split
    · exact .fail _
    · exact List.forall_mem_singleton.mpr (uncounted_report rfl)
    · exact .pure ()
  unfold resolveTargets resolveTargetsOn
  refine .bind (.mapM (fun target => .mapM (fun owner => ?_) _) _) fun found => .pure _
  dsimp only
  split
  · exact (hmissed target owner).bind fun _ => .pure _
  · exact .pure _

theorem tells_select (site : SelectionSite) : site.select.Tells Uncounted := by
  rw [SelectionSite.select_eq]
  refine List.forall_mem_append.mpr ⟨fun e he => ?_, fun e he => ?_⟩
  · obtain ⟨outcome, -, rfl⟩ := List.mem_map.mp he
    cases outcome with
    | accepted => exact uncounted_note _ _ _
    | _ => exact uncounted_report rfl
  · obtain ⟨s, -, rfl⟩ := List.mem_map.mp he
    exact uncounted_report rfl

theorem tells_selectAll (program : Program) (settings : ShiftSettings) (r : Registry) :
    (selectAll program settings r).Tells Uncounted := by
  have hmethod : ∀ patch s m, (selectInMethod program settings patch s m).Tells Uncounted := by
    intro patch s m
    unfold selectInMethod
    split
    · exact .bind (.lift (List.forall_mem_singleton.mpr (uncounted_report rfl))) fun _ => .pure s
    · exact (Analysing.Tells.depths _ _).bind fun depths =>
        .bind (.lift (tells_select _)) fun offsets => .pure _
  have hpatch : ∀ s patch, (selectPatch program settings r s patch).Tells Uncounted := by
    intro s patch
    unfold selectPatch
    exact .bind (.lift (tells_resolveTargets program r patch)) fun methods =>
      .foldlM (hmethod patch) methods s
  unfold selectAll
  exact .bind (.foldlM hpatch _ _) fun s =>
    .bind (.lift (.note (uncounted_note _ _ _))) fun _ => .pure s

theorem tells_build (program : Program) (r : Registry) :
    (CopyTable.build program r).Tells Uncounted := by
  unfold CopyTable.build
  refine .foldlM (fun t mixin => .foldlM (fun t owner => ?_) _ _) _ _
  unfold addCopies
  refine .bind (.lift _) fun _ => .foldlM (fun t method => ?_) _ _
  unfold addCopy
  exact .bind (.lift _) fun copy => .bind (.note (uncounted_note _ _ _)) fun _ => .pure _

theorem tells_resolveMethod (r : Registry) (m : MethodRef) (offsets : Offsets) :
    (r.resolveMethod m offsets).Tells Uncounted := by
  have hdisplace : ∀ o winner loser, (displace m o winner loser).Tells Uncounted := by
    intro o winner loser
    unfold displace
    split
    · exact .fail _
    · exact .note (uncounted_note _ _ _)
  unfold Registry.resolveMethod
  refine .mapM (fun x => .bind ?_ fun plan => .pure _) _
  unfold Registry.resolveSite
  refine .bind (.lift _) fun contenders => .bind ?_ fun _ => .pure _
  unfold displaceLosers
  split
  · exact .pure ()
  · exact .forM (hdisplace x.1 _) _

theorem tells_spliceTraced (s : Splicer) (m : MethodRef) (body : Body) (depths : Depths)
    (plans : SitePlans) : (s.spliceTraced m body depths plans).Tells Uncounted := by
  unfold Splicer.spliceTraced
  refine .bind (fun e he => ?_) fun _ => .bind (.lift _) fun woven => .pure _
  -- a run tells what it does, and reports nothing
  have hnote : ∃ level phase text, e = .note level phase text := by
    replace he : e ∈ (s.splice m body depths plans).events m body depths := he
    unfold SpliceRun.events at he
    simp only [List.mem_append, List.mem_cons, List.mem_flatMap] at he
    rcases he with (rfl | ⟨step, -, hstep⟩) | he
    · exact ⟨_, _, _, rfl⟩
    · simp only [SpliceStep.events, List.mem_cons, List.not_mem_nil, or_false] at hstep
      rcases hstep with rfl | rfl <;> exact ⟨_, _, _, rfl⟩
    · split at he
      · contradiction
      · rw [List.mem_singleton.mp he]
        exact ⟨_, _, _, rfl⟩
  obtain ⟨level, phase, text, rfl⟩ := hnote
  exact uncounted_note _ _ _

theorem tells_spliceMethod (s : Splicer) (made : Spliced) (selected : MethodRef × Offsets) :
    (spliceMethod program s made selected).Tells Uncounted := by
  unfold spliceMethod
  exact .bind (.lift (tells_resolveMethod _ _ _)) fun plans =>
    .bind (.lift (.lift _)) fun body => .bind (.depths _ _) fun depths =>
      .bind (.lift (tells_spliceTraced s _ body depths plans)) fun _ => .pure _

/-- **No phase reports a count.** -/
theorem tells_prepare (settings : Settings) (program : Program) (mixins : List Mixin) :
    (prepare settings program mixins).Tells Uncounted := by
  have hlistings : ∀ selection, ∀ e ∈ selectedListings program selection, e.Uncounted := by
    intro selection e he
    obtain ⟨x, -, hx⟩ := List.mem_filterMap.mp he
    obtain ⟨body, -, rfl⟩ := Option.map_eq_some_iff.mp hx
    exact uncounted_note _ _ _
  unfold prepare
  exact .bind (.lift (tells_scan program mixins)) fun r =>
    .bind (.lift (tells_writeSnapshot settings r)) fun _ =>
    .bind (tells_selectAll program settings.shifts r) fun selection =>
    .bind (.lift (hlistings selection)) fun _ =>
    .bind (.lift (tells_build program r)) fun copies =>
    .bind (.foldlM (fun made selected => tells_spliceMethod _ made selected) _ _) fun made =>
    .bind (.lift (.lift _)) fun _ => .bind (.lift (.lift _)) fun _ =>
    .bind (.lift (.lift _)) fun _ => .pure _

end

/-! ## §4. Reports that wait. -/

/-- **No reports of counts wait** for the next report of a weaver. -/
theorem HasRun.no_counts {w : Weaver} {program : Program} (h : HasRun w program) :
    w.reports.filter (·.diagnostic.isCount) = [] := by
  induction h with
  | new settings program => rfl
  | @weave w program before mixins ih =>
    have htells := tells_prepare w.settings program mixins w.cache
    -- a run that fails has prepared its changes at most, and one that succeeds leaves no reports
    have hfailed : ∀ e cache program', ((w.failed e
        ((prepare w.settings program mixins).run w.cache).1.events cache
          program').weaver.reports.filter (·.diagnostic.isCount)) = [] := by
      intro e cache program'
      show (w.reports ++ reportsOf _).filter _ = []
      rw [List.filter_append, ih, filter_isCount_reportsOf htells]
      rfl
    unfold Weaver.weave
    dsimp only
    split
    · exact hfailed _ _ _
    · split
      · exact hfailed _ _ _
      · rfl

end PatchWeaver

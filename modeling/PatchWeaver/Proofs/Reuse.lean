/-
  PatchWeaver.Proofs.Reuse
  ────────────────────────
  **USING A WEAVER AGAIN.**

  Between runs a weaver keeps two things: stack depths, and diagnostics that
  no report has taken.  The depths are not to be seen from outside; a cache
  in which every entry is what the analysis of the method's body yields
  changes nothing but the number of analyses:

      run x cache   =   run x {}      up to the cache that is left

  This is carried through the steps of preparing a run (`Steady`), and from
  there to one call and to all calls of a weaver.  A run that fails keeps
  its depths, but it leaves the program alone; one that installs bodies
  keeps none.  So the entries are those of the program at hand after every
  call, whatever came before it.

  Main results:
    * `Weaver.Keeps.weave` — one call against one call of a new weaver.
    * `weaveAll_matches_replay` — every call of a weaver is a call of a new
      weaver, but for the diagnostics of calls that failed before it.
-/
import PatchWeaver.Proofs.Runs

namespace PatchWeaver

/-! ## §1. Sound caches. -/

/-- Every entry is what the analysis of a method's body yields. -/
def DepthCache.Sound (c : DepthCache) (body? : MethodRef → Option Body) : Prop :=
  ∀ entry ∈ c.entries, ∃ body, body? entry.1 = some body ∧ body.depths = .ok entry.2

namespace DepthCache

variable {body? : MethodRef → Option Body} {c : DepthCache}

theorem sound_empty (body? : MethodRef → Option Body) : DepthCache.Sound {} body? := by
  intro entry hentry
  contradiction

/-- What a sound cache answers is accurate. -/
theorem Sound.accurate (h : c.Sound body?) : c.Accurate body? := by
  intro method body depths hbody hfound
  obtain ⟨⟨m, d⟩, hfind, rfl⟩ := Option.map_eq_some_iff.mp hfound
  have hm : m = method := by simpa using List.find?_some hfind
  subst m
  obtain ⟨body', hbody', hdepths⟩ := h _ (List.mem_of_find?_eq_some hfind)
  obtain rfl := Option.some_inj.mp (hbody.symm.trans hbody')
  exact hdepths

/-- Answering adds an entry of the analysis, or none. -/
theorem Sound.depths (h : c.Sound body?) {method : MethodRef} {body : Body}
    (hbody : body? method = some body) : (c.depths method body).2.Sound body? := by
  unfold DepthCache.depths
  cases c.find? method with
  | some d => exact h
  | none =>
    cases hdepths : body.depths with
    | error e => exact h
    | ok d =>
      intro entry hentry
      rcases List.mem_cons.mp hentry with rfl | hentry
      · exact ⟨body, hbody, hdepths⟩
      · exact h entry hentry

end DepthCache

/-! ## §2. Computations in which no cache shows. -/

namespace Analysing

/-- From any sound cache, the computation comes to the result that it comes to without any, tells
the same, and leaves a sound cache. -/
def Steady {α : Type} (body? : MethodRef → Option Body) (x : Analysing α) : Prop :=
  ∀ cache : DepthCache, cache.Sound body? →
    (x.run cache).1 = (x.run {}).1 ∧ (x.run cache).2.Sound body?

namespace Steady

variable {α β : Type} {body? : MethodRef → Option Body}

theorem lift (x : Traced α) : Steady body? (Analysing.lift x) := fun _ hcache => ⟨rfl, hcache⟩

theorem pure (a : α) : Steady body? (Pure.pure a : Analysing α) := fun _ hcache => ⟨rfl, hcache⟩

/-- Depths are those of the analysis, with a cache and without. -/
theorem depths {method : MethodRef} {body : Body} (hbody : body? method = some body) :
    Steady body? (Analysing.depths method body) := by
  intro cache hcache
  have hkept : (cache.depths method body).1 = body.depths :=
    DepthCache.depths_of_accurate hcache.accurate hbody
  have hfound : (DepthCache.depths {} method body).1 = body.depths :=
    DepthCache.depths_of_accurate (DepthCache.sound_empty body?).accurate hbody
  refine ⟨?_, hcache.depths hbody⟩
  show Traced.lift ((cache.depths method body).1.mapError _)
    = Traced.lift ((DepthCache.depths {} method body).1.mapError _)
  rw [hkept, hfound]

/-- A step and what follows it; only results that the step can have matter for the latter. -/
theorem bind {x : Analysing α} {f : α → Analysing β} (hx : Steady body? x)
    (hf : ∀ a, x.outcome {} = .ok a → Steady body? (f a)) : Steady body? (x >>= f) := by
  intro cache hcache
  obtain ⟨heq, hsound⟩ := hx cache hcache
  -- the cache that the first step leaves when it starts with none
  have hsound₀ : (x.run {}).2.Sound body? := (hx {} (DepthCache.sound_empty body?)).2
  unfold outcome at hf
  generalize hrun : x.run cache = first at heq hsound
  generalize hrun₀ : x.run {} = first₀ at heq hsound₀ hf
  obtain ⟨t, left⟩ := first
  obtain ⟨⟨result, events⟩, left₀⟩ := first₀
  obtain rfl : t = ⟨result, events⟩ := heq
  cases result with
  | error e =>
    rw [run_bind_of_error f hrun, run_bind_of_error f hrun₀]
    exact ⟨rfl, hsound⟩
  | ok a =>
    rw [run_bind_of_ok f hrun, run_bind_of_ok f hrun₀]
    obtain ⟨hsame, hleft⟩ := hf a rfl left hsound
    obtain ⟨hsame₀, -⟩ := hf a rfl left₀ hsound₀
    rw [hsame, hsame₀]
    exact ⟨rfl, hleft⟩

theorem foldlM {f : β → α → Analysing β} {as : List α}
    (hf : ∀ b, ∀ a ∈ as, Steady body? (f b a)) (b : β) : Steady body? (as.foldlM f b) := by
  induction as generalizing b with
  | nil => exact .pure b
  | cons a as ih =>
    rw [List.foldlM_cons]
    exact (hf b a List.mem_cons_self).bind fun b' _ =>
      ih (fun b a ha => hf b a (List.mem_cons_of_mem _ ha)) b'

end Steady

end Analysing

/-! ## §3. Preparing a run. -/

section

variable {program : Program}

theorem steady_selectInMethod (settings : ShiftSettings) (patch : Patch) (selection : Selection)
    (method : MethodRef) :
    Analysing.Steady program.body? (selectInMethod program settings patch selection method) := by
  unfold selectInMethod
  cases htarget : targetBody program patch method with
  | error reason => exact .bind (.lift _) fun _ _ => .pure _
  | ok body =>
    have hbody : program.body? method = some body := (targetBody_eq_ok_iff.mp htarget).2
    exact .bind (.depths hbody) fun _ _ => .bind (.lift _) fun _ _ => .pure _

theorem steady_selectAll (settings : ShiftSettings) (r : Registry) :
    Analysing.Steady program.body? (selectAll program settings r) := by
  unfold selectAll
  refine .bind (.foldlM (fun selection patch _ => ?_) _) fun _ _ =>
    .bind (.lift _) fun _ _ => .pure _
  unfold selectPatch
  exact .bind (.lift _) fun methods _ =>
    .foldlM (fun selection method _ => steady_selectInMethod settings patch selection method) _

theorem steady_spliceMethod (splicer : Splicer) (made : Spliced)
    (selected : MethodRef × Offsets) :
    Analysing.Steady program.body? (spliceMethod program splicer made selected) := by
  unfold spliceMethod
  refine .bind (.lift _) fun plans _ => .bind (.lift _) fun body hexisting => ?_
  have hbody : program.body? selected.1 = some body := by
    change existingBody program selected.1 = .ok body at hexisting
    unfold existingBody at hexisting
    split at hexisting
    · next heq => rw [heq, Except.ok.inj hexisting]
    · contradiction
  exact .bind (.depths hbody) fun _ _ => .bind (.lift _) fun _ _ => .pure _

/-- **Preparing a run comes to the same from every sound cache.** -/
theorem steady_prepare (settings : Settings) (mixins : List Mixin) :
    Analysing.Steady program.body? (prepare settings program mixins) := by
  unfold prepare
  refine .bind (.lift _) fun registry _ => .bind (.lift _) fun _ _ => ?_
  refine .bind (steady_selectAll settings.shifts registry) fun selection _ => ?_
  refine .bind (.lift _) fun _ _ => .bind (.lift _) fun copies _ => ?_
  refine .bind (.foldlM (fun made selected _ => steady_spliceMethod _ made selected) _)
    fun made _ => ?_
  exact .bind (.lift _) fun _ _ => .bind (.lift _) fun _ _ => .bind (.lift _) fun _ _ => .pure _

end

/-! ## §4. One call. -/

/-- A report that carries diagnostics of earlier calls, too. -/
def WeaveReport.after (earlier : List Report) (r : WeaveReport) : WeaveReport :=
  { r with reports := earlier ++ r.reports }

/-- A call comes to what another one comes to; only its report carries earlier diagnostics. -/
structure WeaveResult.Matches (earlier : List Report) (result fresh : WeaveResult) : Prop where
  outcome_eq : result.outcome = fresh.outcome.map (·.after earlier)
  events_eq : result.events = fresh.events
  program_eq : result.program = fresh.program

/-- Diagnostics that a call leaves for later reports, if there were some before it. -/
def WeaveResult.unreported (earlier : List Report) (result : WeaveResult) : List Report :=
  match result.outcome with
  | .ok _ => []
  | .error _ => earlier ++ reportsOf result.events

/-- What a weaver has kept after some calls: depths of the program at hand, and diagnostics. -/
structure Weaver.Keeps (w : Weaver) (settings : Settings) (program : Program)
    (unreported : List Report) : Prop where
  settings_eq : w.settings = settings
  sound : w.cache.Sound program.body?
  reports_eq : w.reports = unreported

theorem Weaver.keeps_new (settings : Settings) (program : Program) :
    (Weaver.new settings).Keeps settings program [] :=
  ⟨rfl, DepthCache.sound_empty _, rfl⟩

/-- **One call of a weaver is a call of a new one**, and what the weaver keeps afterwards is what
it should. -/
theorem Weaver.Keeps.weave {w : Weaver} {settings : Settings} {program : Program}
    {unreported : List Report} (h : w.Keeps settings program unreported) (mixins : List Mixin) :
    (w.weave program mixins).Matches unreported ((Weaver.new settings).weave program mixins)
      ∧ (w.weave program mixins).weaver.Keeps settings (w.weave program mixins).program
          (((Weaver.new settings).weave program mixins).unreported unreported) := by
  obtain ⟨rfl, hsound, rfl⟩ := h
  obtain ⟨heq, hleft⟩ := steady_prepare w.settings mixins w.cache hsound
  obtain ⟨-, hyields⟩ := ensures_prepare w.settings program mixins w.cache hsound.accurate
  unfold Analysing.outcome at hyields
  generalize hrun : (prepare w.settings program mixins).run w.cache = prepared at heq hleft hyields
  generalize hrun₀ : (prepare w.settings program mixins).run {} = fresh at heq
  obtain ⟨t, left⟩ := prepared
  obtain ⟨⟨outcome, events⟩, left₀⟩ := fresh
  obtain rfl : t = ⟨outcome, events⟩ := heq
  cases hyields with
  | error _ =>
    rw [Weaver.weave_eq_failed hrun, Weaver.weave_eq_failed (w := .new w.settings) hrun₀]
    exact ⟨⟨rfl, rfl, rfl⟩, ⟨rfl, hleft, rfl⟩⟩
  | ok hprepared =>
    -- prepared changes go through, so a program that was changed is one without kept depths
    obtain ⟨declared, woven, hdeclare, hinstall⟩ :=
      changes_go_through hprepared.checked hprepared.installable
    rw [Weaver.weave_eq_succeeded hrun hdeclare hinstall,
      Weaver.weave_eq_succeeded (w := .new w.settings) hrun₀ hdeclare hinstall]
    exact ⟨⟨rfl, rfl, rfl⟩, Weaver.keeps_new _ _⟩

/-! ## §5. All calls. -/

/-- Calls of a weaver, one after the other: the weaver, and the program that they lead to. -/
def Weaver.weaveAll (w : Weaver) (program : Program) : List (List Mixin) → Weaver × Program
  | [] => (w, program)
  | mixins :: rest =>
    (w.weave program mixins).weaver.weaveAll (w.weave program mixins).program rest

/-- Where calls of new weavers have led to. -/
structure Replay where
  program : Program
  /-- Diagnostics of the calls that have failed since one succeeded. -/
  unreported : List Report := []

/-- The same calls, every one of them on a new weaver. -/
def Replay.weaveAll (settings : Settings) (r : Replay) : List (List Mixin) → Replay
  | [] => r
  | mixins :: rest =>
    let result := (Weaver.new settings).weave r.program mixins
    Replay.weaveAll settings ⟨result.program, result.unreported r.unreported⟩ rest

/-- A weaver in step with new weavers stays so. -/
theorem Weaver.Keeps.weaveAll {w : Weaver} {settings : Settings} {program : Program}
    {unreported : List Report} (h : w.Keeps settings program unreported)
    (history : List (List Mixin)) :
    (w.weaveAll program history).2
      = (Replay.weaveAll settings ⟨program, unreported⟩ history).program
      ∧ (w.weaveAll program history).1.Keeps settings (w.weaveAll program history).2
          (Replay.weaveAll settings ⟨program, unreported⟩ history).unreported := by
  induction history generalizing w program unreported with
  | nil => exact ⟨rfl, h⟩
  | cons mixins rest ih =>
    obtain ⟨hmatches, hkeeps⟩ := h.weave mixins
    have hrest := ih hkeeps
    unfold Weaver.weaveAll Replay.weaveAll
    rw [hmatches.program_eq] at hrest ⊢
    exact hrest

/-- **Reusing a weaver is the same as making a new one for every call.**  After any calls, every
entry of its cache is what the analysis of the method's body yields, the program is the one that
calls of new weavers lead to, and the next call, whichever it is, comes to what it comes to on a
new weaver, except that a report carries the diagnostics of calls that have failed before it. -/
theorem weaveAll_matches_replay (settings : Settings) (program : Program)
    (history : List (List Mixin)) (mixins : List Mixin) :
    let used := (Weaver.new settings).weaveAll program history
    let replay := Replay.weaveAll settings ⟨program, []⟩ history
    (∀ entry ∈ used.1.cache.entries, ∃ body, used.2.body? entry.1 = some body
        ∧ body.depths = .ok entry.2)
      ∧ used.2 = replay.program
      ∧ (used.1.weave used.2 mixins).Matches replay.unreported
          ((Weaver.new settings).weave replay.program mixins) := by
  obtain ⟨hprogram, hkeeps⟩ := (Weaver.keeps_new settings program).weaveAll history
  refine ⟨hkeeps.sound, hprogram, ?_⟩
  rw [← hprogram]
  exact (hkeeps.weave mixins).1

end PatchWeaver

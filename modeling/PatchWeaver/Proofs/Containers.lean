/-
  PatchWeaver.Proofs.Containers
  ─────────────────────────────
  **CONTAINERS.**

  The container of an instruction is a part of the woven body: markers
  around what is run instead of the instruction alone.

      opening   begin marker
      before    calls of the patches before it, and of the replacing patch
      kept      the instruction, unless it is replaced
      after     calls of the patches after it
      closing   end marker

  A run enters a container in front, and calls what the plan says in the
  order in which the plan says it.  If the instruction is kept, all of its
  jumps leave the container; otherwise a run leaves it behind.

  Main results:
    * `container_of_plannable` — a container is made wherever the patches of
      the plan can be called.
    * `Fills.exists_part` — its entries make a part that performs what is
      planned.
-/
import PatchWeaver.Proofs.PatchCode

namespace PatchWeaver

/-! ## §1. Parts of a woven body. -/

/-- What an instruction of a body gives way to. -/
structure Part where
  opening : List Entry
  /-- Calls of the patches before the instruction, and of the one that replaces it. -/
  before : List Entry
  kept : Option Entry
  after : List Entry
  closing : List Entry
  deriving Repr, DecidableEq

namespace Part

/-- What is run before the kept instruction. -/
def front (p : Part) : List Entry := p.opening ++ p.before

/-- What is run behind the kept instruction. -/
def back (p : Part) : List Entry := p.after ++ p.closing

/-- All of a part, in order. -/
def entries (p : Part) : List Entry := p.front ++ p.kept.toList ++ p.back

/-- An instruction without a container. -/
def bare (e : Entry) : Part := ⟨[], [], some e, [], []⟩

/-- What running the kept instruction does. -/
def keptActs (p : Part) (l : Label) : List Act := if p.kept.isSome then [.declared l] else []

end Part

/-- A run goes through entries from one progress to another. -/
def Runs (entries : List Entry) (st st' : Progress) : Prop :=
  ∃ code table, Realizes code entries ∧ Track st code table (some st')

/-- A run of a part at a depth: what it does before the kept instruction and behind it is what is
planned for the instruction. -/
structure Part.Performs (p : Part) (planned : List (Option Act)) (l : Label) (i : Instruction)
    (depth : Nat) (before behind : List Act) : Prop where
  enters : Runs p.front ⟨[], depth⟩ ⟨before, if p.kept.isSome then depth else i.depthAfter depth⟩
  leaves : Runs p.after ⟨before ++ p.keptActs l, i.depthAfter depth⟩
    ⟨before ++ p.keptActs l ++ behind, i.depthAfter depth⟩
  closes : ∀ st, Runs p.closing st st
  planned_eq : (before ++ p.keptActs l ++ behind).map some = planned
  goesOn : p.kept = none ∨ behind ≠ [] → i.flow = .next

namespace Splicer

/-- What is planned for the instruction that has a label: calls of copies, and the instruction
itself unless it is replaced. -/
def plannedActs (s : Splicer) (owner : ClassName) (plan : SitePlan) (l : Label) :
    List (Option Act) :=
  plan.before.map (s.call? owner)
    ++ (match plan.replace with
      | some id => [s.call? owner id]
      | none => [some (.declared l)])
    ++ plan.after.map (s.call? owner)

/-- Every patch of a plan can be called at an instruction. -/
structure Plannable (s : Splicer) (method : MethodRef) (locals : List FieldType) (i : Instruction)
    (plan : SitePlan) : Prop where
  before : ∀ id ∈ plan.before, s.Placeable method locals i .before id
  replace : ∀ id, plan.replace = some id → s.Placeable method locals i .replace id
  after : ∀ id ∈ plan.after, s.Placeable method locals i .after id

variable {s : Splicer} {method : MethodRef} {locals : List FieldType} {i : Instruction}
  {plan : SitePlan}

theorem Plannable.mono {locals' : List FieldType} (h : s.Plannable method locals i plan)
    (hl : locals <+: locals') : s.Plannable method locals' i plan where
  before id hid := (h.before id hid).mono hl
  replace id hid := (h.replace id hid).mono hl
  after id hid := (h.after id hid).mono hl

theorem Plannable.rename (h : s.Plannable method locals i plan) (f : Label → Label) :
    s.Plannable method locals (i.rename f) plan where
  before id hid := (h.before id hid).rename f
  replace id hid := (h.replace id hid).rename f
  after id hid := (h.after id hid).rename f

/-- What is planned besides calls before an instruction needs control to go on behind it. -/
theorem Plannable.flow_eq (h : s.Plannable method locals i plan)
    (hplan : plan.replace ≠ none ∨ plan.after ≠ []) : i.flow = .next := by
  rcases hplan with hreplace | hafter
  · obtain ⟨id, hid⟩ := Option.ne_none_iff_exists'.mp hreplace
    exact (h.replace id hid).flow_eq (by simp)
  · obtain ⟨id, hid⟩ := List.exists_mem_of_ne_nil _ hafter
    exact (h.after id hid).flow_eq (by simp)

/-- There is a value for the patches behind an instruction. -/
theorem Plannable.one_le_depthAfter (h : s.Plannable method locals i plan)
    (hafter : plan.after ≠ []) (depth : Nat) : 1 ≤ i.depthAfter depth := by
  obtain ⟨id, hid⟩ := List.exists_mem_of_ne_nil _ hafter
  have hpush := (h.after id hid).push_eq
  unfold Instruction.depthAfter
  omega

/-! ## §2. Markers. -/

/-- A marker does nothing. -/
theorem run_markerInstructions (s : Splicer) (text : String) (st : Progress) :
    st.run (s.markerInstructions text) = some st := by
  unfold markerInstructions
  split <;> simp [Progress.run, Progress.after, Instruction.flow, Instruction.effect,
    Instruction.acts, Instruction.depthAfter]

theorem exists_track_marker (s : Splicer) (text : String) (origin : Origin) (st : Progress) :
    ∃ table, Track st (unlabelled origin (s.markerInstructions text)) table (some st) :=
  Track.of_run (run_markerInstructions s text st) origin

/-- Entries of the marker that opens a container. -/
def opening (s : Splicer) : List PendingEntry :=
  unlabelled .beginMarker (s.markerInstructions "debug: patch begin")

/-- Entries of the marker that closes a container. -/
def closing (s : Splicer) : List PendingEntry :=
  unlabelled .endMarker (s.markerInstructions "debug: patch end")

theorem beginMarker_eq (s : Splicer) : s.beginMarker = ⟨.beginMarker, s.opening, none⟩ :=
  Block.empty_pushAll _ _

theorem endMarker_eq (s : Splicer) : s.endMarker = ⟨.endMarker, s.closing, none⟩ :=
  Block.empty_pushAll _ _

/-! ## §3. Making a container. -/

/-- What stands between the calls of a container: the instruction, unless it is replaced. -/
def keptEntries (plan : SitePlan) (kept : Entry) : List PendingEntry :=
  if plan.replace.isSome then [] else [⟨some kept.label, kept.origin, kept.instruction⟩]

/-- What running that does. -/
def keptActs (plan : SitePlan) (kept : Entry) : List Act :=
  if plan.replace.isSome then [] else [.declared kept.label]

variable {site : Site}

/-- The replacing patch is appended, or the instruction itself if there is none. -/
theorem appendReplacement_of_plannable {block : Block} (w : Workbench) (kept : Entry)
    (hblock : block.waiting = none)
    (h : s.Plannable site.method w.body.locals site.instruction plan)
    (hdepth : site.instruction.effect.pop ≤ site.depth) (acts : List Act) :
    ∃ (calls : List Act) (code : List PendingEntry) (w' : Workbench),
      plan.replace.toList.map (s.call? site.method.owner) = calls.map some
      ∧ s.appendReplacement site kept (block, w) plan.replace
          = .ok ({ block with entries := block.entries ++ (code ++ keptEntries plan kept) }, w')
      ∧ Emits w w' code ⟨acts, site.depth⟩ ⟨acts ++ calls,
          if plan.replace.isSome then site.instruction.depthAfter site.depth else site.depth⟩ := by
  cases hreplace : plan.replace with
  | none =>
    refine ⟨[], [], w, rfl, ?_, ?_⟩
    · simp [appendReplacement, Block.pushEntry, hblock, liftMachine_ok, bind,
        Except.bind, pure, Except.pure, keptEntries, hreplace]
    · simpa using Emits.nil w ⟨acts, site.depth⟩
  | some id =>
    obtain ⟨copy, code, w', hcopy, happend, hemits⟩ :=
      appendPatch_of_placeable hblock (h.replace id hreplace) acts hdepth
    refine ⟨[.call copy], code, w', by simp [hcopy], ?_, hemits⟩
    simpa [appendReplacement, keptEntries, hreplace] using happend

/-- The entries of a container. -/
def containerCode (s : Splicer) (plan : SitePlan) (kept : Entry)
    (before after : List PendingEntry) :
    List PendingEntry :=
  s.opening ++ before ++ keptEntries plan kept ++ after ++ s.closing

/-- Code for the patches of a plan, made while a workbench changed twice. -/
structure Fills (s : Splicer) (owner : ClassName) (plan : SitePlan) (kept : Entry) (depth : Nat)
    (w mid w' : Workbench) (before after : List PendingEntry) (acts behind : List Act) : Prop where
  before : Emits w mid before ⟨[], depth⟩
    ⟨acts, if plan.replace.isSome then kept.instruction.depthAfter depth else depth⟩
  after : Emits mid w' after ⟨acts ++ keptActs plan kept, kept.instruction.depthAfter depth⟩
    ⟨acts ++ keptActs plan kept ++ behind, kept.instruction.depthAfter depth⟩
  planned_eq : (acts ++ keptActs plan kept ++ behind).map some
    = s.plannedActs owner plan kept.label
  behind_ne : behind ≠ [] → plan.after ≠ []

/-- **A container is made wherever the patches of the plan can be called.** -/
theorem container_of_plannable {body : Body} (kept : Entry) {depth : Nat}
    (h : s.Plannable method body.locals kept.instruction plan)
    (hdepth : kept.instruction.effect.pop ≤ depth) :
    ∃ before after acts behind mid w,
      s.container ⟨method, kept.instruction, depth⟩ kept plan body
          = .ok (⟨.beginMarker, s.containerCode plan kept before after, none⟩, w)
      ∧ s.Fills method.owner plan kept depth { body } mid w before after acts behind := by
  generalize hsite : (⟨method, kept.instruction, depth⟩ : Site) = site
  have hmethod : site.method = method := by rw [← hsite]
  have hinstruction : site.instruction = kept.instruction := by rw [← hsite]
  have hsiteDepth : site.depth = depth := by rw [← hsite]
  rw [← hmethod, ← hinstruction] at h
  rw [← hinstruction, ← hsiteDepth] at hdepth
  -- the calls before the instruction, behind the begin marker
  have hstart : (⟨.beginMarker, s.opening, none⟩ : Block).waiting = none := rfl
  obtain ⟨calls, code, w₁, hcalls, hrun, hemits⟩ :=
    exists_emits_patches { body } hstart h.before [] (fun _ _ => rfl) rfl
  -- the replacing patch, or the instruction
  have hfront : (⟨.beginMarker, s.opening ++ code, none⟩ : Block).waiting = none := rfl
  obtain ⟨calls', code', w₂, hcalls', hrun', hemits'⟩ :=
    appendReplacement_of_plannable w₁ kept hfront
    (h.mono hemits.grows.locals_le) hdepth ([] ++ calls)
  -- the calls behind the instruction, where there is a value for them
  have hback : (⟨.beginMarker, s.opening ++ code ++ (code' ++ keptEntries plan kept), none⟩ :
      Block).waiting = none := rfl
  obtain ⟨behind, code'', w₃, hbehind, hrun'', hemits''⟩ := exists_emits_patches w₂ hback
    (h.mono (hemits.grows.trans hemits'.grows).locals_le).after
    ([] ++ calls ++ calls' ++ keptActs plan kept)
    (fun id hid => h.one_le_depthAfter (List.ne_nil_of_mem hid) site.depth) rfl
  have hbefore := hemits.append hemits'
  rw [hinstruction, hsiteDepth] at hbefore hemits''
  refine ⟨code ++ code', code'', [] ++ calls ++ calls', behind, w₂, w₃, ?_, hbefore, hemits'',
    ?_, ?_⟩
  · simp only [container, beginMarker_eq, hrun, bind, Except.bind, hrun', hrun'']
    simp [Block.extend_of_not_waiting, endMarker_eq, liftMachine_ok, pure, Except.pure,
      containerCode, List.append_assoc]
  · unfold plannedActs keptActs
    rw [← hmethod, hbehind, hcalls, List.nil_append]
    cases hreplace : plan.replace with
    | none =>
      obtain rfl : calls' = [] := by simpa [hreplace] using hcalls'
      simp
    | some id =>
      have hcall : [s.call? site.method.owner id] = calls'.map some := by
        simpa [hreplace] using hcalls'
      simp [hcall]
  · intro hne hafter
    simp [hafter] at hbehind
    exact hne hbehind

/-! ## §4. The part that a container becomes. -/

/-- A part is the container of an instruction, which was kept or is not. -/
structure Builds (s : Splicer) (plan : SitePlan) (bound : Nat) (kept : Entry) (p : Part) :
    Prop where
  opening_eq : p.opening.map (fun e => (e.origin, e.instruction))
    = (s.markerInstructions "debug: patch begin").map (Origin.beginMarker, ·)
  closing_eq : p.closing.map (fun e => (e.origin, e.instruction))
    = (s.markerInstructions "debug: patch end").map (Origin.endMarker, ·)
  injected : ∀ e ∈ p.before ++ p.after, e.origin = .injected
  kept_eq : p.kept = if plan.replace.isSome then none else some kept
  fresh : ∀ e ∈ p.front ++ p.back, bound ≤ e.label.id

theorem map_unlabelled (origin : Origin) (code : List Instruction) :
    (unlabelled origin code).map (fun p => (p.origin, p.instruction)) = code.map (origin, ·) := by
  simp [unlabelled]

theorem realizes_keptEntries {kept : Entry} {entries : List Entry}
    (h : Realizes (keptEntries plan kept) entries) :
    entries = (if plan.replace.isSome then none else some kept).toList := by
  unfold keptEntries at h
  split at h
  · next hreplace =>
    rw [if_pos hreplace]
    cases h
    rfl
  · next hreplace =>
    rw [if_neg hreplace]
    exact h.eq_singleton

variable {owner : ClassName} {kept : Entry} {depth : Nat} {w mid w' : Workbench}
  {before after : List PendingEntry} {acts behind : List Act}

theorem placedLabels_containerCode (s : Splicer) (plan : SitePlan) (kept : Entry)
    (before after : List PendingEntry) :
    placedLabels (s.containerCode plan kept before after)
      = placedLabels before ++ ((if plan.replace.isSome then [] else [kept.label])
        ++ placedLabels after) := by
  unfold containerCode keptEntries opening closing
  split <;> simp

/-- The labels that a container brings are distinct; all were drawn for it but that of the
instruction. -/
theorem drawn_containerCode (s : Splicer) {lo mid hi : Nat}
    (hbefore : Drawn lo mid (placedLabels before)) (hafter : Drawn mid hi (placedLabels after))
    (hlo : lo ≤ mid) (hhi : mid ≤ hi) (hkept : kept.label.id < lo) :
    (placedLabels (s.containerCode plan kept before after)).Nodup
      ∧ ∀ l ∈ placedLabels (s.containerCode plan kept before after), l.id < hi
        ∧ (lo ≤ l.id ∨ (l = kept.label ∧ plan.replace.isSome = false)) := by
  have hdrawn := hbefore.append hafter hlo hhi
  rw [placedLabels_containerCode]
  cases hreplace : plan.replace.isSome with
  | true =>
    refine ⟨hdrawn.nodup, fun l hl => ?_⟩
    have := hdrawn.range l hl
    exact ⟨this.2, .inl this.1⟩
  | false =>
    -- the label of the instruction comes before all labels drawn
    have hnotin : kept.label ∉ placedLabels before ++ placedLabels after := by
      intro hmem
      have := (hdrawn.range _ hmem).1
      omega
    have hperm : (placedLabels before ++ ([kept.label] ++ placedLabels after)).Perm
        (kept.label :: (placedLabels before ++ placedLabels after)) := List.perm_middle
    refine ⟨hperm.nodup_iff.mpr (List.nodup_cons.mpr ⟨hnotin, hdrawn.nodup⟩), fun l hl => ?_⟩
    rcases List.mem_cons.mp (hperm.mem_iff.mp hl) with rfl | hl
    · exact ⟨by omega, .inr ⟨rfl, rfl⟩⟩
    · have := hdrawn.range l hl
      exact ⟨this.2, .inl this.1⟩

/-- Where labels are distinct, no code of a part has the label of the kept instruction. -/
theorem Part.label_ne_kept {p : Part} (hkept : p.kept = some kept)
    (hnodup : (p.entries.map (·.label)).Nodup) :
    ∀ e ∈ p.front ++ p.back, e.label ≠ kept.label := by
  have hentries : p.entries = p.front ++ kept :: p.back := by simp [Part.entries, hkept]
  rw [hentries] at hnodup
  exact label_ne_of_nodup hnodup

/-- Code of a container has become the entries of a part. -/
structure Becomes (s : Splicer) (plan : SitePlan) (kept : Entry)
    (before after : List PendingEntry) (p : Part) : Prop where
  opening : Realizes s.opening p.opening
  before : Realizes before p.before
  kept_eq : p.kept = if plan.replace.isSome then none else some kept
  after : Realizes after p.after
  closing : Realizes s.closing p.closing

/-- The entries of a container make a part. -/
theorem exists_becomes {entries : List Entry}
    (h : Realizes (s.containerCode plan kept before after) entries) :
    ∃ p : Part, p.entries = entries ∧ s.Becomes plan kept before after p := by
  unfold containerCode at h
  obtain ⟨es, closing, rfl, hes, hclosing⟩ := h.of_append
  obtain ⟨es, after', rfl, hes, hafter⟩ := hes.of_append
  obtain ⟨es, keptOnes, rfl, hes, hkept⟩ := hes.of_append
  obtain ⟨opening, before', rfl, hopening, hbefore⟩ := hes.of_append
  obtain rfl := realizes_keptEntries hkept
  refine ⟨⟨opening, before', if plan.replace.isSome then none else some kept, after', closing⟩, ?_,
    ⟨hopening, hbefore, rfl, hafter, hclosing⟩⟩
  simp [Part.entries, Part.front, Part.back]

namespace Becomes

variable {p : Part}

theorem keptActs_eq (h : s.Becomes plan kept before after p) :
    p.keptActs kept.label = keptActs plan kept := by
  unfold Part.keptActs keptActs
  rw [h.kept_eq]
  cases plan.replace <;> rfl

/-- It is built for the instruction: what is not the instruction is new, and marked as such. -/
theorem builds (h : s.Becomes plan kept before after p)
    (hfills : s.Fills owner plan kept depth w mid w' before after acts behind)
    (hnodup : (p.entries.map (·.label)).Nodup)
    (hlabels : ∀ e ∈ p.entries, w.body.nextId ≤ e.label.id
      ∨ (e.label = kept.label ∧ plan.replace.isSome = false)) :
    s.Builds plan w.body.nextId kept p where
  opening_eq := by
    rw [h.opening.map_eq]
    exact map_unlabelled _ _
  closing_eq := by
    rw [h.closing.map_eq]
    exact map_unlabelled _ _
  injected e he := by
    rcases List.mem_append.mp he with he | he
    · obtain ⟨q, hq, hreal⟩ := h.before.exists_mem he
      rw [hreal.origin, hfills.before.injected q hq]
    · obtain ⟨q, hq, hreal⟩ := h.after.exists_mem he
      rw [hreal.origin, hfills.after.injected q hq]
  kept_eq := h.kept_eq
  fresh e he := by
    have hmem : e ∈ p.entries := by
      rcases List.mem_append.mp he with he | he <;> simp [Part.entries, he]
    rcases hlabels e hmem with hfresh | ⟨hlabel, hreplace⟩
    · exact hfresh
    · -- no code has the label of the kept instruction
      have hkept : p.kept = some kept := by simp [h.kept_eq, hreplace]
      exact absurd hlabel (Part.label_ne_kept hkept hnodup e he)

/-- It performs what is planned for the instruction. -/
theorem performs (h : s.Becomes plan kept before after p)
    (hfills : s.Fills owner plan kept depth w mid w' before after acts behind)
    (hflow : plan.replace ≠ none ∨ plan.after ≠ [] → kept.instruction.flow = .next) :
    p.Performs (s.plannedActs owner plan kept.label) kept.label kept.instruction depth acts
      behind where
  enters := by
    have hdepth : (if p.kept.isSome then depth else kept.instruction.depthAfter depth)
        = if plan.replace.isSome then kept.instruction.depthAfter depth else depth := by
      rw [h.kept_eq]
      cases plan.replace <;> rfl
    obtain ⟨table, htrack⟩ := exists_track_marker s "debug: patch begin" .beginMarker ⟨[], depth⟩
    obtain ⟨table', htrack'⟩ := hfills.before.tracked
    rw [hdepth]
    exact ⟨_, _, h.opening.append h.before, htrack.append rfl htrack'⟩
  leaves := by
    rw [h.keptActs_eq]
    obtain ⟨table, htrack⟩ := hfills.after.tracked
    exact ⟨_, _, h.after, htrack⟩
  closes st := by
    obtain ⟨table, htrack⟩ := exists_track_marker s "debug: patch end" .endMarker st
    exact ⟨_, _, h.closing, htrack⟩
  planned_eq := by
    rw [h.keptActs_eq]
    exact hfills.planned_eq
  goesOn := by
    rintro (hnone | hne)
    · refine hflow (.inl fun hreplace => ?_)
      simp [h.kept_eq, hreplace] at hnone
    · exact hflow (.inr (hfills.behind_ne hne))

end Becomes

/-- **The entries of a container make a part** that performs what is planned. -/
theorem Fills.exists_part (h : s.Fills owner plan kept depth w mid w' before after acts behind)
    {entries : List Entry}
    (hentries : Realizes (s.containerCode plan kept before after) entries)
    (hnodup : (entries.map (·.label)).Nodup)
    (hlabels : ∀ e ∈ entries, w.body.nextId ≤ e.label.id
      ∨ (e.label = kept.label ∧ plan.replace.isSome = false))
    (hflow : plan.replace ≠ none ∨ plan.after ≠ [] → kept.instruction.flow = .next) :
    ∃ p : Part, p.entries = entries ∧ s.Builds plan w.body.nextId kept p
      ∧ p.Performs (s.plannedActs owner plan kept.label) kept.label kept.instruction depth acts
          behind := by
  obtain ⟨p, rfl, hbecomes⟩ := exists_becomes hentries
  exact ⟨p, rfl, hbecomes.builds h hnodup hlabels, hbecomes.performs h hflow⟩

end Splicer

end PatchWeaver

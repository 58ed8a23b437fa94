/-
  PatchWeaver.Proofs.Layout
  ─────────────────────────
  **WHAT A WOVEN BODY LOOKS LIKE.**

  A woven body is a sequence of parts, one for each instruction of the body
  as it was, in order: the instruction alone where nothing is planned, and a
  container where something is.

      woven  =  part 0 ++ part 1 ++ ... ++ part (n - 1)

  Jumps have been sent elsewhere one label after another while containers
  were put in, in containers that were there already as well as in the
  instructions still ahead.  All in all there is one renaming of labels: it
  takes the label of an instruction to that of the first entry of its part,
  and leaves every other label as it is.  No step sends a jump of earlier
  steps elsewhere, since labels drawn are never labels of the body.

  Main results:
    * `spliceAt_of_plannable` — one instruction gives way to its container.
    * `Between.exists_step` — so it goes at every step of the loop.
    * `spliceFrom_of_between` — the loop lays out all parts.
-/
import PatchWeaver.Proofs.Containers

namespace PatchWeaver

/-! ## §1. Parts and renamings. -/

/-- Send the jump of the kept instruction elsewhere. -/
def Part.rename (f : Label → Label) (p : Part) : Part :=
  { p with kept := p.kept.map (Entry.rename f) }

/-- A jump of code that a run goes through stays in the code. -/
theorem Runs.exists_label {entries : List Entry} {st st' : Progress} (h : Runs entries st st')
    {e : Entry} (he : e ∈ entries) {l : Label} (hl : e.instruction.target? = some l) :
    ∃ e' ∈ entries, e'.label = l := by
  obtain ⟨code, table, hreal, htrack⟩ := h
  obtain ⟨p, hp, hpe⟩ := hreal.exists_mem he
  rw [hpe.instruction] at hl
  obtain ⟨q, hq, hlabel⟩ := List.mem_filterMap.mp (htrack.mem_placedLabels hp hl)
  obtain ⟨k, hk⟩ := List.mem_iff_getElem?.mp hq
  obtain ⟨e', he', hqe⟩ := hreal.exists_getElem? hk
  exact ⟨e', List.mem_of_getElem? he', hqe.label l hlabel⟩

section

variable {p : Part} {planned : List (Option Act)} {l : Label} {i : Instruction} {depth : Nat}
  {acts behind : List Act}

/-- What a part performs does not depend on where jumps lead. -/
theorem Part.Performs.rename (h : p.Performs planned l i depth acts behind) (f : Label → Label) :
    (p.rename f).Performs planned l i depth acts behind := by
  have hkept : (p.rename f).kept.isSome = p.kept.isSome := by simp [Part.rename]
  have hacts : (p.rename f).keptActs l = p.keptActs l := by simp [Part.keptActs, hkept]
  refine ⟨?_, ?_, h.closes, ?_, fun hgoes => h.goesOn ?_⟩
  · rw [hkept]
    exact h.enters
  · rw [hacts]
    exact h.leaves
  · rw [hacts]
    exact h.planned_eq
  · simpa [Part.rename] using hgoes

theorem Part.Performs.of_rename {f : Label → Label}
    (h : p.Performs planned l (i.rename f) depth acts behind) :
    p.Performs planned l i depth acts behind where
  enters := by simpa using h.enters
  leaves := by simpa using h.leaves
  closes := h.closes
  planned_eq := h.planned_eq
  goesOn hgoes := Instruction.flow_rename_eq_next_iff.mp (h.goesOn hgoes)

/-- Code that jumps to labels of its own only is left alone by a renaming that leaves them alone. -/
theorem Runs.map_rename {entries : List Entry} {st st' : Progress} (h : Runs entries st st')
    {f : Label → Label} (hf : ∀ e ∈ entries, f e.label = e.label) :
    entries.map (Entry.rename f) = entries := by
  have hsame : ∀ e ∈ entries, e.rename f = id e := by
    intro e he
    refine Entry.rename_eq_self fun l hl => ?_
    obtain ⟨e', he', rfl⟩ := h.exists_label he hl
    exact hf e' he'
  rw [List.map_congr_left hsame, List.map_id]

/-- So a renaming changes the kept instruction of a part only. -/
theorem Part.Performs.entries_rename (h : p.Performs planned l i depth acts behind)
    {f : Label → Label} (hf : ∀ e ∈ p.front ++ p.back, f e.label = e.label) :
    (p.rename f).entries = p.entries.map (Entry.rename f) := by
  have hfront := h.enters.map_rename fun e he => hf e (List.mem_append_left _ he)
  have hafter := h.leaves.map_rename fun e he =>
    hf e (List.mem_append_right _ (List.mem_append_left _ he))
  have hclosing := (h.closes ⟨[], 0⟩).map_rename fun e he =>
    hf e (List.mem_append_right _ (List.mem_append_right _ he))
  have hback : p.back.map (Entry.rename f) = p.back := by
    rw [back, List.map_append, hafter, hclosing]
  have hkept : (p.kept.map (Entry.rename f)).toList = p.kept.toList.map (Entry.rename f) := by
    cases p.kept <;> rfl
  simp only [entries, List.map_append, hfront, hback, ← hkept]
  rfl

end

/-! ## §2. One instruction. -/

theorem Body.labelList_retarget (b : Body) (old new : Label) :
    (b.retarget old new).labelList = b.labelList := by
  simp [labelList, retarget, Function.comp_def]

theorem Body.splice?_of_entries_eq {body : Body} {front rest : List Entry} {kept : Entry}
    (h : body.entries = front ++ kept :: rest) (entries : List Entry) :
    body.splice? front.length 1 entries
      = some { body with entries := front ++ entries ++ rest } := by
  have hle : front.length + 1 ≤ body.length := by simp [length, h]
  have hdrop : (front ++ kept :: rest).drop (front.length + 1) = rest := by
    rw [List.drop_append]
    simp
  rw [splice?, if_pos hle, h, List.take_left, hdrop]

/-- Labels stay distinct if those put in are new or belong to what they are put in for. -/
theorem nodup_of_replaced {front rest entries : List Entry} {kept : Entry} {bound : Nat}
    (hnodup : ((front ++ kept :: rest).map (·.label)).Nodup)
    (hbound : ∀ e ∈ front ++ kept :: rest, e.label.id < bound)
    (hentries : (entries.map (·.label)).Nodup)
    (hlabels : ∀ e ∈ entries, bound ≤ e.label.id ∨ e.label = kept.label) :
    ((front ++ entries ++ rest).map (·.label)).Nodup := by
  -- what stays has other labels than what is put in
  have hother := label_ne_of_nodup hnodup
  have hdisjoint : ∀ x ∈ front ++ rest, ∀ e ∈ entries, x.label ≠ e.label := by
    intro x hx e he heq
    have hlt : x.label.id < bound := hbound x (by
      rcases List.mem_append.mp hx with hx | hx <;> simp [hx])
    rcases hlabels e he with hge | hkept
    · rw [← heq] at hge
      omega
    · exact hother x hx (heq.trans hkept)
  -- the order does not matter to distinctness, so what is put in can be moved to the front
  have hsub : ((front ++ rest).map (·.label)).Nodup := by
    refine hnodup.sublist ((List.Sublist.append_left ?_ front).map _)
    exact List.sublist_cons_self kept rest
  have hperm : (front ++ entries ++ rest).Perm (entries ++ (front ++ rest)) := by
    rw [← List.append_assoc]
    exact List.perm_append_comm.append_right rest
  refine (hperm.map (·.label)).nodup_iff.mpr ?_
  rw [List.map_append]
  refine List.nodup_append.mpr ⟨hentries, hsub, fun l hl l' hl' heq => ?_⟩
  obtain ⟨e, he, rfl⟩ := List.mem_map.mp hl
  obtain ⟨x, hx, rfl⟩ := List.mem_map.mp hl'
  exact hdisjoint x hx e he heq.symm

/-- A body in which an entry has given way to others, and its jumps have been sent on, has a supply
ahead of its labels if that was drawn from for the new ones. -/
theorem ahead_replaced {body drawn : Body} {front rest entries : List Entry} {kept : Entry}
    (hbody : body.entries = front ++ kept :: rest) (hahead : body.Ahead)
    (hgrows : body.Extends drawn) (hseeded : drawn.labels.isSome)
    (hlabels : ∀ e ∈ entries, e.label.id < drawn.nextId) (old new : Label) :
    (({ drawn with entries := front ++ entries ++ rest } : Body).retarget old new).Ahead := by
  have hid : (({ drawn with entries := front ++ entries ++ rest } : Body).retarget old new).nextId
      = drawn.nextId := Body.nextId_with_entries hseeded _
  intro x hx
  rw [hid]
  obtain ⟨x, hx', rfl⟩ := List.mem_map.mp hx
  -- entries that were there have labels before the old supply, and so before the new one
  have hold : x ∈ front ++ kept :: rest → x.label.id < drawn.nextId := fun h =>
    Nat.lt_of_lt_of_le (hahead x (hbody ▸ h)) hgrows.nextId_le
  rcases List.mem_append.mp hx' with hx' | hx'
  · rcases List.mem_append.mp hx' with hx' | hx'
    · exact hold (List.mem_append_left _ hx')
    · exact hlabels x hx'
  · exact hold (List.mem_append_right _ (List.mem_cons_of_mem _ hx'))

/-- It has distinct labels if those put in are new or belong to the entry. -/
theorem labels_replaced {body drawn : Body} {front rest entries : List Entry} {kept : Entry}
    (hbody : body.entries = front ++ kept :: rest) (hnodup : body.labelList.Nodup)
    (hahead : body.Ahead) (hgrows : body.Extends drawn) (hseeded : drawn.labels.isSome)
    (hentries : (entries.map (·.label)).Nodup)
    (hlabels : ∀ e ∈ entries, e.label.id < drawn.nextId
      ∧ (body.nextId ≤ e.label.id ∨ e.label = kept.label)) (old new : Label) :
    (({ drawn with entries := front ++ entries ++ rest } : Body).retarget old new).labelList.Nodup
      ∧ (({ drawn with entries := front ++ entries ++ rest } : Body).retarget old new).Ahead := by
  refine ⟨?_, ahead_replaced hbody hahead hgrows hseeded (fun e he => (hlabels e he).1) old new⟩
  rw [Body.labelList_retarget]
  unfold Body.labelList at hnodup ⊢
  rw [hbody] at hnodup
  exact nodup_of_replaced hnodup (fun x hx => hahead x (hbody ▸ hx)) hentries
    fun x hx => (hlabels x hx).2

namespace Splicer

/-- A part has taken the place of an entry between others, and jumps to the entry go to the first
entry of the part. -/
structure Places (s : Splicer) (owner : ClassName) (plan : SitePlan) (depth : Nat) (body : Body)
    (front : List Entry) (kept : Entry) (rest : List Entry) (p : Part) (first : Label)
    (body' : Body) : Prop where
  builds : s.Builds plan body.nextId kept p
  performs : ∃ acts behind, p.Performs (s.plannedActs owner plan kept.label) kept.label
    kept.instruction depth acts behind
  first_eq : ∃ e es, p.entries = e :: es ∧ e.label = first
  first_fresh : body.nextId ≤ first.id
  entries_eq : body'.entries
    = (front ++ p.entries ++ rest).map (Entry.rename (kept.label.sentTo first))
  nodup : body'.labelList.Nodup
  ahead : body'.Ahead
  nextId_le : body.nextId ≤ body'.nextId
  locals_le : body.locals <+: body'.locals

theorem markerInstructions_ne_nil (s : Splicer) (text : String) :
    s.markerInstructions text ≠ [] := by
  unfold markerInstructions
  split <;> simp

/-- A container has a begin marker. -/
theorem Builds.opening_ne_nil {s : Splicer} {plan : SitePlan} {bound : Nat} {kept : Entry}
    {p : Part} (h : s.Builds plan bound kept p) : p.opening ≠ [] := by
  intro hnil
  have heq := h.opening_eq
  rw [hnil] at heq
  exact markerInstructions_ne_nil s _ (List.map_eq_nil_iff.mp heq.symm)

/-- It has an end marker, too. -/
theorem Builds.closing_ne_nil {s : Splicer} {plan : SitePlan} {bound : Nat} {kept : Entry}
    {p : Part} (h : s.Builds plan bound kept p) : p.closing ≠ [] := by
  intro hnil
  have heq := h.closing_eq
  rw [hnil] at heq
  exact markerInstructions_ne_nil s _ (List.map_eq_nil_iff.mp heq.symm)

/-- What the begin marker consists of. -/
theorem Builds.of_mem_opening {s : Splicer} {plan : SitePlan} {bound : Nat} {kept : Entry}
    {p : Part} (h : s.Builds plan bound kept p) {x : Entry} (hx : x ∈ p.opening) :
    x.origin = .beginMarker
      ∧ x.instruction ∈ s.markerInstructions "debug: patch begin" := by
  have hmem : (x.origin, x.instruction) ∈ p.opening.map fun e => (e.origin, e.instruction) :=
    List.mem_map_of_mem hx
  rw [h.opening_eq] at hmem
  obtain ⟨i, hi, heq⟩ := List.mem_map.mp hmem
  obtain ⟨horigin, hinstruction⟩ := Prod.mk.inj heq
  rw [← hinstruction]
  exact ⟨horigin.symm, hi⟩

/-- What the end marker consists of. -/
theorem Builds.of_mem_closing {s : Splicer} {plan : SitePlan} {bound : Nat} {kept : Entry}
    {p : Part} (h : s.Builds plan bound kept p) {x : Entry} (hx : x ∈ p.closing) :
    x.origin = .endMarker
      ∧ x.instruction ∈ s.markerInstructions "debug: patch end" := by
  have hmem : (x.origin, x.instruction) ∈ p.closing.map fun e => (e.origin, e.instruction) :=
    List.mem_map_of_mem hx
  rw [h.closing_eq] at hmem
  obtain ⟨i, hi, heq⟩ := List.mem_map.mp hmem
  obtain ⟨horigin, hinstruction⟩ := Prod.mk.inj heq
  rw [← hinstruction]
  exact ⟨horigin.symm, hi⟩

/-- No marker leaves the method. -/
theorem flow_of_mem_markerInstructions {s : Splicer} {text : String} {i : Instruction}
    (h : i ∈ s.markerInstructions text) : i.flow = .next := by
  unfold markerInstructions at h
  split at h
  · simp only [List.mem_cons, List.not_mem_nil, or_false] at h
    rcases h with rfl | rfl | rfl | rfl <;> rfl
  · obtain rfl := List.mem_singleton.mp h
    rfl

/-- Code of a container that leaves the method is code of a patch. -/
theorem Builds.injected_of_flow_ne {s : Splicer} {plan : SitePlan} {bound : Nat} {kept : Entry}
    {p : Part} (h : s.Builds plan bound kept p) {x : Entry} (hx : x ∈ p.front ++ p.back)
    (hflow : x.instruction.flow ≠ .next) : x.origin = .injected := by
  simp only [Part.front, Part.back, List.mem_append] at hx
  rcases hx with (hx | hx) | (hx | hx)
  · exact absurd (flow_of_mem_markerInstructions (h.of_mem_opening hx).2) hflow
  · exact h.injected x (List.mem_append_left _ hx)
  · exact h.injected x (List.mem_append_right _ hx)
  · exact absurd (flow_of_mem_markerInstructions (h.of_mem_closing hx).2) hflow

/-- So it starts with a label that was drawn for it. -/
theorem Builds.exists_cons {s : Splicer} {plan : SitePlan} {bound : Nat} {kept : Entry}
    {p : Part} (h : s.Builds plan bound kept p) :
    ∃ e es, p.entries = e :: es ∧ bound ≤ e.label.id := by
  obtain ⟨e, es, hopening⟩ := List.exists_cons_of_ne_nil h.opening_ne_nil
  refine ⟨e, es ++ p.before ++ p.kept.toList ++ p.back, ?_, h.fresh e ?_⟩
  · simp [Part.entries, Part.front, hopening]
  · simp [Part.front, hopening]

variable {s : Splicer} {method : MethodRef} {plan : SitePlan} {depth : Nat}

/-- A marker is never empty, so finishing a container draws labels. -/
theorem seeded_of_finished {kept : Entry} {before after : List PendingEntry} {b : Body}
    {entries : List Entry} {drawn : Body}
    (hassign : Block.assignLabels (s.containerCode plan kept before after) b = (entries, drawn)) :
    drawn.labels.isSome := by
  have hunlabelled : ∃ q ∈ s.containerCode plan kept before after, q.label = none := by
    obtain ⟨i, hi⟩ := List.exists_mem_of_ne_nil _ (markerInstructions_ne_nil s "debug: patch begin")
    refine ⟨⟨none, .beginMarker, i⟩, ?_, rfl⟩
    simp [containerCode, opening, unlabelled, hi]
  have hseeded := Block.isSome_labels_assignLabels (b := b) (.inr hunlabelled)
  rwa [hassign] at hseeded

/-- Finishing a container keeps its labels distinct, and all of them new but that of the
instruction. -/
theorem labels_of_finished {kept : Entry} {before after : List PendingEntry} {b : Body} {lo : Nat}
    (hplaced : (placedLabels (s.containerCode plan kept before after)).Nodup)
    (hdrawn : ∀ l ∈ placedLabels (s.containerCode plan kept before after), l.id < b.nextId
      ∧ (lo ≤ l.id ∨ (l = kept.label ∧ plan.replace.isSome = false)))
    (hlo : lo ≤ b.nextId) {entries : List Entry} {drawn : Body}
    (hassign : Block.assignLabels (s.containerCode plan kept before after) b = (entries, drawn)) :
    (entries.map (·.label)).Nodup ∧ ∀ e ∈ entries, e.label.id < drawn.nextId
      ∧ (lo ≤ e.label.id ∨ (e.label = kept.label ∧ plan.replace.isSome = false)) := by
  have hfinish := Block.extends_assignLabels (s.containerCode plan kept before after) b
  have hdistinct := Block.nodup_assignLabels hplaced fun l hl => (hdrawn l hl).1
  have hlabel := fun e he =>
    @Block.label_assignLabels (s.containerCode plan kept before after) b e he
  rw [hassign] at hfinish hdistinct hlabel
  have hle : b.nextId ≤ drawn.nextId := hfinish.nextId_le
  refine ⟨hdistinct, fun e he => ?_⟩
  -- a label was brought along, or else drawn when the container was finished
  rcases hlabel e he with hmem | hrange
  · exact ⟨Nat.lt_of_lt_of_le (hdrawn _ hmem).1 hle, (hdrawn _ hmem).2⟩
  · exact ⟨hrange.2, .inl (Nat.le_trans hlo hrange.1)⟩

/-- A container is made and finished; its labels are new but for that of the instruction. -/
theorem exists_finished {body : Body} {kept : Entry} (hkept : kept.label.id < body.nextId)
    (hplan : s.Plannable method body.locals kept.instruction plan)
    (hdepth : kept.instruction.effect.pop ≤ depth) :
    ∃ block w p acts behind drawn,
      s.container ⟨method, kept.instruction, depth⟩ kept plan body = .ok (block, w)
      ∧ block.finish w.body = .ok (p.entries, drawn)
      ∧ s.Builds plan body.nextId kept p
      ∧ p.Performs (s.plannedActs method.owner plan kept.label) kept.label kept.instruction depth
          acts behind
      ∧ (p.entries.map (·.label)).Nodup
      ∧ (∀ e ∈ p.entries, e.label.id < drawn.nextId
        ∧ (body.nextId ≤ e.label.id ∨ e.label = kept.label))
      ∧ body.Extends drawn ∧ drawn.labels.isSome := by
  obtain ⟨before, after, acts, behind, mid, w, hcontainer, hfills⟩ :=
    container_of_plannable kept hplan hdepth
  have hgrows : body.Extends w.body := hfills.before.grows.trans hfills.after.grows
  obtain ⟨hplaced, hdrawn⟩ := s.drawn_containerCode hfills.before.drawn hfills.after.drawn
    hfills.before.grows.nextId_le hfills.after.grows.nextId_le hkept
  have hfinish := Block.extends_assignLabels (s.containerCode plan kept before after) w.body
  have hreal := Block.realizes_assignLabels (s.containerCode plan kept before after) w.body
  -- from here on only what finishing says about the entries matters
  generalize hassign : Block.assignLabels (s.containerCode plan kept before after) w.body = finished
    at hfinish hreal
  obtain ⟨entries, drawn⟩ := finished
  have hseeded := seeded_of_finished hassign
  obtain ⟨hdistinct, hlabels⟩ := labels_of_finished hplaced hdrawn hgrows.nextId_le hassign
  obtain ⟨p, rfl, hbuilds, hperforms⟩ :=
    hfills.exists_part hreal hdistinct (fun e he => (hlabels e he).2) hplan.flow_eq
  refine ⟨_, w, p, acts, behind, drawn, hcontainer, ?_, hbuilds, hperforms, hdistinct,
    fun e he => ⟨(hlabels e he).1, (hlabels e he).2.imp_right And.left⟩, hgrows.trans hfinish,
    hseeded⟩
  show Except.ok _ = _
  rw [hassign]

/-- **One instruction gives way to its container.** -/
theorem spliceAt_of_plannable {body : Body} {front rest : List Entry} {kept : Entry}
    (hbody : body.entries = front ++ kept :: rest) (hnodup : body.labelList.Nodup)
    (hahead : body.Ahead) (hplan : s.Plannable method body.locals kept.instruction plan)
    (hdepth : kept.instruction.effect.pop ≤ depth) :
    ∃ step p first body', s.spliceAt method front.length depth plan body = .ok (step, body')
      ∧ step.entries = p.entries
      ∧ s.Places method.owner plan depth body front kept rest p first body' := by
  have hmem : kept ∈ body.entries := by simp [hbody]
  have hat : entryAt body.entries front.length = .ok kept := by simp [entryAt, hbody]
  obtain ⟨block, w, p, acts, behind, drawn, hcontainer, hfinish, hbuilds, hperforms, hdistinct,
    hlabels, hgrows, hseeded⟩ := exists_finished (hahead kept hmem) hplan hdepth
  obtain ⟨e, es, hcons, hfresh⟩ := hbuilds.exists_cons
  have hfirst : entryAt p.entries 0 = .ok e := by simp [entryAt, hcons]
  have hentries : drawn.entries = front ++ kept :: rest := hgrows.entries_eq.trans hbody
  -- the jumps are sent on in the body with the entries put in
  let spliced : Body := { drawn with entries := front ++ p.entries ++ rest }
  have hid : (spliced.retarget kept.label e.label).nextId = drawn.nextId :=
    Body.nextId_with_entries hseeded _
  have hspliced := labels_replaced hbody hnodup hahead hgrows hseeded hdistinct hlabels kept.label
    e.label
  refine ⟨⟨front.length, plan, p.entries, (spliced.incoming kept.label).length⟩, p, e.label,
    spliced.retarget kept.label e.label, ?_, rfl, ⟨hbuilds, ⟨acts, behind, hperforms⟩,
      ⟨e, es, hcons, rfl⟩, hfresh, ?_, ?_, ?_, ?_, hgrows.locals_le⟩⟩
  · simp only [spliceAt, hat, bind, Except.bind, hcontainer, liftMachine_ok, hfinish,
      hfirst, Body.splice?_of_entries_eq hentries]
    rfl
  · simp [spliced, Body.retarget, funext (Entry.retarget_eq_rename kept.label e.label)]
  · exact hspliced.1
  · exact hspliced.2
  · rw [hid]
    exact hgrows.nextId_le

end Splicer

/-! ## §3. A whole body. -/

/-- What an entry has become in a woven body: itself, or its container. -/
structure Part.Stands (s : Splicer) (method : MethodRef) (plan : SitePlan) (depth? : Option Nat)
    (f : Label → Label) (bound : Nat) (e : Entry) (p : Part) : Prop where
  bare : plan.isEmpty = true → p = .bare (e.rename f)
  builds : plan.isEmpty = false → s.Builds plan bound (e.rename f) p
  performs : ∀ depth, depth? = some depth → ∃ acts behind,
    p.Performs (s.plannedActs method.owner plan e.label) e.label e.instruction depth acts behind
  starts : ∃ x es, p.entries = x :: es ∧ x.label = f e.label

/-- What entries, counted from an index on, have become in a woven body. -/
inductive Laid (s : Splicer) (method : MethodRef) (depths : Depths) (plans : SitePlans)
    (f : Label → Label) (bound : Nat) : Nat → List Entry → List Part → Prop where
  | nil (index : Nat) : Laid s method depths plans f bound index [] []
  | cons {index : Nat} {e : Entry} {p : Part} {entries : List Entry} {parts : List Part}
      (stands : p.Stands s method (plans.at index) (depths.at? index) f bound e)
      (rest : Laid s method depths plans f bound (index + 1) entries parts) :
      Laid s method depths plans f bound index (e :: entries) (p :: parts)

/-- The patches planned for an instruction can be called there. -/
structure Splicer.Workable (s : Splicer) (method : MethodRef) (locals : List FieldType)
    (depth? : Option Nat) (i : Instruction) (plan : SitePlan) : Prop where
  plannable : s.Plannable method locals i plan
  covered : ∃ depth, depth? = some depth ∧ i.effect.pop ≤ depth

section

variable {s : Splicer} {method : MethodRef} {depths : Depths} {plans : SitePlans}
  {f : Label → Label} {bound index : Nat} {entries : List Entry} {parts : List Part}

theorem Laid.length_eq (h : Laid s method depths plans f bound index entries parts) :
    parts.length = entries.length := by
  induction h with
  | nil => rfl
  | cons _ _ ih => simp [ih]

/-- Parts stand in the order of the entries. -/
theorem Laid.stands (h : Laid s method depths plans f bound index entries parts) {k : Nat}
    {e : Entry} (he : entries[k]? = some e) : ∃ p, parts[k]? = some p
      ∧ p.Stands s method (plans.at (index + k)) (depths.at? (index + k)) f bound e := by
  induction h generalizing k with
  | nil => simp at he
  | @cons index e' p _ _ stands _ ih =>
    cases k with
    | zero =>
      obtain rfl : e' = e := by simpa using he
      exact ⟨p, rfl, stands⟩
    | succ k =>
      obtain ⟨p', hp', hstands⟩ := ih (k := k) (by simpa using he)
      rw [show index + 1 + k = index + (k + 1) by omega] at hstands
      exact ⟨p', by simpa using hp', hstands⟩

/-- An entry for which nothing is planned stays alone. -/
theorem Part.stands_bare {plan : SitePlan} {depth? : Option Nat} {e : Entry}
    (hplan : plan.isEmpty = true) (hf : f e.label = e.label) :
    (Part.bare (e.rename f)).Stands s method plan depth? f bound e where
  bare _ := rfl
  builds h := by rw [hplan] at h; contradiction
  performs depth _ := by
    have hnothing : plan = {} := by
      have := (plan.isEmpty_iff_patches_eq_nil).mp hplan
      obtain ⟨before, replace, after⟩ := plan
      cases replace <;> simp_all [SitePlan.patches]
    refine ⟨[], [], ⟨[], [], .nil, .nil _⟩, ⟨[], [], .nil, ?_⟩, fun st => ⟨[], [], .nil, .nil st⟩,
      ?_, by simp [bare]⟩
    · simpa using Track.nil _
    · simp [hnothing, Splicer.plannedActs, keptActs, bare]
  starts := ⟨e.rename f, [], by simp [bare, entries, front, back], hf.symm⟩

/-- Sending jumps elsewhere afterwards leaves a container in place. -/
theorem Splicer.Places.stands {plan : SitePlan} {depth : Nat} {body body' : Body}
    {front rest : List Entry} {e : Entry} {g : Label → Label} {p : Part} {first : Label}
    (h : s.Places method.owner plan depth body front (e.rename g) rest p first body')
    (hplan : plan.isEmpty = false) (hbound : bound ≤ body.nextId) (hfirst : f e.label = first)
    (hg : g e.label = e.label) (hf : ∀ l : Label, body.nextId ≤ l.id → f l = l) :
    (p.rename f).Stands s method plan (some depth) (f ∘ g) bound e
      ∧ (p.rename f).entries = p.entries.map (Entry.rename f) := by
  -- a part has new labels, and those are not sent anywhere
  obtain ⟨acts, behind, hperforms⟩ := h.performs
  have hentries := hperforms.entries_rename fun x hx => hf x.label (h.builds.fresh x hx)
  refine ⟨⟨fun hnone => ?_, fun _ => ⟨?_, ?_, ?_, ?_, fun x hx => ?_⟩, fun depth' hdepth => ?_, ?_⟩,
    hentries⟩
  · rw [hplan] at hnone
    contradiction
  · exact h.builds.opening_eq
  · exact h.builds.closing_eq
  · exact h.builds.injected
  · have hkept := h.builds.kept_eq
    cases hreplace : plan.replace.isSome <;> simp_all [Part.rename, Entry.rename_rename]
  · exact Nat.le_trans hbound (h.builds.fresh x hx)
  · obtain rfl : depth = depth' := Option.some_inj.mp hdepth
    exact ⟨acts, behind, (hperforms.rename f).of_rename⟩
  · obtain ⟨x, es, hcons, hlabel⟩ := h.first_eq
    refine ⟨x.rename f, es.map (Entry.rename f), ?_, ?_⟩
    · rw [hentries, hcons]
      rfl
    · rw [Entry.rename_label, hlabel, Function.comp_apply, hg, hfirst]

end

/-! ## §4. The loop. -/

/-- Between two steps of the loop: parts are in front, and the entries ahead are those of the body
as it was, with jumps sent elsewhere by the steps so far. -/
structure Between (bound : Nat) (locals : List FieldType) (front entries : List Entry)
    (g : Label → Label) (body : Body) : Prop where
  entries_eq : body.entries = front ++ entries.map (Entry.rename g)
  nodup : body.labelList.Nodup
  ahead : body.Ahead
  bound_le : bound ≤ body.nextId
  locals_le : locals <+: body.locals
  fixed : ∀ e ∈ entries, g e.label = e.label

/-- What the loop comes to from there: the entries ahead are laid out, and the steps to come have
sent jumps elsewhere everywhere. -/
def LaysOut (s : Splicer) (method : MethodRef) (depths : Depths) (plans : SitePlans)
    (bound index : Nat) (front entries : List Entry) (g : Label → Label) (woven : Body) : Prop :=
  ∃ f parts, woven.entries = front.map (Entry.rename f) ++ parts.flatMap Part.entries
    ∧ woven.labelList.Nodup ∧ (∀ l, (∀ e ∈ entries, e.label ≠ l) → f l = l)
    ∧ Laid s method depths plans (f ∘ g) bound index entries parts

section

variable {s : Splicer} {method : MethodRef} {depths : Depths} {plans : SitePlans}
  {bound index : Nat} {locals : List FieldType} {front rest : List Entry} {e : Entry}
  {g : Label → Label} {body woven : Body}

namespace Between

/-- No label of the entries ahead is that of the entry at hand. -/
theorem label_ne (h : Between bound locals front (e :: rest) g body) :
    ∀ e' ∈ rest, e'.label ≠ e.label := by
  intro e' he'
  have hnodup := h.nodup
  unfold Body.labelList at hnodup
  rw [h.entries_eq, List.map_cons] at hnodup
  exact label_ne_of_nodup hnodup (e'.rename g) (List.mem_append_right _ (List.mem_map_of_mem he'))

/-- No label of the entries ahead is one that is still to be drawn. -/
theorem ne_of_nextId_le (h : Between bound locals front (e :: rest) g body) {l : Label}
    (hl : body.nextId ≤ l.id) : ∀ e' ∈ e :: rest, e'.label ≠ l := by
  rintro e' he' rfl
  have hmem : e'.rename g ∈ body.entries := by
    rw [h.entries_eq]
    exact List.mem_append_right _ (List.mem_map_of_mem he')
  have hbelow := h.ahead (e'.rename g) hmem
  rw [Entry.rename_label] at hbelow
  omega

/-- An entry without a plan is passed over. -/
theorem keep (h : Between bound locals front (e :: rest) g body) :
    Between bound locals (front ++ [e.rename g]) rest g body where
  entries_eq := by
    rw [h.entries_eq, List.append_assoc]
    rfl
  nodup := h.nodup
  ahead := h.ahead
  bound_le := h.bound_le
  locals_le := h.locals_le
  fixed e' he' := h.fixed e' (List.mem_cons_of_mem _ he')

/-- **A step of the loop**: an entry gives way to its container. -/
theorem exists_step (h : Between bound locals front (e :: rest) g body) {plan : SitePlan}
    {depth : Nat} (hplan : s.Plannable method locals e.instruction plan)
    (hdepth : e.instruction.effect.pop ≤ depth) :
    ∃ step p first body', s.spliceAt method front.length depth plan body = .ok (step, body')
      ∧ step.entries = p.entries
      ∧ s.Places method.owner plan depth body front (e.rename g) (rest.map (Entry.rename g)) p first
          body'
      ∧ Between bound locals ((front ++ p.entries).map (Entry.rename (e.label.sentTo first))) rest
          (e.label.sentTo first ∘ g) body' := by
  obtain ⟨step, p, first, body', hsplice, hstep, hplaces⟩ := Splicer.spliceAt_of_plannable
    h.entries_eq h.nodup h.ahead ((hplan.mono h.locals_le).rename g) (by simpa using hdepth)
  refine ⟨step, p, first, body', hsplice, hstep, hplaces, ?_, hplaces.nodup, hplaces.ahead,
    Nat.le_trans h.bound_le hplaces.nextId_le, h.locals_le.trans hplaces.locals_le,
    fun e' he' => ?_⟩
  · rw [hplaces.entries_eq]
    simp [Entry.rename_rename, Function.comp_def]
  · rw [Function.comp_apply, h.fixed e' (List.mem_cons_of_mem _ he')]
    exact Label.sentTo_of_ne (h.label_ne e' he') first

end Between

namespace LaysOut

/-- Behind the last entry. -/
theorem nil (h : Between bound locals front [] g body) :
    LaysOut s method depths plans bound index front [] g body := by
  have hid : ∀ e ∈ front, e.rename id = id e := fun e _ => Entry.rename_eq_self fun _ _ => rfl
  refine ⟨id, [], ?_, h.nodup, fun _ _ => rfl, .nil index⟩
  rw [List.map_congr_left hid, h.entries_eq]
  simp

/-- An entry without a plan stays alone. -/
theorem keep (hbetween : Between bound locals front (e :: rest) g body)
    (hplan : (plans.at index).isEmpty = true)
    (h : LaysOut s method depths plans bound (index + 1) (front ++ [e.rename g]) rest g woven) :
    LaysOut s method depths plans bound index front (e :: rest) g woven := by
  obtain ⟨f, parts, hwoven, hnodup, hf, hlaid⟩ := h
  -- neither the steps so far nor those to come send jumps to this entry elsewhere
  have hfe : f (g e.label) = e.label := by
    rw [hbetween.fixed e List.mem_cons_self]
    exact hf e.label hbetween.label_ne
  refine ⟨f, .bare (e.rename (f ∘ g)) :: parts, ?_, hnodup, fun l hl => ?_,
    .cons (Part.stands_bare hplan hfe) hlaid⟩
  · rw [hwoven]
    simp [Part.bare, Part.entries, Part.front, Part.back, Entry.rename_rename]
  · exact hf l fun e' he' => hl e' (List.mem_cons_of_mem _ he')

/-- An entry with a plan is laid out as its container. -/
theorem put (hbetween : Between bound locals front (e :: rest) g body)
    (hplan : (plans.at index).isEmpty = false) {depth : Nat}
    (hdepth : depths.at? index = some depth) {p : Part} {first : Label} {body' : Body}
    (hplaces : s.Places method.owner (plans.at index) depth body front (e.rename g)
      (rest.map (Entry.rename g)) p first body')
    (h : LaysOut s method depths plans bound (index + 1)
      ((front ++ p.entries).map (Entry.rename (e.label.sentTo first))) rest
      (e.label.sentTo first ∘ g) woven) :
    LaysOut s method depths plans bound index front (e :: rest) g woven := by
  obtain ⟨f, parts, hwoven, hnodup, hf, hlaid⟩ := h
  -- this step sends jumps to one label elsewhere, which is that of an entry ahead
  have hfixed : ∀ l, (∀ e' ∈ e :: rest, e'.label ≠ l) → (f ∘ e.label.sentTo first) l = l := by
    intro l hl
    rw [Function.comp_apply, Label.sentTo_of_ne (hl e List.mem_cons_self).symm first]
    exact hf l fun e' he' => hl e' (List.mem_cons_of_mem _ he')
  -- no later step sends jumps to the container elsewhere
  have hfirst : (f ∘ e.label.sentTo first) e.label = first := by
    rw [Function.comp_apply, Label.sentTo_self]
    exact hf first fun e' he' =>
      hbetween.ne_of_nextId_le hplaces.first_fresh e' (List.mem_cons_of_mem _ he')
  obtain ⟨hstands, hentries⟩ := hplaces.stands hplan hbetween.bound_le hfirst
    (hbetween.fixed e List.mem_cons_self) fun l hl => hfixed l (hbetween.ne_of_nextId_le hl)
  rw [← hdepth] at hstands
  refine ⟨f ∘ e.label.sentTo first, p.rename (f ∘ e.label.sentTo first) :: parts, ?_, hnodup,
    hfixed, .cons hstands hlaid⟩
  rw [hwoven, List.flatMap_cons, hentries]
  simp [Entry.rename_rename, Function.comp_def]

end LaysOut

/-- **The loop lays out all parts.** -/
theorem spliceFrom_of_between {entries : List Entry}
    (h : Between bound locals front entries g body)
    (hplan : ∀ k e, entries[k]? = some e → (plans.at (index + k)).isEmpty = false →
      s.Workable method locals (depths.at? (index + k)) e.instruction (plans.at (index + k))) :
    ∃ woven,
      (s.spliceFrom method depths plans entries.length index front.length body).outcome = .ok woven
      ∧ LaysOut s method depths plans bound index front entries g woven := by
  induction entries generalizing index front g body with
  | nil => exact ⟨body, rfl, .nil h⟩
  | cons e rest ih =>
    -- what is assumed of the entries ahead, counted from the next one on
    have hplan' : ∀ k e', rest[k]? = some e' → (plans.at (index + 1 + k)).isEmpty = false →
        s.Workable method locals (depths.at? (index + 1 + k)) e'.instruction
          (plans.at (index + 1 + k)) := by
      intro k e' he'
      rw [show index + 1 + k = index + (k + 1) by omega]
      exact hplan (k + 1) e' (by simpa using he')
    cases hempty : (plans.at index).isEmpty with
    | true =>
      obtain ⟨woven, hrun, hlaid⟩ := ih h.keep hplan'
      refine ⟨woven, ?_, .keep h hempty hlaid⟩
      simp only [List.length_cons, Splicer.spliceFrom, hempty, if_true]
      simpa using hrun
    | false =>
      obtain ⟨hplannable, depth, hdepth, hcovered⟩ := hplan 0 e rfl hempty
      rw [Nat.add_zero] at hplannable hdepth
      obtain ⟨step, p, first, body', hsplice, hstep, hplaces, hbetween⟩ :=
        h.exists_step hplannable hcovered
      obtain ⟨woven, hrun, hlaid⟩ := ih hbetween hplan'
      refine ⟨woven, ?_, .put h hempty hdepth hplaces hlaid⟩
      rw [List.length_map, List.length_append] at hrun
      simp only [List.length_cons, Splicer.spliceFrom, hempty, hdepth, Option.getD_some, hsplice]
      simpa [SpliceRun.precededBy, hstep] using hrun

end

end PatchWeaver

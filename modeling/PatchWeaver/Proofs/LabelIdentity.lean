/-
  PatchWeaver.Proofs.LabelIdentity
  ────────────────────────────────
  **A LABEL STAYS WITH ITS INSTRUCTION.**

  A jump names a label, so a label that came to stand at another instruction
  would send the jump astray without a word.  Two facts about every body of
  a program exclude it, and each run passes them on to all bodies that it
  leaves behind, those of copies included:

      distinct    no label occurs twice
      ahead       the supply comes after every label of the body

  A supply is started when a body first needs a label, past all labels that
  there are then, and it is kept with the body from then on.  A copy takes
  labels and supply over together.  So the entries that a run writes into a
  body carry labels that no entry of the body had before, and an old label
  that is still there is that of its old instruction.

  Main results:
    * `Program.LabelsApart.weave` — one run.
    * `labels_stay_with_instructions` — all runs.
-/
import Mathlib.Data.List.Nodup
import PatchWeaver.Proofs.Growth

namespace PatchWeaver

/-! ## §1. Labels of one body. -/

/-- Labels are distinct, and the supply comes after them. -/
structure Body.LabelsApart (b : Body) : Prop where
  distinct : b.labelList.Nodup
  ahead : b.Ahead

/-- An entry of one body has the label of an entry of another one only if it is that entry, up to
where its jump leads. -/
def Body.KeepsLabels (b c : Body) : Prop :=
  ∀ e ∈ b.entries, ∀ e' ∈ c.entries, e'.label = e.label → ∃ f, e' = e.rename f

namespace Body

variable {b c : Body}

/-- **A supply yields labels after those of the body only.** -/
theorem Ahead.lt_of_mem_drawMany (h : b.Ahead) {source : LabelSource}
    (hsource : b.labels = some source) {count : Nat} {l : Label}
    (hl : l ∈ (source.drawMany count).1) : ∀ e ∈ b.entries, e.label.id < l.id := by
  intro e he
  have hnext : b.nextId = source.next.id := by simp [nextId, labelSource, hsource]
  have hlt := h e he
  have hle := LabelSource.le_of_mem_drawMany hl
  omega

theorem LabelsApart.keepsLabels_self (h : b.LabelsApart) : b.KeepsLabels b := by
  intro e he e' he' heq
  have hself : e' = e := List.inj_on_of_nodup_map h.distinct he' he heq
  exact ⟨id, by rw [hself, Entry.rename_id]⟩

end Body

/-- **What is put into a body takes no label away from an entry.** -/
theorem Splicer.Turns.keepsLabels {s : Splicer} {b c : Body} (h : s.Turns b c)
    (hb : b.LabelsApart) : b.KeepsLabels c := by
  intro e he e' he' heq
  rcases h.entries.exists_of_mem he' with hwritten | ⟨e₀, he₀, f, rfl⟩
  · -- the label of an entry that was written was drawn, so it is none of the old ones
    have hlt := hb.ahead e he
    have hle := hwritten.drawn.1
    rw [heq] at hle
    omega
  · obtain rfl : e₀ = e := List.inj_on_of_nodup_map hb.distinct he₀ he heq
    exact ⟨f, rfl⟩

/-- **A copy has the labels and the supply of the method that it was made of.** -/
theorem labelsApart_of_redirectBody {program : Program} {mixin : MixinInfo} {owner : ClassName}
    {body copy : Body} (h : redirectBody program mixin owner body = .ok copy)
    (hbody : body.LabelsApart) : copy.LabelsApart := by
  obtain ⟨hentries, -, hsupply⟩ := forall₂_of_redirectBody h
  have hlist : copy.labelList = body.labelList := by
    have hlabels : List.Forall₂ (· = ·) copy.labelList body.labelList := by
      unfold Body.labelList
      rw [List.forall₂_map_left_iff, List.forall₂_map_right_iff]
      exact hentries.flip.imp fun _ _ he => he.label_eq
    rwa [List.forall₂_eq_eq_eq] at hlabels
  have hnext : copy.nextId = body.nextId := by
    unfold Body.nextId Body.labelSource
    rw [hsupply]
    exact congrArg (fun labels => (body.labels.getD (LabelSource.after labels)).next.id) hlist
  refine ⟨by rw [hlist]; exact hbody.distinct, fun e he => ?_⟩
  obtain ⟨e₀, he₀, hredirects⟩ := exists_of_forall₂ hentries.flip he
  rw [hnext, hredirects.label_eq]
  exact hbody.ahead e₀ he₀

/-! ## §2. Labels of programs. -/

/-- The labels of every body are apart, whether its method is the first of its reference or not. -/
def Program.LabelsApart (p : Program) : Prop := ∀ x ∈ p.bodies, x.2.LabelsApart

/-- **A run passes on that labels are apart**, and lets every label stay with its instruction. -/
theorem Program.LabelsApart.weave {w : Weaver} {program : Program} (h : program.LabelsApart)
    (hruns : HasRun w program) (mixins : List Mixin) :
    (w.weave program mixins).program.LabelsApart
      ∧ ∃ new, program.Grows Body.KeepsLabels new (w.weave program mixins).program := by
  cases houtcome : (w.weave program mixins).outcome with
  | error e =>
    -- every entry stands where it stood, which for its label is the only place
    rw [program_of_weave_error houtcome]
    refine ⟨h, _, (Program.Grows.refl (R := fun b c => b = c) (fun _ => rfl) program).mono ?_⟩
    rintro m b c hb rfl
    exact (h _ hb).keepsLabels_self
  | ok report =>
    obtain ⟨t, hcopies, -, hgrows⟩ := grows_of_weave hruns houtcome
    refine ⟨fun x hx => ?_, _, hgrows.mono fun m b c hb hturns => hturns.keepsLabels (h _ hb)⟩
    obtain ⟨m, c⟩ := x
    rcases hgrows.exists_of_mem_bodies hx with ⟨b, hb, hturns⟩ | ⟨d, hd, hbody⟩
    · -- the body of a method that there was
      have hb := h _ hb
      obtain ⟨hdistinct, hahead⟩ := hturns.labels hb.distinct hb.ahead
      exact ⟨hdistinct, hahead⟩
    · -- the body of a copy
      obtain ⟨copy, hcopy, -, -, hcbody⟩ := exists_copy_of_declarationsOn hd
      obtain rfl : c = copy.body := Option.some_inj.mp (hbody.symm.trans hcbody)
      obtain ⟨p, -, hgets⟩ := hcopies.exists_place hcopy
      obtain ⟨source, hsource, hredirect⟩ := hgets.body_eq
      exact labelsApart_of_redirectBody hredirect (h _ (Program.mem_bodies hsource))

/-! ## §3. All runs. -/

/-- Runs of weavers, one after the other, have led from a program to another one. A weaver goes on,
or a new one takes its place, with any settings. -/
inductive WovenFrom (start : Program) : Weaver → Program → Prop where
  | new (settings : Settings) : WovenFrom start (.new settings) start
  | weave {w : Weaver} {program : Program} (before : WovenFrom start w program)
      (mixins : List Mixin) :
      WovenFrom start (w.weave program mixins).weaver (w.weave program mixins).program
  | renew {w : Weaver} {program : Program} (before : WovenFrom start w program)
      (settings : Settings) : WovenFrom start (.new settings) program

/-- Whatever a weaver has woven into before, it keeps depths of the program at hand. -/
theorem WovenFrom.hasRun {start : Program} {w : Weaver} {program : Program}
    (h : WovenFrom start w program) : HasRun w program := by
  induction h with
  | new settings => exact .new settings start
  | weave _ mixins ih => exact .weave ih mixins
  | @renew _ program _ settings _ => exact .new settings program

theorem WovenFrom.labelsApart {start : Program} {w : Weaver} {program : Program}
    (h : WovenFrom start w program) (hstart : start.LabelsApart) : program.LabelsApart := by
  induction h with
  | new _ => exact hstart
  | weave before mixins ih => exact (ih.weave before.hasRun mixins).1
  | renew _ _ ih => exact ih

/-- **A label stays with its instruction.**  From a program whose bodies have distinct labels and
supplies that have not been started, runs that succeed or fail, on any declarations and by any
weavers, lead to programs of this kind only: in every body, labels are distinct, and a supply that
has been started yields labels after all of them.  And whatever the next run is, every class keeps
its declarations in place, and an old label that is carried in a body afterwards is carried by the
entry that carried it before, up to where its jump leads. -/
theorem labels_stay_with_instructions {start : Program}
    (hstart : ∀ x ∈ start.bodies, x.2.labelList.Nodup ∧ x.2.labels = none) {w : Weaver}
    {program : Program} (h : WovenFrom start w program) :
    (∀ x ∈ program.bodies, x.2.labelList.Nodup
        ∧ ∀ source, x.2.labels = some source → ∀ count, ∀ l ∈ (source.drawMany count).1,
          ∀ e ∈ x.2.entries, e.label.id < l.id)
      ∧ ∀ mixins, ∃ new, program.Grows Body.KeepsLabels new (w.weave program mixins).program := by
  have hapart : program.LabelsApart := h.labelsApart fun x hx =>
    ⟨(hstart x hx).1, Body.ahead_of_unseeded (hstart x hx).2⟩
  refine ⟨fun x hx => ⟨(hapart x hx).distinct, fun source hsource count l hl => ?_⟩,
    fun mixins => (hapart.weave h.hasRun mixins).2⟩
  exact (hapart x hx).ahead.lt_of_mem_drawMany hsource hl

/-- Labels after the run that hooks a method on two classes, and after whichever run comes next. -/
theorem labels_stay_with_instructions_pair :
    (∀ x ∈ Pair.program.bodies, x.2.labelList.Nodup ∧ x.2.labels = none)
      ∧ WovenFrom Pair.program Pair.result.weaver Pair.result.program
      ∧ (∀ x ∈ Pair.result.program.bodies, x.2.labelList.Nodup
        ∧ ∀ source, x.2.labels = some source → ∀ count, ∀ l ∈ (source.drawMany count).1,
          ∀ e ∈ x.2.entries, e.label.id < l.id)
      ∧ ∀ mixins, ∃ new, Pair.result.program.Grows Body.KeepsLabels new
          (Pair.result.weaver.weave Pair.result.program mixins).program :=
  have hstart : ∀ x ∈ Pair.program.bodies, x.2.labelList.Nodup ∧ x.2.labels = none := by decide
  have hruns : WovenFrom Pair.program Pair.result.weaver Pair.result.program :=
    .weave (.new {}) Pair.mixins
  ⟨hstart, hruns, labels_stay_with_instructions hstart hruns⟩

end PatchWeaver

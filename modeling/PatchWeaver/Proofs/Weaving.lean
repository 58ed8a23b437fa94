/-
  PatchWeaver.Proofs.Weaving
  ──────────────────────────
  **A BODY AND WHAT IT WAS WOVEN INTO.**

  A weaving lays out the woven body as parts, one for each instruction of
  the body as it was, and it knows a course for every instruction that is
  reached: what a run does in the part of the instruction, and how far it
  has got in front of every entry.

      front   in front of the entries before the kept instruction
      middle  in front of the kept instruction
      resumed behind it
      back    in front of the entries behind the kept instruction
      final   behind the part

  Main results:
    * `Performs.exists_course` — what a part performs makes a course.
    * `Weaving.lastPlace` — a jump to an instruction goes to its part.
    * `Weaving.exists_visit` — an instruction that is reached has a part and
      a course.
-/
import PatchWeaver.Proofs.Plans
import PatchWeaver.Proofs.Positions

namespace PatchWeaver

/-! ## §1. Courses. -/

/-- How a run goes through a part: what it does before the kept instruction and behind it, and how
far it has got in front of every entry. -/
structure Course where
  /-- Number of values on the stack in front of the part. -/
  depth : Nat
  acts : List Act
  behind : List Act
  front : List Progress
  back : List Progress

/-- How far a run has got in front of the kept instruction. -/
def Course.middle (c : Course) (p : Part) (i : Instruction) : Progress :=
  ⟨c.acts, if p.kept.isSome then c.depth else i.depthAfter c.depth⟩

/-- How far a run has got behind the kept instruction. -/
def Course.resumed (c : Course) (p : Part) (e : Entry) : Progress :=
  ⟨c.acts ++ p.keptActs e.label, e.instruction.depthAfter c.depth⟩

/-- How far a run has got behind the part. -/
def Course.final (c : Course) (p : Part) (e : Entry) : Progress :=
  ⟨c.acts ++ p.keptActs e.label ++ c.behind, e.instruction.depthAfter c.depth⟩

/-- How far a run has got in front of every entry of the part. -/
def Course.table (c : Course) (p : Part) (e : Entry) : List Progress :=
  c.front ++ (if p.kept.isSome then [c.middle p e.instruction] else []) ++ c.back

/-- A part is run as a course says. -/
structure Part.Follows (p : Part) (planned : List (Option Act)) (e : Entry) (c : Course) :
    Prop where
  enters : ∃ code, Realizes code p.front
    ∧ Track ⟨[], c.depth⟩ code c.front (some (c.middle p e.instruction))
  leaves : ∃ code, Realizes code p.back ∧ Track (c.resumed p e) code c.back (some (c.final p e))
  closes : p.closing ≠ [] → c.back[p.after.length]? = some (c.final p e)
  planned_eq : (c.final p e).acts.map some = planned
  goesOn : p.kept = none ∨ c.behind ≠ [] → e.instruction.flow = .next

/-- What a part performs makes a course. -/
theorem Part.Performs.exists_course {p : Part} {planned : List (Option Act)} {e : Entry}
    {depth : Nat} {acts behind : List Act}
    (h : p.Performs planned e.label e.instruction depth acts behind) :
    ∃ c : Course, c.depth = depth ∧ p.Follows planned e c := by
  obtain ⟨code, table, hreal, htrack⟩ := h.enters
  obtain ⟨code', table', hreal', htrack'⟩ := h.leaves
  obtain ⟨code'', table'', hreal'', htrack''⟩ := h.closes
    ⟨acts ++ p.keptActs e.label ++ behind, e.instruction.depthAfter depth⟩
  refine ⟨⟨depth, acts, behind, table, table' ++ table''⟩, rfl, ⟨code, hreal, htrack⟩,
    ⟨code' ++ code'', hreal'.append hreal'', htrack'.append rfl htrack''⟩, fun hne => ?_,
    h.planned_eq, h.goesOn⟩
  -- the closing code starts where the code behind the instruction ends
  have hlength : table'.length = p.after.length := by
    rw [htrack'.length_eq, hreal'.length_eq]
  show (table' ++ table'')[p.after.length]? = _
  rw [List.getElem?_append_right (by omega), hlength, Nat.sub_self]
  rcases htrack''.starts with hstart | ⟨rfl, -⟩
  · exact hstart
  · exact absurd (List.length_eq_zero_iff.mp hreal''.length_eq) hne

namespace Part.Follows

variable {p : Part} {planned : List (Option Act)} {e : Entry} {c : Course}

theorem length_front (h : p.Follows planned e c) : c.front.length = p.front.length := by
  obtain ⟨code, hreal, htrack⟩ := h.enters
  rw [htrack.length_eq, hreal.length_eq]

theorem length_back (h : p.Follows planned e c) : c.back.length = p.back.length := by
  obtain ⟨code, hreal, htrack⟩ := h.leaves
  rw [htrack.length_eq, hreal.length_eq]

theorem length_table (h : p.Follows planned e c) : (c.table p e).length = p.entries.length := by
  unfold Course.table Part.entries
  simp only [List.length_append, h.length_front, h.length_back]
  cases hkept : p.kept <;> simp

/-- Behind the kept instruction, the table is that of the rest of the part. -/
theorem getElem?_table_back (h : p.Follows planned e c) (k : Nat) :
    (c.table p e)[(p.front ++ p.kept.toList).length + k]? = c.back[k]? := by
  have hlength : (c.front ++ if p.kept.isSome then [c.middle p e.instruction] else []).length
      = (p.front ++ p.kept.toList).length := by
    rw [List.length_append, List.length_append, h.length_front]
    cases p.kept <;> rfl
  rw [Course.table, List.getElem?_append_right (by omega), hlength, Nat.add_sub_cancel_left]

/-- Behind an instruction that control does not go on from there is nothing planned. -/
theorem final_eq_resumed (h : p.Follows planned e c) (hflow : e.instruction.flow ≠ .next) :
    c.final p e = c.resumed p e := by
  by_cases hbehind : c.behind = []
  · simp [Course.final, Course.resumed, hbehind]
  · exact absurd (h.goesOn (.inr hbehind)) hflow

/-- In front of a replacement there is nothing kept. -/
theorem middle_eq_resumed (hkept : p.kept = none) : c.middle p e.instruction = c.resumed p e := by
  simp [Course.middle, Course.resumed, Part.keptActs, hkept]

end Part.Follows

/-! ## §2. Weavings. -/

/-- How a body has been woven: instructions have given way to parts, jumps have been sent elsewhere
by a renaming of labels, and what is reached follows courses. -/
structure Weaving (s : Splicer) (method : MethodRef) (body : Body) (depths : Depths)
    (plans : SitePlans) (woven : Body) where
  /-- Where jumps to a label go. -/
  sent : Label → Label
  parts : List Part
  course : Nat → Course
  labels_nodup : body.labelList.Nodup
  ahead : body.Ahead
  sound : Frontier.Sound body ⟨depths, []⟩
  /-- Plans are for instructions that are reached. -/
  planned : ∀ i, (plans.at i).isEmpty = false → ∃ depth, depths.at? i = some depth
  entries_eq : woven.entries = parts.flatMap Part.entries
  nodup : woven.labelList.Nodup
  laid : Laid s method depths plans sent body.nextId 0 body.entries parts
  follows : ∀ i e p depth, body.entries[i]? = some e → parts[i]? = some p →
    depths.at? i = some depth → (course i).depth = depth
      ∧ p.Follows (s.plannedActs method.owner (plans.at i) e.label) e (course i)

namespace Part.Stands

variable {s : Splicer} {method : MethodRef} {plan : SitePlan} {depth? : Option Nat}
  {f : Label → Label} {bound : Nat} {body : Body} {e : Entry} {p : Part}

/-- A kept instruction is the one that the part is for. -/
theorem kept_eq (h : p.Stands s method plan depth? f bound e) :
    p.kept = if plan.replace.isSome then none else some (e.rename f) := by
  cases hplan : plan.isEmpty with
  | true =>
    rw [h.bare hplan]
    have hreplace : plan.replace = none := by
      have hnil := (plan.isEmpty_iff_patches_eq_nil).mp hplan
      simp only [SitePlan.patches, List.append_eq_nil_iff] at hnil
      cases hreplace : plan.replace <;> simp_all
    rw [hreplace]
    rfl
  | false => exact (h.builds hplan).kept_eq

/-- Only a container has code besides the instruction. -/
theorem isEmpty_eq_false (h : p.Stands s method plan depth? f bound e) {x : Entry}
    (hx : x ∈ p.front ++ p.back) : plan.isEmpty = false := by
  cases hplan : plan.isEmpty with
  | true =>
    rw [h.bare hplan] at hx
    exact absurd hx List.not_mem_nil
  | false => rfl

/-- The code has labels that were drawn for it. -/
theorem fresh (h : p.Stands s method plan depth? f bound e) {x : Entry}
    (hx : x ∈ p.front ++ p.back) : bound ≤ x.label.id :=
  (h.builds (h.isEmpty_eq_false hx)).fresh x hx

/-- So the body did not have them. -/
theorem not_mem_labelList (h : p.Stands s method plan depth? f body.nextId e) (hahead : body.Ahead)
    {x : Entry} (hx : x ∈ p.front ++ p.back) : x.label ∉ body.labelList := by
  intro hmem
  obtain ⟨y, hy, hlabel⟩ := List.mem_map.mp hmem
  have hfresh := h.fresh hx
  have hbelow := hahead y hy
  rw [hlabel] at hbelow
  omega

end Part.Stands

namespace Weaving

variable {s : Splicer} {method : MethodRef} {body : Body} {depths : Depths} {plans : SitePlans}
  {woven : Body} (w : Weaving s method body depths plans woven)

/-- Where the part of an instruction starts. -/
def entry (i : Nat) : Nat := entryOf w.parts i

theorem length_parts : w.parts.length = body.length := w.laid.length_eq

theorem length_eq : woven.length = w.entry body.length := by
  unfold entry
  rw [← w.length_parts, entryOf_length, ← w.entries_eq]
  rfl

theorem entry_succ {i : Nat} {p : Part} (hp : w.parts[i]? = some p) :
    w.entry (i + 1) = w.entry i + p.entries.length := entryOf_succ hp

/-- Parts stand within the woven body exactly if their instructions stand within the body. -/
theorem lt_length_of_entry_lt {i : Nat} (h : w.entry i < woven.length) : i < body.length := by
  rw [w.length_eq] at h
  refine Nat.lt_of_not_le fun hle => ?_
  have hmono : w.entry body.length ≤ w.entry i := entryOf_mono w.parts hle
  omega

@[simp]
theorem entry_zero : w.entry 0 = 0 := entryOf_zero w.parts

/-- Every instruction has a part. -/
theorem exists_part {i : Nat} {e : Entry} (he : body.entries[i]? = some e) :
    ∃ p, w.parts[i]? = some p
      ∧ p.Stands s method (plans.at i) (depths.at? i) w.sent body.nextId e := by
  have hstands := w.laid.stands he
  rw [Nat.zero_add] at hstands
  exact hstands

theorem stands {i : Nat} {e : Entry} {p : Part} (he : body.entries[i]? = some e)
    (hp : w.parts[i]? = some p) :
    p.Stands s method (plans.at i) (depths.at? i) w.sent body.nextId e := by
  obtain ⟨p', hp', hstands⟩ := w.exists_part he
  obtain rfl : p = p' := Option.some_inj.mp (hp.symm.trans hp')
  exact hstands

theorem getElem?_eq {i k : Nat} {p : Part} (hp : w.parts[i]? = some p) {x : Entry}
    (hx : p.entries[k]? = some x) : woven.entries[w.entry i + k]? = some x := by
  rw [w.entries_eq]
  exact getElem?_entryOf hp hx

/-- Every entry of the woven body stands in the part of an instruction. -/
theorem exists_of_getElem? {q : Nat} {x : Entry} (hx : woven.entries[q]? = some x) :
    ∃ i k e p, body.entries[i]? = some e ∧ w.parts[i]? = some p ∧ p.entries[k]? = some x
      ∧ q = w.entry i + k := by
  have hq : q < (w.parts.flatMap Part.entries).length := by
    rw [← w.entries_eq]
    exact (List.getElem?_eq_some_iff.mp hx).1
  -- there are as many parts as instructions
  obtain ⟨i, p, k, hp, hk, rfl⟩ := exists_position hq
  have hi : i < body.entries.length := by
    have hlt := (List.getElem?_eq_some_iff.mp hp).1
    rw [w.length_parts] at hlt
    exact hlt
  have hk' := w.getElem?_eq hp (List.getElem?_eq_getElem hk)
  obtain rfl : x = p.entries[k] := Option.some_inj.mp (hx.symm.trans hk')
  exact ⟨i, k, _, p, List.getElem?_eq_getElem hi, hp, List.getElem?_eq_getElem hk, rfl⟩

/-- A jump to where the label of an instruction is renamed to goes to the part of the
instruction. -/
theorem lastPlace {i : Nat} {e : Entry} (he : body.entries[i]? = some e) :
    woven.LastPlace (w.sent e.label) (w.entry i) := by
  obtain ⟨p, hp, hstands⟩ := w.exists_part he
  obtain ⟨x, es, hcons, hlabel⟩ := hstands.starts
  have hx : p.entries[0]? = some x := by
    rw [hcons]
    rfl
  rw [← hlabel]
  exact Body.lastPlace_of_nodup w.nodup (w.getElem?_eq hp hx)

/-- Every part has a first entry. -/
theorem exists_entry {i : Nat} (h : i < body.length) :
    ∃ x, woven.entries[w.entry i]? = some x := by
  obtain ⟨p, hp, hstands⟩ := w.exists_part (List.getElem?_eq_getElem h)
  obtain ⟨x, es, hcons, -⟩ := hstands.starts
  have hx : p.entries[0]? = some x := by
    rw [hcons]
    rfl
  exact ⟨x, w.getElem?_eq hp hx⟩

theorem entry_lt_length {i : Nat} (h : i < body.length) : w.entry i < woven.length := by
  obtain ⟨x, hx⟩ := w.exists_entry h
  exact (List.getElem?_eq_some_iff.mp hx).1

/-- Where the part of an instruction has its end marker, if it has one. -/
def exit (i : Nat) : Nat :=
  match w.parts[i]? with
  | some p => w.entry i + ((p.front ++ p.kept.toList).length + p.after.length)
  | none => w.entry i

theorem exit_eq {i : Nat} {p : Part} (hp : w.parts[i]? = some p) :
    w.exit i = w.entry i + ((p.front ++ p.kept.toList).length + p.after.length) := by
  simp [exit, hp]

/-- Markers stand at both ends of a container. -/
theorem exists_markers {i : Nat} {e : Entry} (he : body.entries[i]? = some e)
    (hplan : (plans.at i).isEmpty = false) :
    (∃ x, woven.entries[w.entry i]? = some x ∧ x.origin = .beginMarker)
      ∧ ∃ x, woven.entries[w.exit i]? = some x ∧ x.origin = .endMarker := by
  obtain ⟨p, hp, hstands⟩ := w.exists_part he
  have hbuilds := hstands.builds hplan
  obtain ⟨x, xs, hopening⟩ := List.exists_cons_of_ne_nil hbuilds.opening_ne_nil
  obtain ⟨y, ys, hclosing⟩ := List.exists_cons_of_ne_nil hbuilds.closing_ne_nil
  have hx : p.entries[0]? = some x := by simp [Part.entries, Part.front, hopening]
  have hy : p.entries[(p.front ++ p.kept.toList).length + p.after.length]? = some y := by
    rw [Part.entries, List.getElem?_append_right (Nat.le_add_right _ _), Nat.add_sub_cancel_left,
      Part.back, List.getElem?_append_right (Nat.le_refl _), Nat.sub_self, hclosing]
    rfl
  rw [w.exit_eq hp]
  exact ⟨⟨x, w.getElem?_eq hp hx, (hbuilds.of_mem_opening (by simp [hopening])).1⟩,
    ⟨y, w.getElem?_eq hp hy, (hbuilds.of_mem_closing (by simp [hclosing])).1⟩⟩

/-- An instruction for which nothing is planned stands alone. -/
theorem getElem?_of_isEmpty {i : Nat} {e : Entry} (he : body.entries[i]? = some e)
    (hplan : (plans.at i).isEmpty = true) :
    woven.entries[w.entry i]? = some (e.rename w.sent) := by
  obtain ⟨p, hp, hstands⟩ := w.exists_part he
  have hx : p.entries[0]? = some (e.rename w.sent) := by
    rw [hstands.bare hplan]
    rfl
  exact w.getElem?_eq hp hx

/-! ### Visits. -/

/-- An instruction that is reached, and its part. -/
structure Visit (i : Nat) (e : Entry) (p : Part) : Prop where
  entry_eq : body.entries[i]? = some e
  part_eq : w.parts[i]? = some p
  depth_eq : depths.at? i = some (w.course i).depth

/-- An instruction that is reached has a part and a course. -/
theorem exists_visit {i depth : Nat} (h : depths.at? i = some depth) :
    (w.course i).depth = depth ∧ ∃ e p, w.Visit i e p := by
  have hi : i < body.entries.length := by
    have hlt := Depths.lt_length_of_at? h
    rw [w.sound.length_eq] at hlt
    exact hlt
  have he := List.getElem?_eq_getElem hi
  obtain ⟨p, hp, -⟩ := w.exists_part he
  have hdepth := (w.follows i _ p depth he hp h).1
  refine ⟨hdepth, _, p, he, hp, ?_⟩
  rw [hdepth, h]

namespace Visit

variable {w} {i : Nat} {e : Entry} {p : Part}

theorem stands (h : w.Visit i e p) :
    p.Stands s method (plans.at i) (depths.at? i) w.sent body.nextId e :=
  w.stands h.entry_eq h.part_eq

theorem follows (h : w.Visit i e p) :
    p.Follows (s.plannedActs method.owner (plans.at i) e.label) e (w.course i) :=
  (w.follows i e p _ h.entry_eq h.part_eq h.depth_eq).2

theorem instruction?_eq (h : w.Visit i e p) : body.instruction? i = some e.instruction :=
  Body.instruction?_eq_some_iff.mpr ⟨e, h.entry_eq, rfl⟩

theorem settled (h : w.Visit i e p) : body.Settled depths i (w.course i).depth :=
  w.sound.settled i _ h.depth_eq (by simp)

/-- A kept instruction is the one visited. -/
theorem kept_eq (h : w.Visit i e p) (hkept : p.kept.isSome = true) :
    p.kept = some (e.rename w.sent) := by
  have heq := h.stands.kept_eq
  rw [heq] at hkept ⊢
  split at hkept
  · contradiction
  · next hreplace => rw [if_neg hreplace]

/-- What is not kept has been replaced, so control goes on behind it. -/
theorem falls (h : w.Visit i e p) (hkept : p.kept.isSome = false) :
    e.instruction.fallsThrough = true := by
  have hflow := h.follows.goesOn (.inl (by simpa using hkept))
  simp [Instruction.fallsThrough, hflow]

/-- The code before the kept instruction stands where the part starts. -/
theorem getElem?_front (h : w.Visit i e p) {k : Nat} {x : Entry} (hx : p.front[k]? = some x) :
    woven.entries[w.entry i + k]? = some x := by
  refine w.getElem?_eq h.part_eq ?_
  have hlt := (List.getElem?_eq_some_iff.mp hx).1
  rw [Part.entries, List.append_assoc, List.getElem?_append_left hlt, hx]

/-- The code behind it stands where the rest of the part starts. -/
theorem getElem?_back (h : w.Visit i e p) {k : Nat} {x : Entry} (hx : p.back[k]? = some x) :
    woven.entries[w.entry i + (p.front ++ p.kept.toList).length + k]? = some x := by
  rw [Nat.add_assoc]
  refine w.getElem?_eq h.part_eq ?_
  rw [Part.entries, List.getElem?_append_right (Nat.le_add_right _ _), Nat.add_sub_cancel_left, hx]

theorem carries_front (h : w.Visit i e p) {code : List PendingEntry}
    (hreal : Realizes code p.front) : woven.Carries (w.entry i) code := by
  intro k q hq
  obtain ⟨x, hx, hqx⟩ := hreal.exists_getElem? hq
  exact ⟨x, h.getElem?_front hx, hqx⟩

theorem carries_back (h : w.Visit i e p) {code : List PendingEntry}
    (hreal : Realizes code p.back) :
    woven.Carries (w.entry i + (p.front ++ p.kept.toList).length) code := by
  intro k q hq
  obtain ⟨x, hx, hqx⟩ := hreal.exists_getElem? hq
  exact ⟨x, h.getElem?_back hx, hqx⟩

/-- The kept instruction stands between them. -/
theorem instruction?_kept (h : w.Visit i e p) (hkept : p.kept.isSome = true) :
    woven.entries[w.entry i + p.front.length]? = some (e.rename w.sent) := by
  refine w.getElem?_eq h.part_eq ?_
  simp [Part.entries, h.kept_eq hkept]

end Visit

end Weaving

/-! ## §3. Splicing makes a weaving. -/

/-- What is reached has a course. -/
theorem exists_courses {s : Splicer} {method : MethodRef} {body : Body} {depths : Depths}
    {plans : SitePlans} {f : Label → Label} {parts : List Part}
    (h : Laid s method depths plans f body.nextId 0 body.entries parts) :
    ∃ course : Nat → Course, ∀ i e p depth, body.entries[i]? = some e → parts[i]? = some p →
      depths.at? i = some depth → (course i).depth = depth
        ∧ p.Follows (s.plannedActs method.owner (plans.at i) e.label) e (course i) := by
  -- position by position; what is out of the body or not reached has any course
  have key : ∀ i, ∃ c : Course, ∀ e p depth, body.entries[i]? = some e → parts[i]? = some p →
      depths.at? i = some depth → c.depth = depth
        ∧ p.Follows (s.plannedActs method.owner (plans.at i) e.label) e c := by
    intro i
    cases he : body.entries[i]? with
    | none => exact ⟨⟨0, [], [], [], []⟩, by simp⟩
    | some e =>
      cases hdepth : depths.at? i with
      | none => exact ⟨⟨0, [], [], [], []⟩, by simp⟩
      | some depth =>
        obtain ⟨p, hp, hstands⟩ := h.stands he
        rw [Nat.zero_add] at hstands
        obtain ⟨acts, behind, hperforms⟩ := hstands.performs depth hdepth
        obtain ⟨c, hc, hfollows⟩ := hperforms.exists_course
        refine ⟨c, fun e' p' depth' he' hp' hdepth' => ?_⟩
        obtain rfl := Option.some_inj.mp he'
        obtain rfl := Option.some_inj.mp hdepth'
        obtain rfl := Option.some_inj.mp (hp.symm.trans hp')
        exact ⟨hc, hfollows⟩
  exact Classical.axiomOfChoice key

/-- **Validated patches can be put into a body**, which makes a weaving. -/
theorem exists_weaving {s : Splicer} {method : MethodRef} {body : Body} {depths : Depths}
    {plans : SitePlans} {offsets : Offsets} (hnodup : body.labelList.Nodup) (hahead : body.Ahead)
    (hdepths : body.depths = .ok depths)
    (hplans : (s.registry.resolveMethod method offsets).outcome = .ok plans)
    (hvalid : s.Validated method body depths offsets) :
    ∃ woven, (s.spliceFrom method depths plans body.length 0 0 body).outcome = .ok woven
      ∧ Nonempty (Weaving s method body depths plans woven) := by
  have hid : ∀ e ∈ body.entries, e.rename id = id e := fun e _ =>
    Entry.rename_eq_self fun _ _ => rfl
  -- before the first step nothing is renamed
  have hstart : Between body.nextId body.locals [] body.entries id body := by
    refine ⟨?_, hnodup, hahead, Nat.le_refl _, List.prefix_refl _, fun _ _ => rfl⟩
    rw [List.map_congr_left hid, List.map_id, List.nil_append]
  have hwork : ∀ k e, body.entries[k]? = some e → (plans.at (0 + k)).isEmpty = false →
      s.Workable method body.locals (depths.at? (0 + k)) e.instruction (plans.at (0 + k)) := by
    intro k e he hplan
    rw [Nat.zero_add] at hplan ⊢
    exact hvalid.workable hdepths hplans he hplan
  obtain ⟨woven, hrun, f, parts, hwoven, hnodup', -, hlaid⟩ := spliceFrom_of_between hstart hwork
  obtain ⟨course, hcourse⟩ := exists_courses hlaid
  refine ⟨woven, hrun, ⟨⟨f, parts, course, hnodup, hahead, Body.sound_of_depths hdepths,
    fun i hi => hvalid.exists_depth hplans hi, ?_, hnodup', hlaid, hcourse⟩⟩⟩
  rw [hwoven]
  rfl

/-! ## §4. An example. -/

namespace Sample

theorem legal_mixin : ∀ s ∈ segments "demo/Mixin".toList, Segment s :=
  ClassName.legal_of_no_fault rfl

/-- The mixin that the patches are from. -/
def mixin : ClassName := ⟨"demo/Mixin", legal_mixin⟩

theorem legal_target : ∀ s ∈ segments "demo/Target".toList, Segment s :=
  ClassName.legal_of_no_fault rfl

/-- The class that is patched. -/
def target : ClassName := ⟨"demo/Target", legal_target⟩

theorem segment_run : Segment "run".toList := segmentFault?_eq_none_iff.mp rfl

/-- A static method. -/
def method : MethodRef := ⟨target, ⟨"run", segment_run⟩, ⟨[], none⟩, true⟩

/-- Its body, which is a loop. -/
def body : Body := .ofInstructions [.push (.int 1), .branchIf false ⟨0⟩, .ret]

/-- The stack depths of the body. -/
def depths : Depths := [some 0, some 1, some 0]

/-- A patch that replaces the constant. -/
def limit : MethodRef :=
  ⟨mixin, ⟨"limit", segmentFault?_eq_none_iff.mp rfl⟩, ⟨[.int], some .int⟩, true⟩

/-- A patch that can cancel the method. -/
def hook : MethodRef :=
  ⟨mixin, ⟨"hook", segmentFault?_eq_none_iff.mp rfl⟩, ⟨[.object .callbackInfo], none⟩, true⟩

/-- A patch of a kind, with the method that it applies. -/
def patch (id : PatchId) (body : MethodRef) (kind : InjectorKind) : Patch where
  id := id
  mixin := mixin
  body := body
  injector := { kind := kind }
  priority := 0
  selectors := []
  targets := []

/-- The copy of a method on the target class. -/
def copy (source : MethodRef) : MethodCopy := ⟨source, source.onClass target, .exposed, .empty⟩

/-- Both patches with their copies. -/
def splicer : Splicer where
  debugMarkers := true
  registry := ⟨[], [patch 0 limit (.modifyConstant .dont), patch 1 hook (.inject true .dont)]⟩
  copies := ⟨[copy limit, copy hook]⟩

/-- Both patches go to the constant, and the second one to the return, too. -/
def offsets : Offsets := [(0, [0, 1]), (2, [1])]

/-- What the patches come to: one replaces the constant, the other one runs before. -/
def plans : SitePlans := [(0, ⟨[1], some 0, []⟩), (2, ⟨[1], none, []⟩)]

theorem nodup_body : body.labelList.Nodup := by decide

theorem depths_body : body.depths = .ok depths := by with_unfolding_all rfl

theorem resolveMethod_offsets :
    (splicer.registry.resolveMethod method offsets).outcome = .ok plans := by
  have hboth : splicer.registry.contenders [0, 1]
      = .ok [⟨0, patch 0 limit (.modifyConstant .dont)⟩,
          ⟨1, patch 1 hook (.inject true .dont)⟩] := rfl
  have hone : splicer.registry.contenders [1] = .ok [⟨1, patch 1 hook (.inject true .dont)⟩] := rfl
  have hpush : (splicer.registry.resolveSite method 0 [0, 1]).outcome = .ok ⟨[1], some 0, []⟩ :=
    outcome_resolveSite hboth (by decide) rfl
  have hret : (splicer.registry.resolveSite method 2 [1]).outcome = .ok ⟨[1], none, []⟩ :=
    outcome_resolveSite hone (by decide) rfl
  unfold Registry.resolveMethod
  rw [Traced.outcome_mapM]
  simp only [offsets, List.mapM_cons, List.mapM_nil, Traced.outcome_bind, hpush, hret]
  rfl

theorem fits_limit : splicer.Fits method body 0 0 :=
  ⟨patch 0 limit (.modifyConstant .dont), limit.onClass target, rfl, by decide, rfl, rfl, rfl, rfl⟩

theorem fits_hook (offset : Nat) : splicer.Fits method body offset 1 :=
  ⟨patch 1 hook (.inject true .dont), hook.onClass target, rfl, by decide, rfl, rfl, rfl, rfl⟩

theorem validated : splicer.Validated method body depths offsets := by
  intro offset ids hmem
  simp only [offsets, List.mem_cons, List.not_mem_nil, or_false, Prod.mk.injEq] at hmem
  rcases hmem with ⟨rfl, rfl⟩ | ⟨rfl, rfl⟩
  · refine ⟨rfl, fun id hid => ?_⟩
    simp only [List.mem_cons, List.not_mem_nil, or_false] at hid
    rcases hid with rfl | rfl
    · exact fits_limit
    · exact fits_hook 0
  · refine ⟨rfl, fun id hid => ?_⟩
    obtain rfl := List.mem_singleton.mp hid
    exact fits_hook 2

end Sample

end PatchWeaver

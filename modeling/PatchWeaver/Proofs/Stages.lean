/-
  PatchWeaver.Proofs.Stages
  ─────────────────────────
  **RUNS THROUGH A WOVEN BODY.**

  While an instruction of the body as it was is at work, a run of the woven
  body is in the part of that instruction, and it has got as far as the
  course of the part says (`Stage`).  A step of the woven body either stays
  in the part and goes forwards, or it leaves the part for where that of an
  instruction starts which the instruction at work has a step to:

      stage i at k  ──▶  stage i at k'        k < k'
      stage i at k  ──▶  entry of j           step i j in the body as it was

  and in the second case all that is planned for `i` has been done, and the
  stack is what `i` leaves behind.

  Main results:
    * `Stage.safe` — the woven body does not misuse the stack.
    * `Stage.next` — where a step leads.
    * `Stage.unique` — a place determines the stage.
-/
import PatchWeaver.Proofs.Weaving

namespace PatchWeaver

/-- What running an entry of a woven body does: the entry is an instruction of the body as it was,
or code of a patch. -/
def Body.actsOf (body : Body) (x : Entry) : List Act :=
  if x.label ∈ body.labelList then [.declared x.label] else x.instruction.acts

/-- Behind one more entry. -/
def Progress.past (st : Progress) (body : Body) (x : Entry) : Progress :=
  ⟨st.acts ++ body.actsOf x, x.instruction.depthAfter st.depth⟩

theorem Progress.past_of_not_mem {body : Body} {x : Entry} (h : x.label ∉ body.labelList)
    (st : Progress) : st.past body x = st.after x.instruction := by
  simp [past, Body.actsOf, h, after]

namespace Weaving

variable {s : Splicer} {method : MethodRef} {body : Body} {depths : Depths} {plans : SitePlans}
  {woven : Body} {w : Weaving s method body depths plans woven}

/-! ## §1. Stages. -/

/-- While an instruction is at work, control is at a place of its part, and a run has got so far.
Behind the kept instruction that takes control to go on there. -/
inductive Stage (w : Weaving s method body depths plans woven) (i : Nat) :
    Nat → Progress → Prop where
  | front {e : Entry} {p : Part} {k : Nat} {st : Progress} (visit : w.Visit i e p)
      (at_k : (w.course i).front[k]? = some st) : Stage w i k st
  | kept {e : Entry} {p : Part} (visit : w.Visit i e p) (kept : p.kept.isSome = true) :
      Stage w i p.front.length ((w.course i).middle p e.instruction)
  | back {e : Entry} {p : Part} {k : Nat} {st : Progress} (visit : w.Visit i e p)
      (goes : e.instruction.fallsThrough = true) (at_k : (w.course i).back[k]? = some st) :
      Stage w i ((p.front ++ p.kept.toList).length + k) st

/-- Where a run goes on: further in the part, or behind it. -/
inductive Next (w : Weaving s method body depths plans woven) (i k q : Nat) (st : Progress) :
    Prop where
  | stays {k' : Nat} (later : k < k') (there : q = w.entry i + k') (stage : w.Stage i k' st)
  | leaves {e : Entry} {p : Part} {j : Nat} (visit : w.Visit i e p) (step : body.Step i j)
      (there : q = w.entry j) (done : st = (w.course i).final p e)

namespace Visit

variable {i : Nat} {e : Entry} {p : Part}

/-- The part and the instruction of a visit are those of the position. -/
theorem unique {e' : Entry} {p' : Part} (h : w.Visit i e p) (h' : w.Visit i e' p') :
    e = e' ∧ p = p' :=
  ⟨Option.some_inj.mp (h.entry_eq.symm.trans h'.entry_eq),
    Option.some_inj.mp (h.part_eq.symm.trans h'.part_eq)⟩

/-- A run starts where the part does. -/
theorem starts (h : w.Visit i e p) : w.Stage i 0 ⟨[], (w.course i).depth⟩ := by
  obtain ⟨code, hreal, htrack⟩ := h.follows.enters
  rcases htrack.starts with hstart | ⟨rfl, hout⟩
  · exact .front h hstart
  · -- without a front, there is nothing but the kept instruction
    have hfront : p.front = [] := List.length_eq_zero_iff.mp hreal.length_eq
    have hkept : p.kept.isSome = true := by
      cases hplan : (plans.at i).isEmpty with
      | true =>
        rw [h.stands.bare hplan]
        rfl
      | false =>
        exact absurd (List.append_eq_nil_iff.mp hfront).1 (h.stands.builds hplan).opening_ne_nil
    have hstage := Stage.kept h hkept
    rw [hfront, Option.some_inj.mp hout] at hstage
    exact hstage

/-- Behind the kept instruction, a run goes on in the rest of the part, or behind the part. -/
theorem enters_back (h : w.Visit i e p) (hfalls : e.instruction.fallsThrough = true) {k : Nat}
    (hk : k < (p.front ++ p.kept.toList).length) :
    w.Next i k (w.entry i + (p.front ++ p.kept.toList).length) ((w.course i).resumed p e) := by
  obtain ⟨code, hreal, htrack⟩ := h.follows.leaves
  rcases htrack.starts with hstart | ⟨rfl, hout⟩
  · exact .stays hk rfl (.back h hfalls hstart)
  · -- without a back, the part ends with the kept instruction
    have hback : p.back = [] := List.length_eq_zero_iff.mp hreal.length_eq
    have hnext : w.entry i + (p.front ++ p.kept.toList).length = w.entry (i + 1) := by
      rw [w.entry_succ h.part_eq, Part.entries, hback, List.append_nil]
    exact .leaves h (.next h.instruction?_eq hfalls rfl) hnext (Option.some_inj.mp hout).symm

end Visit

/-! ## §2. The kept instruction. -/

namespace Visit

variable {i q : Nat} {e : Entry} {p : Part}

/-- A jump of the body as it was goes to the part of its target. -/
theorem lastPlace_sent (h : w.Visit i e p) {l : Label} (hl : e.instruction.target? = some l) :
    ∃ j, body.LastPlace l j ∧ woven.LastPlace (w.sent l) (w.entry j) := by
  obtain ⟨j, hj⟩ := h.settled.known e.instruction l h.instruction?_eq hl
  have hplace := hj
  obtain ⟨⟨e', he', rfl⟩, -⟩ := hj
  exact ⟨j, hplace, w.lastPlace he'⟩

/-- The kept instruction does not misuse the stack. -/
theorem safe_kept (h : w.Visit i e p) (hkept : p.kept.isSome = true) :
    woven.Safe ((w.course i).middle p e.instruction) (e.rename w.sent) := by
  have hdepth : ((w.course i).middle p e.instruction).depth = (w.course i).depth := by
    simp [Course.middle, hkept]
  -- a renaming changes neither what an instruction takes nor whether it is a return
  constructor
  · rw [hdepth, Entry.rename_instruction, Instruction.effect_rename]
    exact h.settled.covered e.instruction h.instruction?_eq
  · intro hret
    have hret' : e.instruction = .ret :=
      (Instruction.rename_eq_iff_of_target?_eq_none rfl).mp hret
    rw [hdepth]
    exact h.settled.returns (hret' ▸ h.instruction?_eq)
  · intro l hl
    rw [Entry.rename_instruction, Instruction.target?_rename] at hl
    obtain ⟨target, htarget, rfl⟩ := Option.map_eq_some_iff.mp hl
    obtain ⟨j, -, hplace⟩ := h.lastPlace_sent htarget
    exact ⟨w.entry j, hplace⟩

/-- Behind an entry of a patch. -/
theorem past_code (h : w.Visit i e p) {x : Entry} (hx : x ∈ p.front ++ p.back)
    {pending : PendingEntry} (hreal : pending.RealizedBy x) (st : Progress) :
    st.past body x = st.after pending.instruction := by
  rw [Progress.past_of_not_mem (h.stands.not_mem_labelList w.ahead hx), hreal.instruction]

/-- Behind the kept instruction. -/
theorem past_kept (h : w.Visit i e p) (hkept : p.kept.isSome = true) :
    ((w.course i).middle p e.instruction).past body (e.rename w.sent)
      = (w.course i).resumed p e := by
  have hmem : e.label ∈ body.labelList :=
    List.mem_map_of_mem (List.mem_of_getElem? h.entry_eq)
  simp [Progress.past, Body.actsOf, hmem, Course.middle, Course.resumed, hkept, Part.keptActs]

/-- **The kept instruction goes where it went**, or on behind it. -/
theorem next_kept (h : w.Visit i e p) (hkept : p.kept.isSome = true)
    (hstep : woven.Step (w.entry i + p.front.length) q) :
    w.Next i p.front.length q ((w.course i).resumed p e) := by
  have hins : woven.instruction? (w.entry i + p.front.length)
      = some (e.instruction.rename w.sent) :=
    Body.instruction?_eq_some_iff.mpr ⟨_, h.instruction?_kept hkept, rfl⟩
  cases hstep with
  | @next ins at_i falls behind =>
    obtain rfl : e.instruction.rename w.sent = ins := Option.some_inj.mp (hins.symm.trans at_i)
    have hlength : (p.front ++ p.kept.toList).length = p.front.length + 1 := by
      simp [h.kept_eq hkept]
    rw [Instruction.fallsThrough_rename] at falls
    rw [Nat.add_assoc, ← hlength] at behind
    rw [behind]
    exact h.enters_back falls (by omega)
  | @jump ins l at_i target lands =>
    obtain rfl : e.instruction.rename w.sent = ins := Option.some_inj.mp (hins.symm.trans at_i)
    -- the target was renamed with the instruction; it is that of a jump of the body as it was
    rw [Instruction.target?_rename] at target
    obtain ⟨l, hl, rfl⟩ := Option.map_eq_some_iff.mp target
    obtain ⟨j, hj, hplace⟩ := h.lastPlace_sent hl
    -- nothing is planned behind a jump, so all has been done
    exact .leaves h (.jump h.instruction?_eq hl hj) (lands.unique hplace)
      (h.follows.final_eq_resumed (Instruction.flow_ne_of_target? hl)).symm

end Visit

/-! ## §3. One step. -/

namespace Stage

variable {i k q : Nat} {st st' : Progress}

/-- A stage is one of the course. -/
theorem exists_table (h : w.Stage i k st) :
    ∃ e p, w.Visit i e p ∧ ((w.course i).table p e)[k]? = some st := by
  cases h with
  | @front e p _ _ visit at_k =>
    refine ⟨e, p, visit, ?_⟩
    have hlt := (List.getElem?_eq_some_iff.mp at_k).1
    rw [Course.table, List.append_assoc, List.getElem?_append_left hlt]
    exact at_k
  | @kept e p visit kept =>
    refine ⟨e, p, visit, ?_⟩
    rw [← visit.follows.length_front]
    simp [Course.table, kept]
  | @back e p j _ visit _ at_k =>
    refine ⟨e, p, visit, ?_⟩
    rw [visit.follows.getElem?_table_back]
    exact at_k

/-- At every stage there is an entry. -/
theorem exists_entry (h : w.Stage i k st) :
    ∃ e p x, w.Visit i e p ∧ p.entries[k]? = some x ∧ woven.entries[w.entry i + k]? = some x := by
  obtain ⟨e, p, visit, htable⟩ := h.exists_table
  have hlt := (List.getElem?_eq_some_iff.mp htable).1
  rw [visit.follows.length_table] at hlt
  have hx := List.getElem?_eq_getElem hlt
  exact ⟨e, p, _, visit, hx, w.getElem?_eq visit.part_eq hx⟩

/-- **A place of a part determines how far a run has got there.** -/
theorem unique (h : w.Stage i k st) (h' : w.Stage i k st') : st = st' := by
  obtain ⟨e, p, visit, htable⟩ := h.exists_table
  obtain ⟨e', p', visit', htable'⟩ := h'.exists_table
  obtain ⟨rfl, rfl⟩ := visit.unique visit'
  exact Option.some_inj.mp (htable.symm.trans htable')

/-- An entry belongs to one instruction, at one place of its part. -/
theorem place_unique {j k' : Nat} (h : w.Stage i k st) (h' : w.Stage j k' st')
    (heq : w.entry i + k = w.entry j + k') : i = j ∧ k = k' := by
  obtain ⟨e, p, x, visit, hx, -⟩ := h.exists_entry
  obtain ⟨e', p', x', visit', hx', -⟩ := h'.exists_entry
  exact position_unique visit.part_eq visit'.part_eq (List.getElem?_eq_some_iff.mp hx).1
    (List.getElem?_eq_some_iff.mp hx').1 heq

/-- Where a part starts, a stage is the first one of it. -/
theorem eq_of_entry_eq {j : Nat} (h : w.Stage i k st) (hj : j < body.length)
    (heq : w.entry j = w.entry i + k) : j = i ∧ k = 0 := by
  obtain ⟨e, p, x, visit, hx, -⟩ := h.exists_entry
  obtain ⟨p', hp', hstands⟩ := w.exists_part (List.getElem?_eq_getElem hj)
  -- no part is empty, so each place is the start of one part at most
  obtain ⟨y, es, hcons, -⟩ := hstands.starts
  have hpos : 0 < p'.entries.length := by simp [hcons]
  obtain ⟨rfl, hk⟩ := position_unique hp' visit.part_eq hpos (List.getElem?_eq_some_iff.mp hx).1 heq
  exact ⟨rfl, hk.symm⟩

/-- **A run of the woven body does not misuse the stack**, and its jumps lead somewhere. -/
theorem safe (h : w.Stage i k st) {x : Entry} (hx : woven.entries[w.entry i + k]? = some x) :
    woven.Safe st x := by
  cases h with
  | @front e p _ _ visit at_k =>
    obtain ⟨code, hreal, htrack⟩ := visit.follows.enters
    exact (htrack.safe w.nodup (visit.carries_front hreal) at_k hx).1
  | @kept e p visit kept =>
    obtain rfl : e.rename w.sent = x :=
      Option.some_inj.mp ((visit.instruction?_kept kept).symm.trans hx)
    exact visit.safe_kept kept
  | @back e p j _ visit _ at_k =>
    obtain ⟨code, hreal, htrack⟩ := visit.follows.leaves
    rw [← Nat.add_assoc] at hx
    exact (htrack.safe w.nodup (visit.carries_back hreal) at_k hx).1

/-- **Where a step leads**: further in the part, or to where the part starts that belongs to a step
of the instruction at work. -/
theorem next (h : w.Stage i k st) {x : Entry} (hx : woven.entries[w.entry i + k]? = some x)
    (hstep : woven.Step (w.entry i + k) q) : w.Next i k q (st.past body x) := by
  cases h with
  | @front e p _ _ visit at_k =>
    obtain ⟨code, hreal, htrack⟩ := visit.follows.enters
    have hcode := visit.carries_front hreal
    obtain ⟨pending, hpending, hnext⟩ := htrack.of_step w.nodup hcode at_k hstep
    obtain ⟨y, hy, hrealized⟩ := hreal.exists_getElem? hpending
    obtain rfl : x = y := Option.some_inj.mp (hx.symm.trans (visit.getElem?_front hy))
    rw [visit.past_code (List.mem_append_left _ (List.mem_of_getElem? hy)) hrealized]
    rcases hnext with ⟨k', hlt, rfl, hk'⟩ | ⟨hlast, hq, hout⟩
    · exact .stays hlt rfl (.front visit hk')
    · -- behind the front there is the kept instruction, or the rest of the part
      rw [← hreal.length_eq] at hlast hq
      rw [← Option.some_inj.mp hout]
      cases hkept : p.kept.isSome with
      | true => exact .stays (by omega) hq (.kept visit hkept)
      | false =>
        have hnone : p.kept = none := by simpa using hkept
        have hlength : (p.front ++ p.kept.toList).length = p.front.length := by simp [hnone]
        rw [Part.Follows.middle_eq_resumed hnone, hq, ← hlength]
        exact visit.enters_back (visit.falls hkept) (by omega)
  | @kept e p visit kept =>
    obtain rfl : e.rename w.sent = x :=
      Option.some_inj.mp ((visit.instruction?_kept kept).symm.trans hx)
    rw [visit.past_kept kept]
    exact visit.next_kept kept hstep
  | @back e p j _ visit goes at_k =>
    obtain ⟨code, hreal, htrack⟩ := visit.follows.leaves
    have hcode := visit.carries_back hreal
    rw [← Nat.add_assoc] at hx hstep
    obtain ⟨pending, hpending, hnext⟩ := htrack.of_step w.nodup hcode at_k hstep
    obtain ⟨y, hy, hrealized⟩ := hreal.exists_getElem? hpending
    obtain rfl : x = y := Option.some_inj.mp (hx.symm.trans (visit.getElem?_back hy))
    rw [visit.past_code (List.mem_append_right _ (List.mem_of_getElem? hy)) hrealized]
    rcases hnext with ⟨k', hlt, rfl, hk'⟩ | ⟨-, hq, hout⟩
    · exact .stays (by omega) (Nat.add_assoc _ _ _) (.back visit goes hk')
    · -- behind the part there is that of the next instruction
      rw [← hreal.length_eq, Nat.add_assoc, ← List.length_append] at hq
      have hnext : q = w.entry (i + 1) := hq.trans (w.entry_succ visit.part_eq).symm
      exact .leaves visit (.next visit.instruction?_eq goes rfl) hnext
        (Option.some_inj.mp hout).symm

end Stage

end Weaving

end PatchWeaver

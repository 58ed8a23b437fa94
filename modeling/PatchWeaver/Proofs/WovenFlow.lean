/-
  PatchWeaver.Proofs.WovenFlow
  ────────────────────────────
  **A WOVEN BODY HAS THE CONTROL FLOW OF THE BODY AS IT WAS.**

  Putting in patches takes out the instructions that are replaced, and
  nothing else.  A run that starts where the part of an instruction does
  makes the calls planned for the instruction, in order, around the
  instruction itself or the call that replaces it; then it comes to where
  the part of a successor starts, or leaves the method as the instruction
  does:

      entry i ──▶ before ──▶ i ──▶ after ──▶ entry j        step i j
                    │
                    └──▶ return of a cancelled method

  Jumps of the body as it was go to where the part of their target starts;
  all other jumps lead over a return within their own container.

  Main results:
    * `filter_entries` — what is kept, in order.
    * `lands` — where the jumps of a woven body lead.
    * `simulates` — what runs through a part do.
    * `splice_preserves_flow` — putting in validated patches preserves
      control flow.
-/
import PatchWeaver.Proofs.WovenDepths

namespace PatchWeaver

/-! ## §1. What is kept. -/

/-- Entries, counted from an index on, for which no replacing patch is planned. -/
def unreplacedFrom (plans : SitePlans) (index : Nat) (entries : List Entry) : List Entry :=
  ((entries.zipIdx index).filter fun x => (plans.at x.2).replace.isNone).map (·.1)

/-- The entries of a body for which no replacing patch is planned, in order. -/
def Body.unreplaced (body : Body) (plans : SitePlans) : List Entry :=
  unreplacedFrom plans 0 body.entries

theorem unreplacedFrom_cons (plans : SitePlans) (index : Nat) (e : Entry) (entries : List Entry) :
    unreplacedFrom plans index (e :: entries)
      = (if (plans.at index).replace.isSome then [] else [e])
        ++ unreplacedFrom plans (index + 1) entries := by
  unfold unreplacedFrom
  rw [List.zipIdx_cons, List.filter_cons]
  cases (plans.at index).replace <;> simp

section

variable {s : Splicer} {method : MethodRef} {depths : Depths} {plans : SitePlans}
  {f : Label → Label} {bound : Nat}

/-- Among given labels that the code of a part does not have, a part has that of the kept
instruction. -/
theorem Part.Stands.filter_entries {plan : SitePlan} {depth? : Option Nat} {e : Entry} {p : Part}
    {labels : List Label} (h : p.Stands s method plan depth? f bound e)
    (hlabels : ∀ l ∈ labels, l.id < bound) (he : e.label ∈ labels) :
    p.entries.filter (fun x => x.label ∈ labels)
      = (if plan.replace.isSome then [] else [e]).map (Entry.rename f) := by
  have hcode : ∀ x ∈ p.front ++ p.back, x.label ∉ labels := by
    intro x hx hmem
    have hfresh := h.fresh hx
    have hbelow := hlabels x.label hmem
    omega
  -- the filter takes nothing from the front or from the back of the part
  have hnone : ∀ xs : List Entry, (∀ x ∈ xs, x.label ∉ labels) →
      xs.filter (fun x => x.label ∈ labels) = [] := by
    intro xs hxs
    rw [List.filter_eq_nil_iff]
    intro x hx
    simpa using hxs x hx
  rw [entries, List.filter_append, List.filter_append,
    hnone p.front fun x hx => hcode x (List.mem_append_left _ hx),
    hnone p.back fun x hx => hcode x (List.mem_append_right _ hx), h.kept_eq]
  cases plan.replace <;> simp [he]

/-- **What is kept stays in order.** -/
theorem Laid.filter_entries {index : Nat} {entries : List Entry} {parts : List Part}
    {labels : List Label} (h : Laid s method depths plans f bound index entries parts)
    (hlabels : ∀ l ∈ labels, l.id < bound) (hentries : ∀ e ∈ entries, e.label ∈ labels) :
    (parts.flatMap Part.entries).filter (fun x => x.label ∈ labels)
      = (unreplacedFrom plans index entries).map (Entry.rename f) := by
  induction h with
  | nil => rfl
  | @cons index e p entries parts stands rest ih =>
    obtain ⟨he, hentries⟩ := List.forall_mem_cons.mp hentries
    rw [List.flatMap_cons, List.filter_append, stands.filter_entries hlabels he, ih hentries,
      unreplacedFrom_cons, List.map_append]

end

namespace Weaving

variable {s : Splicer} {method : MethodRef} {body : Body} {depths : Depths} {plans : SitePlans}
  {woven : Body}

/-- **The entries of the body as it was are kept, but for those replaced**: in order, with their
labels and origins, and with their instructions but for where jumps lead. -/
theorem filter_entries (w : Weaving s method body depths plans woven) :
    woven.entries.filter (fun x => x.label ∈ body.labelList)
      = (body.unreplaced plans).map (Entry.rename w.sent) := by
  rw [w.entries_eq]
  refine w.laid.filter_entries (fun l hl => ?_) fun e he => List.mem_map_of_mem he
  obtain ⟨e, he, rfl⟩ := List.mem_map.mp hl
  exact w.ahead e he

/-! ## §2. Where jumps lead. -/

/-- Where a jump of a woven body leads. -/
inductive Lands (w : Weaving s method body depths plans woven) (q : Nat) (x : Entry) (l : Label) :
    Prop where
  /-- A jump of the body as it was goes to where the part of its target starts. It has a target
  unless the analysis never came to it. -/
  | kept {i : Nat} {e : Entry} {l' : Label} (entry_eq : body.entries[i]? = some e)
      (kept : x = e.rename w.sent) (target : e.instruction.target? = some l') (sent : l = w.sent l')
      (lands : ∀ j, body.LastPlace l' j → woven.LastPlace l (w.entry j))
      (known : (∃ depth, depths.at? i = some depth) → ∃ j, body.LastPlace l' j)
  /-- A jump of a container leads right behind a return further on in the container. -/
  | skips {i q' : Nat} (planned : (plans.at i).isEmpty = false) (injected : x.origin = .injected)
      (fresh : x.label ∉ body.labelList)
      (branches : ∃ expected, x.instruction = .branchIf expected l)
      (first : w.entry i ≤ q) (later : q < q') (inside : q' + 1 < w.entry (i + 1))
      (returns : woven.instruction? q' = some .ret) (lands : woven.LastPlace l (q' + 1))

/-- Code that stands in the part of an instruction jumps over returns only. -/
theorem Visit.lands_of_code {w : Weaving s method body depths plans woven} {i base k : Nat}
    {e : Entry} {p : Part} {x : Entry} {l : Label} (h : w.Visit i e p) {code : List PendingEntry}
    {entries : List Entry} {st : Progress} {table : List Progress} {out : Option Progress}
    (htrack : Track st code table out) (hreal : Realizes code entries)
    (hcode : woven.Carries base code) (hx : entries[k]? = some x)
    (hmem : x ∈ p.front ++ p.back) (hfirst : w.entry i ≤ base)
    (hinside : base + entries.length ≤ w.entry (i + 1)) (hl : x.instruction.target? = some l) :
    w.Lands (base + k) x l := by
  have hk : k < code.length := by
    rw [← hreal.length_eq]
    exact (List.getElem?_eq_some_iff.mp hx).1
  have hpending := List.getElem?_eq_getElem hk
  obtain ⟨x', hx', hrealized⟩ := hreal.exists_getElem? hpending
  obtain rfl : x = x' := Option.some_inj.mp (hx.symm.trans hx')
  rw [hrealized.instruction] at hl
  obtain ⟨⟨expected, hbranches⟩, k', r, q, hlt, hr, hret, hq, hlabel⟩ := htrack.skips hpending hl
  have hplan := h.stands.isEmpty_eq_false hmem
  have hflow : x.instruction.flow ≠ .next := by
    rw [hrealized.instruction, hbranches]
    simp [Instruction.flow]
  have hlength := (List.getElem?_eq_some_iff.mp hq).1
  rw [← hreal.length_eq] at hlength
  have hreturns : woven.instruction? (base + k') = some .ret := by rw [hcode.instruction? hr, hret]
  have hlands : woven.LastPlace l (base + k' + 1) := by
    rw [Nat.add_assoc]
    exact hcode.lastPlace w.nodup hq hlabel
  have hbranch : x.instruction = .branchIf expected l := by rw [hrealized.instruction, hbranches]
  exact .skips hplan ((h.stands.builds hplan).injected_of_flow_ne hmem hflow)
    (h.stands.not_mem_labelList w.ahead hmem) ⟨expected, hbranch⟩ (by omega) (by omega) (by omega)
    hreturns hlands

/-- **Where the jumps of a woven body lead.** -/
theorem lands (w : Weaving s method body depths plans woven) {q : Nat} {x : Entry} {l : Label}
    (hx : woven.entries[q]? = some x) (hl : x.instruction.target? = some l) : w.Lands q x l := by
  obtain ⟨i, k, e, p, he, hp, hk, rfl⟩ := w.exists_of_getElem? hx
  have hstands := w.stands he hp
  -- in a container there is a visit
  have hvisit : ∀ {y : Entry}, y ∈ p.front ++ p.back → w.Visit i e p := by
    intro y hy
    obtain ⟨depth, hdepth⟩ := w.planned i (hstands.isEmpty_eq_false hy)
    refine ⟨he, hp, ?_⟩
    rw [(w.exists_visit hdepth).1, hdepth]
  have hsucc := w.entry_succ hp
  rw [Part.entries] at hk hsucc
  simp only [List.length_append] at hsucc
  rcases Nat.lt_or_ge k p.front.length with hfront | hfront
  · rw [List.append_assoc, List.getElem?_append_left hfront] at hk
    have hmem : x ∈ p.front ++ p.back := List.mem_append_left _ (List.mem_of_getElem? hk)
    have visit := hvisit hmem
    obtain ⟨code, hreal, htrack⟩ := visit.follows.enters
    exact visit.lands_of_code htrack hreal (visit.carries_front hreal) hk hmem (Nat.le_refl _)
      (by omega) hl
  rcases Nat.lt_or_ge k (p.front ++ p.kept.toList).length with hkept | hback
  · rw [List.getElem?_append_left hkept, List.getElem?_append_right hfront] at hk
    have hmem : x ∈ p.kept := Option.mem_toList.mp (List.mem_of_getElem? hk)
    have hx' : x = e.rename w.sent := by
      have heq := hstands.kept_eq
      rw [hmem] at heq
      split at heq
      · contradiction
      · exact Option.some_inj.mp heq
    rw [hx', Entry.rename_instruction, Instruction.target?_rename] at hl
    obtain ⟨l', hl', rfl⟩ := Option.map_eq_some_iff.mp hl
    refine .kept he hx' hl' rfl (fun j hj => ?_) fun hreached => ?_
    · obtain ⟨⟨e', he', rfl⟩, -⟩ := hj
      exact w.lastPlace he'
    · obtain ⟨depth, hdepth⟩ := hreached
      have hsettled := w.sound.settled i depth hdepth (by simp)
      exact hsettled.known e.instruction l' (Body.instruction?_eq_some_iff.mpr ⟨e, he, rfl⟩) hl'
  · rw [List.getElem?_append_right hback] at hk
    have hmem : x ∈ p.front ++ p.back := List.mem_append_right _ (List.mem_of_getElem? hk)
    have visit := hvisit hmem
    obtain ⟨code, hreal, htrack⟩ := visit.follows.leaves
    have hplace : w.entry i + k
        = w.entry i + (p.front ++ p.kept.toList).length
          + (k - (p.front ++ p.kept.toList).length) := by
      omega
    rw [hplace]
    rw [← List.length_append] at hsucc
    exact visit.lands_of_code htrack hreal (visit.carries_back hreal) hk hmem (Nat.le_add_right _ _)
      (by omega) hl

/-! ## §3. Runs through parts. -/

/-- The return of a cancelled method, which is code of a patch. -/
structure Cancels (body : Body) (x : Entry) : Prop where
  fresh : x.label ∉ body.labelList
  injected : x.origin = .injected
  returns : x.instruction = .ret

/-- What runs do that start where the part of an instruction does. The part of the instruction
behind the last one is the end of the woven body. -/
structure Simulates (w : Weaving s method body depths plans woven) (i : Nat) (e : Entry) :
    Prop where
  /-- A run that comes to where a part starts has done what is planned, and gone where the
  instruction goes. -/
  arrives : ∀ run q j, w.Within i run q → j ≤ body.length → woven.Step q (w.entry j) →
    body.Step i j
      ∧ (body.actsOn woven (run ++ [q])).map some = s.plannedActs method.owner (plans.at i) e.label
  /-- Runs go wherever the instruction goes. -/
  reaches : ∀ j, body.Step i j → ∃ run q, w.Within i run q ∧ woven.Step q (w.entry j)
  /-- A run that ends the method ends it as the instruction does, and has done what is planned,
  unless the method is cancelled. -/
  ends : ∀ run q x, w.Within i run q → woven.entries[q]? = some x → x.instruction.Ends →
    Cancels body x ∨ (x.instruction = e.instruction
      ∧ (body.actsOn woven (run ++ [q])).map some = s.plannedActs method.owner (plans.at i) e.label)
  /-- Runs end the method if the instruction does. -/
  endsToo : e.instruction.Ends →
    ∃ run q, w.Within i run q ∧ woven.instruction? q = some e.instruction
  /-- A run that does not end the method goes on, and not within the part for ever. -/
  goesOn : ∀ run q x, w.Within i run q → woven.entries[q]? = some x →
    x.instruction.Ends ∨ ∃ q', woven.Step q q'
  bounded : ∀ run q, w.Within i run q → run.length < w.entry (i + 1) - w.entry i

variable {w : Weaving s method body depths plans woven} {i q : Nat} {e : Entry} {p : Part}
  {run : List Nat}

/-- Parts start at different places. -/
theorem entry_injective (w : Weaving s method body depths plans woven) {j k : Nat}
    (hj : j ≤ body.length) (hk : k ≤ body.length) (h : w.entry j = w.entry k) : j = k := by
  -- no part is empty
  have key : ∀ {j k : Nat}, j < k → k ≤ body.length → w.entry j < w.entry k := by
    intro j k hlt hk
    have hle : w.entry (j + 1) ≤ w.entry k := entryOf_mono w.parts hlt
    obtain ⟨p, hp, hstands⟩ := w.exists_part (List.getElem?_eq_getElem (Nat.lt_of_lt_of_le hlt hk))
    obtain ⟨x, es, hcons, -⟩ := hstands.starts
    rw [w.entry_succ hp, hcons, List.length_cons] at hle
    omega
  rcases Nat.lt_trichotomy j k with hlt | heq | hgt
  · have := key hlt hk
    omega
  · exact heq
  · have := key hgt hj
    omega

/-- Code of a patch that ends the method returns from a cancelled one. -/
theorem Visit.cancels (h : w.Visit i e p) {x : Entry} (hx : x ∈ p.front ++ p.back)
    (hthrow : x.instruction ≠ .throw) (hends : x.instruction.Ends) : Cancels body x where
  fresh := h.stands.not_mem_labelList w.ahead hx
  injected := (h.stands.builds (h.stands.isEmpty_eq_false hx)).injected_of_flow_ne hx hends.flow_ne
  returns := hends.resolve_right hthrow

/-- A stage at which the method ends is that of its instruction, or of a cancelled method. -/
theorem Stage.ends {k : Nat} {st : Progress} (h : w.Stage i k st) (visit : w.Visit i e p)
    {x : Entry} (hx : woven.entries[w.entry i + k]? = some x) (hends : x.instruction.Ends) :
    Cancels body x ∨ (x.instruction = e.instruction ∧ st.past body x = (w.course i).final p e) := by
  cases h with
  | @front e' p' _ _ visit' at_k =>
    obtain ⟨rfl, rfl⟩ := visit.unique visit'
    -- code of a patch does not throw, so it returns
    obtain ⟨code, hreal, htrack⟩ := visit.follows.enters
    have hthrow := (htrack.safe w.nodup (visit.carries_front hreal) at_k hx).2
    have hlt := (List.getElem?_eq_some_iff.mp at_k).1
    rw [visit.follows.length_front] at hlt
    have hfront := List.getElem?_eq_getElem hlt
    obtain rfl : x = _ := Option.some_inj.mp (hx.symm.trans (visit.getElem?_front hfront))
    exact .inl (visit.cancels (List.mem_append_left _ (List.mem_of_getElem? hfront)) hthrow hends)
  | @kept e' p' visit' kept =>
    obtain ⟨rfl, rfl⟩ := visit.unique visit'
    obtain rfl : e.rename w.sent = x :=
      Option.some_inj.mp ((visit.instruction?_kept kept).symm.trans hx)
    have heq : (e.rename w.sent).instruction = e.instruction := Instruction.rename_eq_of_ends hends
    -- nothing is planned behind an instruction that ends the method
    have hflow : e.instruction.flow ≠ .next := heq ▸ hends.flow_ne
    rw [visit.past_kept kept, visit.follows.final_eq_resumed hflow]
    exact .inr ⟨heq, rfl⟩
  | @back e' p' j _ visit' _ at_k =>
    obtain ⟨rfl, rfl⟩ := visit.unique visit'
    obtain ⟨code, hreal, htrack⟩ := visit.follows.leaves
    rw [← Nat.add_assoc] at hx
    have hthrow := (htrack.safe w.nodup (visit.carries_back hreal) at_k hx).2
    have hlt := (List.getElem?_eq_some_iff.mp at_k).1
    rw [visit.follows.length_back] at hlt
    have hback := List.getElem?_eq_getElem hlt
    obtain rfl : x = _ := Option.some_inj.mp (hx.symm.trans (visit.getElem?_back hback))
    exact .inl (visit.cancels (List.mem_append_right _ (List.mem_of_getElem? hback)) hthrow hends)

/-- **Runs that start where the part of an instruction does do what is planned for it, and then go
on as it does.** -/
theorem Visit.simulates (visit : w.Visit i e p) : w.Simulates i e where
  arrives run q j hwithin hj hstep := by
    obtain ⟨k, st, rfl, hstage, hacts, -⟩ := hwithin.exists_stage visit
    obtain ⟨-, -, x, -, -, hx⟩ := hstage.exists_entry
    cases hstage.next hx hstep with
    | @stays k' later there stage =>
      -- a stage further in the part is not at the start of a part
      obtain ⟨e', p', y, visit', hy, -⟩ := stage.exists_entry
      have hinside := (List.getElem?_eq_some_iff.mp hy).1
      exact absurd there.symm (ne_entry visit'.part_eq (by omega) (by omega) j)
    | @leaves e' p' j' visit' step there done =>
      obtain ⟨rfl, rfl⟩ := visit.unique visit'
      obtain rfl := w.entry_injective hj step.le_length there
      refine ⟨step, ?_⟩
      rw [Body.actsOn_append_singleton hx, ← hacts, ← visit.follows.planned_eq, ← done]
      rfl
  reaches j hstep := visit.exists_passage hstep
  ends run q x hwithin hx hends := by
    obtain ⟨k, st, rfl, hstage, hacts, -⟩ := hwithin.exists_stage visit
    rcases hstage.ends visit hx hends with hcancels | ⟨heq, hdone⟩
    · exact .inl hcancels
    · refine .inr ⟨heq, ?_⟩
      rw [Body.actsOn_append_singleton hx, ← hacts, ← visit.follows.planned_eq, ← hdone]
      rfl
  endsToo hends := by
    have hkept := visit.isSome_kept_of_flow_ne hends.flow_ne
    obtain ⟨run, hadvance⟩ := visit.exists_advance_kept hkept
    have hinside : p.front.length < p.entries.length := by simp [Part.entries, visit.kept_eq hkept]
    refine ⟨run, _, within_of_advances visit.part_eq hadvance (by omega), ?_⟩
    refine Body.instruction?_eq_some_iff.mpr ⟨_, visit.instruction?_kept hkept, ?_⟩
    refine Instruction.rename_eq_self fun l hl => ?_
    rw [hends.target?_eq_none] at hl
    contradiction
  goesOn run q x hwithin hx := by
    obtain ⟨k, st, rfl, hstage, -, -⟩ := hwithin.exists_stage visit
    exact Body.exists_step (Body.instruction?_eq_some_iff.mpr ⟨x, hx, rfl⟩) (hstage.safe hx).known
  bounded run q hwithin := by
    obtain ⟨k, st, rfl, hstage, -, hlength⟩ := hwithin.exists_stage visit
    obtain ⟨e', p', x, visit', hx, -⟩ := hstage.exists_entry
    have hinside := (List.getElem?_eq_some_iff.mp hx).1
    rw [w.entry_succ visit'.part_eq]
    omega

end Weaving

/-! ## §4. Splicing. -/

/-- **Putting validated patches into a body preserves control flow.**  The body has distinct labels
and a supply ahead of them, and has passed the analysis of its stack depths. -/
theorem splice_preserves_flow {s : Splicer} {method : MethodRef} {body : Body} {depths : Depths}
    {offsets : Offsets} {plans : SitePlans} (hnodup : body.labelList.Nodup) (hahead : body.Ahead)
    (hdepths : body.depths = .ok depths)
    (hplans : (s.registry.resolveMethod method offsets).outcome = .ok plans)
    (hvalid : s.Validated method body depths offsets) :
    ∃ woven, (s.splice method body depths plans).outcome = .ok woven
      ∧ ∃ w : Weaving s method body depths plans woven,
        woven.entries.filter (fun x => x.label ∈ body.labelList)
            = (body.unreplaced plans).map (Entry.rename w.sent)
        ∧ (∀ i e depth, body.entries[i]? = some e → depths.at? i = some depth → w.Simulates i e)
        ∧ ∀ q x l, woven.entries[q]? = some x → x.instruction.target? = some l → w.Lands q x l := by
  obtain ⟨woven, hrun, ⟨w⟩⟩ := exists_weaving hnodup hahead hdepths hplans hvalid
  obtain ⟨after, hafter⟩ := Body.exists_depths w.consistent
  refine ⟨woven, splice_of_depths hrun hafter, w, w.filter_entries, fun i e depth he hdepth => ?_,
    fun q x l hx hl => w.lands hx hl⟩
  obtain ⟨-, e', p, visit⟩ := w.exists_visit hdepth
  obtain rfl : e = e' := Option.some_inj.mp (he.symm.trans visit.entry_eq)
  exact visit.simulates

/-- A loop with a patch that replaces its constant, and one that can cancel it in two places. -/
theorem splice_preserves_flow_sample :
    ∃ woven, (Sample.splicer.splice Sample.method Sample.body Sample.depths Sample.plans).outcome
        = .ok woven
      ∧ ∃ w : Weaving Sample.splicer Sample.method Sample.body Sample.depths Sample.plans woven,
        woven.entries.filter (fun x => x.label ∈ Sample.body.labelList)
            = (Sample.body.unreplaced Sample.plans).map (Entry.rename w.sent)
        ∧ (∀ i e depth, Sample.body.entries[i]? = some e → Sample.depths.at? i = some depth →
            w.Simulates i e)
        ∧ ∀ q x l, woven.entries[q]? = some x → x.instruction.target? = some l → w.Lands q x l :=
  splice_preserves_flow Sample.nodup_body (Body.ahead_of_unseeded rfl) Sample.depths_body
    Sample.resolveMethod_offsets Sample.validated

end PatchWeaver

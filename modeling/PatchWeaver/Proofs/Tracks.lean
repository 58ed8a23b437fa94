/-
  PatchWeaver.Proofs.Tracks
  ─────────────────────────
  **CODE THAT CONTROL ENTERS AT ONE END AND LEAVES AT THE OTHER.**

  Code made for patches jumps forwards only, from the check of a callback
  over the return of a cancelled method:

      a ; b ; branchIf l ; drop ... drop ; ret ; l: c ; d
      ──────────────────────────────────────────────────▶

  A track of such code says how far a run has got in front of each of its
  instructions, and behind the last one (`Track`).  Put into a body whose
  labels are distinct, the code is run as its track says: an edge out of one
  of its instructions leads to a later one, or behind the last one.

  Main results:
    * `Track.append` — tracks can be put together.
    * `Track.continues` — what an instruction on a track does next.
    * `Track.of_step` — a step of the body stays on the track.
    * `Track.exists_advance` — the last instruction is reached.
-/
import PatchWeaver.Proofs.CallCode
import PatchWeaver.Proofs.FreshLabels

namespace PatchWeaver

/-! ## §1. Tracks. -/

/-- How far a run has got in front of each instruction, starting from a progress; behind the last
instruction there is none if control never gets there. -/
inductive Track : Progress → List PendingEntry → List Progress → Option Progress → Prop where
  | nil (st : Progress) : Track st [] [] (some st)
  | step {st : Progress} {p : PendingEntry} {rest : List PendingEntry} {table : List Progress}
      {out : Option Progress} (flow : p.instruction.flow = .next)
      (covered : p.instruction.effect.pop ≤ st.depth)
      (track : Track (st.after p.instruction) rest table out) :
      Track st (p :: rest) (st :: table) out
  /-- Return from the method. -/
  | leave {st : Progress} {p : PendingEntry} (returns : p.instruction = .ret)
      (depth : st.depth ≤ 1) : Track st [p] [st] none
  /-- Jump over code that ends with a return, or run it. -/
  | skip {st : Progress} {p q : PendingEntry} {expected : Bool} {l : Label}
      {skipped rest : List PendingEntry} {table table' : List Progress} {out : Option Progress}
      (branches : p.instruction = .branchIf expected l) (covered : 1 ≤ st.depth)
      (inner : Track (st.after p.instruction) skipped table none) (resumes : q.label = some l)
      (track : Track (st.after p.instruction) (q :: rest) table' out) :
      Track st (p :: (skipped ++ q :: rest)) (st :: (table ++ table')) out

namespace Track

theorem length_eq {st : Progress} {code : List PendingEntry} {table : List Progress}
    {out : Option Progress} (h : Track st code table out) : table.length = code.length := by
  induction h with
  | nil => rfl
  | step _ _ _ ih => simp [ih]
  | leave => rfl
  | skip _ _ _ _ _ ih ih' => simp [ih, ih']

/-- Control enters at the first instruction. -/
theorem head {st : Progress} {p : PendingEntry} {code : List PendingEntry} {table : List Progress}
    {out : Option Progress} (h : Track st (p :: code) table out) : table[0]? = some st := by
  cases h <;> rfl

/-- Tracks can be put together. -/
theorem append {st mid : Progress} {code code' : List PendingEntry} {table table' : List Progress}
    {out' out : Option Progress} (h : Track st code table out') (hmid : out' = some mid)
    (h' : Track mid code' table' out) : Track st (code ++ code') (table ++ table') out := by
  induction h with
  | nil st =>
    obtain rfl : st = mid := Option.some_inj.mp hmid
    exact h'
  | step flow covered _ ih => exact .step flow covered (ih hmid)
  | leave => contradiction
  | skip branches covered inner resumes _ _ ih =>
    have hrest := ih hmid
    rw [List.cons_append] at hrest
    simp only [List.cons_append, List.append_assoc]
    exact .skip branches covered inner resumes hrest

/-- Instructions that are run one after another make a track. -/
theorem of_run {st st' : Progress} {code : List Instruction} (h : st.run code = some st')
    (origin : Origin) :
    ∃ table, Track st (unlabelled origin code) table (some st') := by
  induction code generalizing st with
  | nil =>
    obtain rfl : st = st' := Option.some_inj.mp h
    exact ⟨[], .nil st⟩
  | cons i code ih =>
    simp only [Progress.run] at h
    split at h
    · next hi =>
      obtain ⟨table, htrack⟩ := ih h
      exact ⟨st :: table, .step hi.1 hi.2 htrack⟩
    · contradiction

end Track

/-! ## §2. One instruction on a track. -/

/-- What an instruction on a track does: it is covered, and a run goes on where the track says. -/
structure Progress.Continues (st : Progress) (i : Instruction) (code : List PendingEntry)
    (table : List Progress) (out : Option Progress) (k : Nat) : Prop where
  covered : i.effect.pop ≤ st.depth
  returns : i = .ret → st.depth ≤ 1
  throws : i ≠ .throw
  falls : i.fallsThrough = true →
    table[k + 1]? = some (st.after i) ∨ (k + 1 = code.length ∧ out = some (st.after i))
  jumps : ∀ l, i.target? = some l → ∃ k' p, k < k' ∧ code[k']? = some p ∧ p.label = some l
    ∧ table[k']? = some (st.after i)

/-- What holds within a part of a track holds within the whole. -/
theorem Progress.Continues.mono {st : Progress} {i : Instruction} {code code' : List PendingEntry}
    {table table' : List Progress} {out out' : Option Progress} {k offset : Nat}
    (h : st.Continues i code table out k)
    (hcode : ∀ k p, code[k]? = some p → code'[k + offset]? = some p)
    (htable : ∀ k s, table[k]? = some s → table'[k + offset]? = some s)
    (hout : ∀ s, out = some s → table'[code.length + offset]? = some s
      ∨ (code.length + offset = code'.length ∧ out' = some s)) :
    st.Continues i code' table' out' (k + offset) where
  covered := h.covered
  returns := h.returns
  throws := h.throws
  falls hi := by
    rw [show k + offset + 1 = k + 1 + offset by omega]
    rcases h.falls hi with hnext | ⟨hlast, hnext⟩
    · exact .inl (htable _ _ hnext)
    · rw [hlast]
      exact hout _ hnext
  jumps l hl := by
    obtain ⟨k', p, hlt, hp, hlabel, hs⟩ := h.jumps l hl
    exact ⟨k' + offset, p, by omega, hcode _ _ hp, hlabel, htable _ _ hs⟩

namespace Track

/-- In front of the code there is the start, be it that there is no code. -/
theorem starts {st : Progress} {code : List PendingEntry} {table : List Progress}
    {out : Option Progress} (h : Track st code table out) :
    table[0]? = some st ∨ (code = [] ∧ out = some st) := by
  cases h with
  | nil => exact .inr ⟨rfl, rfl⟩
  | step => exact .inl rfl
  | leave => exact .inl rfl
  | skip => exact .inl rfl

/-- A place within code that may be skipped. -/
theorem getElem?_inner {α : Type} {xs ys : List α} {x y : α} {k : Nat} (h : xs[k]? = some y) :
    (x :: (xs ++ ys))[k + 1]? = some y := by
  rw [List.getElem?_cons_succ, List.getElem?_append_left (List.getElem?_eq_some_iff.mp h).1, h]

/-- A place behind code that may be skipped. -/
theorem getElem?_outer {α : Type} {xs ys : List α} {x y : α} {k length : Nat}
    (hxs : xs.length = length) (h : ys[k]? = some y) :
    (x :: (xs ++ ys))[k + (length + 1)]? = some y := by
  rw [← Nat.add_assoc, List.getElem?_cons_succ, List.getElem?_append_right (by omega), hxs,
    Nat.add_sub_cancel, h]

/-! ### The first instruction. -/

/-- An instruction that falls through goes on with the rest. -/
theorem continues_step {st : Progress} {p : PendingEntry} {rest : List PendingEntry}
    {table : List Progress} {out : Option Progress} (flow : p.instruction.flow = .next)
    (covered : p.instruction.effect.pop ≤ st.depth)
    (track : Track (st.after p.instruction) rest table out) :
    st.Continues p.instruction (p :: rest) (st :: table) out 0 where
  covered := covered
  returns h := by simp [h, Instruction.flow] at flow
  throws h := by simp [h, Instruction.flow] at flow
  falls _ := by
    rcases track.starts with hstart | ⟨rfl, hout⟩
    · exact .inl hstart
    · exact .inr ⟨rfl, hout⟩
  jumps l hl := absurd flow (Instruction.flow_ne_of_target? hl)

/-- A return goes nowhere. -/
theorem continues_leave {st : Progress} {p : PendingEntry} (returns : p.instruction = .ret)
    (depth : st.depth ≤ 1) : st.Continues p.instruction [p] [st] none 0 where
  covered := by simp [returns, Instruction.effect]
  returns _ := depth
  throws := by simp [returns]
  falls := by simp [returns, Instruction.fallsThrough, Instruction.flow]
  jumps := by simp [returns, Instruction.target?, Instruction.flow]

/-- A jump over code goes on in the code, or behind it. -/
theorem continues_skip {st : Progress} {p q : PendingEntry} {expected : Bool} {l : Label}
    {skipped rest : List PendingEntry} {table table' : List Progress} {out : Option Progress}
    (branches : p.instruction = .branchIf expected l) (covered : 1 ≤ st.depth)
    (inner : Track (st.after p.instruction) skipped table none) (resumes : q.label = some l)
    (track : Track (st.after p.instruction) (q :: rest) table' out) :
    st.Continues p.instruction (p :: (skipped ++ q :: rest)) (st :: (table ++ table')) out 0 where
  covered := by simpa [branches, Instruction.effect] using covered
  returns := by simp [branches]
  throws := by simp [branches]
  falls _ := by
    -- code that control never gets behind is not empty, so falling through enters it
    rcases inner.starts with hstart | ⟨-, hout⟩
    · exact .inl (getElem?_inner hstart)
    · contradiction
  jumps l' hl := by
    obtain rfl : l = l' := by simpa [branches, Instruction.target?, Instruction.flow] using hl
    exact ⟨0 + (skipped.length + 1), q, by omega, getElem?_outer rfl rfl, resumes,
      getElem?_outer inner.length_eq track.head⟩

/-- **What an instruction on a track does next.** -/
theorem continues {st s : Progress} {code : List PendingEntry} {table : List Progress}
    {out : Option Progress} {k : Nat} (h : Track st code table out) (hk : table[k]? = some s) :
    ∃ p, code[k]? = some p ∧ s.Continues p.instruction code table out k := by
  induction h generalizing k with
  | nil => simp at hk
  | @step st p rest table out flow covered track ih =>
    cases k with
    | zero =>
      obtain rfl : st = s := by simpa using hk
      exact ⟨p, rfl, continues_step flow covered track⟩
    | succ k =>
      obtain ⟨p', hp', hcont⟩ := ih (k := k) (by simpa using hk)
      refine ⟨p', by simpa using hp', hcont.mono (fun _ _ h => h) (fun _ _ h => h) fun s h => ?_⟩
      exact .inr ⟨rfl, h⟩
  | @leave st p returns depth =>
    cases k with
    | zero =>
      obtain rfl : st = s := by simpa using hk
      exact ⟨p, rfl, continues_leave returns depth⟩
    | succ k => simp at hk
  | @skip st p q expected l skipped rest table table' out branches covered inner resumes track ih
      ih' =>
    cases k with
    | zero =>
      obtain rfl : st = s := by simpa using hk
      exact ⟨p, rfl, continues_skip branches covered inner resumes track⟩
    | succ k =>
      rw [List.getElem?_cons_succ] at hk
      rcases Nat.lt_or_ge k table.length with hlt | hge
      · -- in the code jumped over, which control never gets behind
        rw [List.getElem?_append_left hlt] at hk
        obtain ⟨p', hp', hcont⟩ := ih hk
        exact ⟨p', getElem?_inner hp', hcont.mono (fun _ _ h => getElem?_inner h)
          (fun _ _ h => getElem?_inner h) (fun _ h => by contradiction)⟩
      · -- in the code behind it
        have hlength := inner.length_eq
        rw [List.getElem?_append_right hge] at hk
        obtain ⟨p', hp', hcont⟩ := ih' hk
        have hpos : k + 1 = k - table.length + (skipped.length + 1) := by omega
        rw [hpos]
        refine ⟨p', getElem?_outer rfl hp', hcont.mono (fun _ _ h => getElem?_outer rfl h)
          (fun _ _ h => getElem?_outer hlength h) fun s h => .inr ⟨?_, h⟩⟩
        simp only [List.length_cons, List.length_append]
        omega

end Track

/-- A jump on a track leads to a label that the code itself brings. -/
theorem Track.mem_placedLabels {st : Progress} {code : List PendingEntry} {table : List Progress}
    {out : Option Progress} (h : Track st code table out) {p : PendingEntry} (hp : p ∈ code)
    {l : Label} (hl : p.instruction.target? = some l) : l ∈ placedLabels code := by
  obtain ⟨k, hk⟩ := List.mem_iff_getElem?.mp hp
  have hlt : k < table.length := by
    rw [h.length_eq]
    exact (List.getElem?_eq_some_iff.mp hk).1
  obtain ⟨p', hp', hcont⟩ := h.continues (List.getElem?_eq_getElem hlt)
  obtain rfl : p = p' := Option.some_inj.mp (hk.symm.trans hp')
  obtain ⟨k', q, -, hq, hlabel, -⟩ := hcont.jumps l hl
  exact List.mem_filterMap.mpr ⟨q, List.mem_of_getElem? hq, hlabel⟩

/-- Code that control never gets behind ends with a return. -/
theorem Track.ends_with_ret {st : Progress} {code : List PendingEntry} {table : List Progress}
    (h : Track st code table none) : ∃ front r, code = front ++ [r] ∧ r.instruction = .ret := by
  -- the induction needs an index that is a variable
  generalize hout : (none : Option Progress) = out at h
  induction h with
  | nil => contradiction
  | @step st p rest table out flow covered track ih =>
    obtain ⟨front, r, rfl, hret⟩ := ih hout
    exact ⟨p :: front, r, rfl, hret⟩
  | @leave st p returns depth => exact ⟨[], p, rfl, returns⟩
  | @skip st p q expected l skipped rest table table' out branches covered inner resumes track ih
      ih' =>
    obtain ⟨front, r, hrest, hret⟩ := ih' hout
    refine ⟨p :: (skipped ++ front), r, ?_, hret⟩
    rw [hrest]
    simp

/-- A jump on a track is conditional, and leads right behind a return further on. -/
structure Skips (code : List PendingEntry) (k : Nat) (i : Instruction) (l : Label) : Prop where
  branches : ∃ expected, i = .branchIf expected l
  lands : ∃ k' r q, k < k' ∧ code[k']? = some r ∧ r.instruction = .ret ∧ code[k' + 1]? = some q
    ∧ q.label = some l

/-- What holds within a part of some code holds within the whole. -/
theorem Skips.mono {code code' : List PendingEntry} {k offset : Nat} {i : Instruction} {l : Label}
    (h : Skips code k i l) (hcode : ∀ k p, code[k]? = some p → code'[k + offset]? = some p) :
    Skips code' (k + offset) i l := by
  obtain ⟨hbranches, k', r, q, hlt, hr, hret, hq, hlabel⟩ := h
  refine ⟨hbranches, k' + offset, r, q, by omega, hcode _ _ hr, hret, ?_, hlabel⟩
  rw [show k' + offset + 1 = k' + 1 + offset by omega]
  exact hcode _ _ hq

/-- **A jump on a track leads over code that ends with a return.** -/
theorem Track.skips {st : Progress} {code : List PendingEntry} {table : List Progress}
    {out : Option Progress} (h : Track st code table out) {k : Nat} {p : PendingEntry} {l : Label}
    (hp : code[k]? = some p) (hl : p.instruction.target? = some l) :
    Skips code k p.instruction l := by
  induction h generalizing k with
  | nil => simp at hp
  | @step st p' rest table out flow covered track ih =>
    cases k with
    | zero =>
      obtain rfl : p' = p := by simpa using hp
      exact absurd flow (Instruction.flow_ne_of_target? hl)
    | succ k => exact (ih (by simpa using hp)).mono fun _ _ h => h
  | @leave st p' returns depth =>
    cases k with
    | zero =>
      obtain rfl : p' = p := by simpa using hp
      simp [returns, Instruction.target?, Instruction.flow] at hl
    | succ k => simp at hp
  | @skip st p' q expected l' skipped rest table table' out branches covered inner resumes track ih
      ih' =>
    cases k with
    | zero =>
      obtain rfl : p' = p := by simpa using hp
      obtain rfl : l' = l := by simpa [branches, Instruction.target?, Instruction.flow] using hl
      -- the last instruction of what is skipped is the return
      obtain ⟨front, r, rfl, hret⟩ := inner.ends_with_ret
      refine ⟨⟨expected, branches⟩, front.length + 1, r, q, by omega, ?_, hret, ?_, resumes⟩
      · simp
      · simp
    | succ k =>
      rw [List.getElem?_cons_succ] at hp
      rcases Nat.lt_or_ge k skipped.length with hlt | hge
      · rw [List.getElem?_append_left hlt] at hp
        exact (ih hp).mono fun _ _ h => Track.getElem?_inner h
      · rw [List.getElem?_append_right hge] at hp
        have hpos : k + 1 = k - skipped.length + (skipped.length + 1) := by omega
        rw [hpos]
        exact (ih' hp).mono fun _ _ h => Track.getElem?_outer rfl h

/-! ## §3. Tracks in a body. -/

/-- Code stands in a body from a position on. -/
def Body.Carries (b : Body) (base : Nat) (code : List PendingEntry) : Prop :=
  ∀ k p, code[k]? = some p → ∃ e, b.entries[base + k]? = some e ∧ p.RealizedBy e

namespace Body

theorem Carries.tail {b : Body} {base : Nat} {p : PendingEntry} {code : List PendingEntry}
    (h : b.Carries base (p :: code)) : b.Carries (base + 1) code := by
  intro k q hq
  rw [show base + 1 + k = base + (k + 1) by omega]
  exact h (k + 1) q (by simpa using hq)

theorem Carries.right {b : Body} {base : Nat} {code code' : List PendingEntry}
    (h : b.Carries base (code ++ code')) : b.Carries (base + code.length) code' := by
  intro k q hq
  rw [Nat.add_assoc]
  refine h (code.length + k) q ?_
  rw [List.getElem?_append_right (Nat.le_add_right _ _), Nat.add_sub_cancel_left, hq]

theorem Carries.instruction? {b : Body} {base k : Nat} {code : List PendingEntry}
    {p : PendingEntry} (h : b.Carries base code) (hp : code[k]? = some p) :
    b.instruction? (base + k) = some p.instruction := by
  obtain ⟨e, he, hreal⟩ := h k p hp
  exact instruction?_eq_some_iff.mpr ⟨e, he, hreal.instruction⟩

/-- Where labels are distinct, a jump to a placed label leads to the entry that brought it. -/
theorem Carries.lastPlace {b : Body} {base k : Nat} {code : List PendingEntry} {p : PendingEntry}
    {l : Label} (h : b.Carries base code) (hb : b.labelList.Nodup) (hp : code[k]? = some p)
    (hl : p.label = some l) : b.LastPlace l (base + k) := by
  obtain ⟨e, he, hreal⟩ := h k p hp
  have hplace := lastPlace_of_nodup hb he
  rwa [hreal.label l hl] at hplace

theorem Carries.length_le {b : Body} {base : Nat} {code : List PendingEntry}
    (h : b.Carries base code) (hcode : code ≠ []) : base + code.length ≤ b.length := by
  have hpos : 0 < code.length := List.length_pos_iff.mpr hcode
  obtain ⟨e, he, -⟩ := h (code.length - 1) _ (List.getElem?_eq_getElem (by omega))
  have hlt : base + (code.length - 1) < b.entries.length := (List.getElem?_eq_some_iff.mp he).1
  unfold length
  omega

end Body

/-- A walk that goes forwards all the time. -/
structure Body.Advances (b : Body) (i : Nat) (run : List Nat) (j : Nat) : Prop where
  walk : b.Walk i run j
  ascending : run.Pairwise (· < ·)
  within : ∀ r ∈ run, i ≤ r ∧ r < j

namespace Body.Advances

variable {b : Body} {i j k : Nat} {run run' : List Nat}

theorem stay (i : Nat) : b.Advances i [] i := ⟨.stay i, .nil, by simp⟩

theorem single (h : b.Edge i j) (hlt : i < j) : b.Advances i [i] j :=
  ⟨.single h, List.pairwise_singleton _ _, by simpa using hlt⟩

theorem le (h : b.Advances i run j) : i ≤ j := by
  cases run with
  | nil =>
    obtain rfl := h.walk.eq_of_nil rfl
    exact Nat.le_refl i
  | cons r run =>
    have := h.within r List.mem_cons_self
    omega

theorem append (h : b.Advances i run j) (h' : b.Advances j run' k) :
    b.Advances i (run ++ run') k where
  walk := h.walk.append h'.walk
  ascending := by
    refine List.pairwise_append.mpr ⟨h.ascending, h'.ascending, fun r hr r' hr' => ?_⟩
    have := h.within r hr
    have := h'.within r' hr'
    omega
  within r hr := by
    have hle := h.le
    have hle' := h'.le
    rcases List.mem_append.mp hr with hr | hr
    · have := h.within r hr
      omega
    · have := h'.within r hr
      omega

/-- It does not come back to where it started. -/
theorem lt_of_mem_tail (h : b.Advances i run j) {r : Nat} (hr : r ∈ run.tail) : i < r := by
  cases run with
  | nil => simp at hr
  | cons first run =>
    have hfirst := h.within first List.mem_cons_self
    have hlt := (List.pairwise_cons.mp h.ascending).1 r hr
    omega

end Body.Advances

/-- An entry of a body can be run when a run has got so far. -/
structure Body.Safe (b : Body) (st : Progress) (x : Entry) : Prop where
  covered : x.instruction.effect.pop ≤ st.depth
  returns : x.instruction = .ret → st.depth ≤ 1
  known : ∀ l, x.instruction.target? = some l → ∃ j, b.LastPlace l j

namespace Track

variable {b : Body} {base : Nat} {st s : Progress} {code : List PendingEntry}
  {table : List Progress} {out : Option Progress}

/-- Code in a body does not misuse the stack, its jumps lead somewhere, and it never throws. -/
theorem safe (h : Track st code table out) (hb : b.labelList.Nodup) (hcode : b.Carries base code)
    {k : Nat} {x : Entry} (hk : table[k]? = some s) (hx : b.entries[base + k]? = some x) :
    b.Safe s x ∧ x.instruction ≠ .throw := by
  obtain ⟨p, hp, hcont⟩ := h.continues hk
  obtain ⟨x', hx', hreal⟩ := hcode k p hp
  obtain rfl : x = x' := Option.some_inj.mp (hx.symm.trans hx')
  rw [← hreal.instruction] at hcont
  refine ⟨⟨hcont.covered, hcont.returns, fun l hl => ?_⟩, hcont.throws⟩
  obtain ⟨k', p', -, hp', hlabel, -⟩ := hcont.jumps l hl
  exact ⟨base + k', hcode.lastPlace hb hp' hlabel⟩

/-- **A step of the body stays on the track**: it leads to a later instruction of the code, or
behind the last one. -/
theorem of_step (h : Track st code table out) (hb : b.labelList.Nodup) (hcode : b.Carries base code)
    {k j : Nat} (hk : table[k]? = some s) (hstep : b.Step (base + k) j) :
    ∃ p, code[k]? = some p
      ∧ ((∃ k', k < k' ∧ j = base + k' ∧ table[k']? = some (s.after p.instruction))
        ∨ (k + 1 = code.length ∧ j = base + code.length ∧ out = some (s.after p.instruction))) := by
  obtain ⟨p, hp, hcont⟩ := h.continues hk
  have hins := hcode.instruction? hp
  refine ⟨p, hp, ?_⟩
  -- the track says the same about the instruction at hand as the step does
  cases hstep with
  | @next ins at_i falls behind =>
    obtain rfl : p.instruction = ins := Option.some_inj.mp (hins.symm.trans at_i)
    rcases hcont.falls falls with hnext | ⟨hlast, hout⟩
    · exact .inl ⟨k + 1, by omega, by omega, hnext⟩
    · exact .inr ⟨hlast, by omega, hout⟩
  | @jump ins l at_i target lands =>
    obtain rfl : p.instruction = ins := Option.some_inj.mp (hins.symm.trans at_i)
    obtain ⟨k', p', hlt, hp', hl, hs⟩ := hcont.jumps l target
    exact .inl ⟨k', hlt, lands.unique (hcode.lastPlace hb hp' hl), hs⟩

/-- **The last instruction is reached**, by a run of the code before it, unless control never gets
behind the code. -/
theorem exists_advance {st' : Progress} (h : Track st code table (some st')) (hne : code ≠ [])
    (hb : b.labelList.Nodup) (hcode : b.Carries base code) :
    ∃ run, b.Advances base run (base + (code.length - 1))
      ∧ ∃ p, code[code.length - 1]? = some p ∧ p.instruction.fallsThrough = true := by
  generalize hout : some st' = out at h
  induction h generalizing base with
  | nil => contradiction
  | @step st p rest table out flow covered track ih =>
    have hins := hcode.instruction? (k := 0) (p := p) rfl
    have hfalls : p.instruction.fallsThrough = true := by simp [Instruction.fallsThrough, flow]
    by_cases hrest : rest = []
    · subst hrest
      exact ⟨[], .stay base, p, rfl, hfalls⟩
    · have hle := hcode.length_le hne
      have hpos : 0 < rest.length := List.length_pos_iff.mpr hrest
      simp only [List.length_cons] at hle
      -- one edge ahead, and then the rest, which stands one place further on
      have hedge : b.Edge base (base + 1) := .next hins hfalls rfl (by omega)
      obtain ⟨run, hadvance, q, hq, hqfalls⟩ := ih hrest hcode.tail hout
      have hlast : base + 1 + (rest.length - 1) = base + (rest.length + 1 - 1) := by omega
      rw [hlast] at hadvance
      refine ⟨[base] ++ run, (Body.Advances.single hedge (by omega)).append hadvance, q, ?_,
        hqfalls⟩
      simp only [List.length_cons, Nat.add_sub_cancel]
      rw [show rest.length = rest.length - 1 + 1 by omega, List.getElem?_cons_succ]
      exact hq
  | leave => contradiction
  | @skip st p q expected l skipped rest table table' out branches covered inner resumes track ih
      ih' =>
    have hins := hcode.instruction? (k := 0) (p := p) rfl
    have hright : b.Carries (base + (p :: skipped).length) (q :: rest) := hcode.right
    rw [List.length_cons] at hright
    have htarget : p.instruction.target? = some l := by
      simp [branches, Instruction.target?, Instruction.flow]
    have hplace : b.LastPlace l (base + (skipped.length + 1)) :=
      hright.lastPlace (k := 0) hb rfl resumes
    -- the run jumps over what may be skipped, as that leads out of the method
    have hedge : b.Edge base (base + (skipped.length + 1)) := .jump hins htarget hplace
    obtain ⟨run, hadvance, q', hq', hqfalls⟩ := ih' (by simp) hright hout
    simp only [List.length_cons, Nat.add_sub_cancel] at hadvance hq'
    have hlast : base + (skipped.length + 1) + rest.length
        = base + ((p :: (skipped ++ q :: rest)).length - 1) := by
      simp only [List.length_cons, List.length_append, Nat.add_sub_cancel]
      omega
    rw [hlast] at hadvance
    refine ⟨[base] ++ run, (Body.Advances.single hedge (by omega)).append hadvance, q', ?_, hqfalls⟩
    simp only [List.length_cons, List.length_append, Nat.add_sub_cancel]
    rw [show skipped.length + (rest.length + 1) = skipped.length + rest.length + 1 by omega,
      List.getElem?_cons_succ, List.getElem?_append_right (by omega), Nat.add_sub_cancel_left]
    exact hq'

/-- So control gets behind the code, if there is anything behind it. -/
theorem exists_advance_behind {st' : Progress} (h : Track st code table (some st'))
    (hb : b.labelList.Nodup) (hcode : b.Carries base code)
    (hinside : base + code.length < b.length) :
    ∃ run, b.Advances base run (base + code.length) := by
  by_cases hne : code = []
  · subst hne
    exact ⟨[], .stay base⟩
  · obtain ⟨run, hadvance, p, hp, hfalls⟩ := h.exists_advance hne hb hcode
    have hpos : 0 < code.length := List.length_pos_iff.mpr hne
    have hbehind : base + code.length = base + (code.length - 1) + 1 := by omega
    have hedge : b.Edge (base + (code.length - 1)) (base + code.length) :=
      .next (hcode.instruction? hp) hfalls hbehind hinside
    exact ⟨_, hadvance.append (.single hedge (by omega))⟩

end Track

end PatchWeaver

/-
  PatchWeaver.Proofs.Redirection
  ──────────────────────────────
  **WHAT BECOMES OF A BODY THAT IS COPIED ONTO A CLASS.**

  A copy differs from the body of the mixin method in what it refers to:

      call of a copied method          its copy on the class
      call of any other shadow method  the method of the class
      access of a shadow field         the field of the class
      anything else                    stays

  A member that takes the place of another has its descriptor and its
  staticness, so an instruction takes and leaves as many values as before
  and hands control on to the same labels.  The depths of a body depend on
  nothing else: they are computed from the labels of its entries and from
  the effect and the flow of each instruction.  Hence the copy has the
  depths of the original, or fails to have any for the same reason.

  Main results:
    * `Body.depths_congr` — the depths of bodies that run alike.
    * `redirectInstruction_eq_ok_iff`, `redirectInstruction_fails_iff` — what
      redirecting an instruction comes to.
    * `redirectBody_keeps_depths` — what redirecting a body comes to.
-/
import PatchWeaver.Proofs.Copies

namespace PatchWeaver

/-! ## §1. Bodies that run alike. -/

/-- Entries that neither a jump nor the analysis of depths can tell apart. -/
structure Entry.RunsLike (e e' : Entry) : Prop where
  label_eq : e'.label = e.label
  effect_eq : e'.instruction.effect = e.instruction.effect
  flow_eq : e'.instruction.flow = e.instruction.flow

namespace Body

/-- With nothing in the queue, the depths found are those of the body. -/
theorem explore_of_nil (b : Body) {f : Frontier} (hq : f.queue = []) :
    b.explore f = .ok f.depths := by
  unfold explore
  split
  · rfl
  · next hq' => rw [hq] at hq'; contradiction

/-- The analysis handles the head of the queue and goes on with what that leads to. -/
theorem explore_of_cons (b : Body) {f : Frontier} {index : Nat} {rest : List Nat}
    (hq : f.queue = index :: rest) :
    b.explore f = b.handle index { f with queue := rest } >>= b.explore := by
  conv => lhs; unfold explore
  split
  · next hq' => rw [hq] at hq'; contradiction
  · next hq' =>
    obtain ⟨rfl, rfl⟩ := List.cons.inj (hq'.symm.trans hq)
    split <;> next hg => rw [hg]; rfl

/-- Bodies whose entries run alike, one by one. -/
def RunsLike (b b' : Body) : Prop := List.Forall₂ Entry.RunsLike b.entries b'.entries

namespace RunsLike

variable {b b' : Body} (h : b.RunsLike b')

include h

theorem length_eq : b'.length = b.length := (List.Forall₂.length_eq h).symm

/-- A jump goes to the same place. -/
theorem position?_eq (l : Label) : b'.position? l = b.position? l := by
  have hlast : ∀ index, lastPosition? l b'.entries index = lastPosition? l b.entries index := by
    unfold RunsLike at h
    generalize b.entries = entries at h
    generalize b'.entries = entries' at h
    induction h with
    | nil => exact fun _ => rfl
    | cons he _ ih =>
      intro index
      unfold lastPosition?
      rw [ih, he.label_eq]
  exact hlast 0

/-- The instructions at a position have one effect and one flow. -/
theorem instruction? (index : Nat) :
    Option.Rel (fun i i' : Instruction => i'.effect = i.effect ∧ i'.flow = i.flow)
      (b.instruction? index) (b'.instruction? index) := by
  unfold Body.instruction?
  by_cases hlt : index < b.length
  · have hlt' : index < b'.length := h.length_eq ▸ hlt
    have he := List.Forall₂.get h hlt hlt'
    rw [List.getElem?_eq_getElem hlt, List.getElem?_eq_getElem hlt']
    exact .some ⟨he.effect_eq, he.flow_eq⟩
  · have hlt' : ¬ index < b'.length := h.length_eq ▸ hlt
    rw [List.getElem?_eq_none (Nat.le_of_not_lt hlt), List.getElem?_eq_none (Nat.le_of_not_lt hlt')]
    exact .none

theorem follow_eq {i i' : Instruction} (hflow : i'.flow = i.flow) (index depth : Nat)
    (f : Frontier) : b'.follow index i' depth f = b.follow index i depth f := by
  unfold follow resolve
  simp only [hflow, h.position?_eq]

theorem handle_eq (index : Nat) (f : Frontier) : b'.handle index f = b.handle index f := by
  have hins := h.instruction? index
  unfold handle
  generalize b.instruction? index = o at hins ⊢
  generalize b'.instruction? index = o' at hins ⊢
  cases hins with
  | none => rfl
  | @some i i' hi =>
    obtain ⟨heffect, hflow⟩ := hi
    cases f.depths.at? index with
    | none => rfl
    | some depth => simp only [Instruction.depthAfter, heffect, h.follow_eq hflow]

theorem explore_eq (f : Frontier) : b'.explore f = b.explore f := by
  fun_induction explore b f with
  | case1 f hq => exact b'.explore_of_nil hq
  | case2 f index rest hq e hg =>
    rw [b'.explore_of_cons hq, h.handle_eq, hg]
    rfl
  | case3 f index rest hq g hg ih =>
    rw [b'.explore_of_cons hq, h.handle_eq, hg]
    exact ih

/-- **Bodies that run alike have the same depths**, or fail to have any for the same reason. -/
theorem depths_eq : b'.depths = b.depths := by
  unfold depths initialFrontier
  rw [h.explore_eq, h.length_eq]

end RunsLike

end Body

/-! ## §2. What redirecting an instruction comes to. -/

/-- Whether an instruction uses a member that a copy finds elsewhere. -/
def Instruction.UsesMixin (mixin : MixinInfo) : Instruction → Prop
  | .invoke _ callee => callee ∈ mixin.copied ∨ callee ∈ mixin.shadowMethods
  | .getField field | .putField field => field ∈ mixin.shadowFields
  | _ => False

/-- What an instruction of a mixin method is in a copy on a class. -/
inductive Redirects (program : Program) (mixin : MixinInfo) (owner : ClassName) :
    Instruction → Instruction → Prop where
  /-- A copied method is called as its copy, also if it is a shadow as well. -/
  | copied {kind : CallKind} {callee : MethodRef} (hcopied : callee ∈ mixin.copied) :
      Redirects program mixin owner (.invoke kind callee)
        (.invoke kind (mixin.copyRef owner callee))
  | shadowMethod {kind : CallKind} {callee : MethodRef} (hcopied : callee ∉ mixin.copied)
      (hshadow : callee ∈ mixin.shadowMethods)
      (hdeclared : program.hasMethod (callee.onClass owner) = true) :
      Redirects program mixin owner (.invoke kind callee) (.invoke kind (callee.onClass owner))
  | shadowRead {field : FieldRef} (hshadow : field ∈ mixin.shadowFields)
      (hdeclared : program.hasField (field.onClass owner) = true) :
      Redirects program mixin owner (.getField field) (.getField (field.onClass owner))
  | shadowWrite {field : FieldRef} (hshadow : field ∈ mixin.shadowFields)
      (hdeclared : program.hasField (field.onClass owner) = true) :
      Redirects program mixin owner (.putField field) (.putField (field.onClass owner))
  | kept {i : Instruction} (huses : ¬ i.UsesMixin mixin) : Redirects program mixin owner i i

/-- An instruction uses a shadow that has no counterpart on the class. -/
def Instruction.LacksCounterpart (program : Program) (mixin : MixinInfo) (owner : ClassName) :
    Instruction → Prop
  | .invoke _ callee => callee ∉ mixin.copied ∧ callee ∈ mixin.shadowMethods
    ∧ program.hasMethod (callee.onClass owner) = false
  | .getField field | .putField field => field ∈ mixin.shadowFields
    ∧ program.hasField (field.onClass owner) = false
  | _ => False

section

variable {program : Program} {mixin : MixinInfo} {owner : ClassName}

variable (program mixin owner) in
/-- A call is redirected, or its callee has no counterpart on the class. -/
theorem redirectCall_cases (kind : CallKind) (callee : MethodRef) :
    (∃ callee', redirectCall program mixin owner callee = .ok callee'
        ∧ Redirects program mixin owner (.invoke kind callee) (.invoke kind callee')
        ∧ ¬ (Instruction.invoke kind callee).LacksCounterpart program mixin owner)
      ∨ redirectCall program mixin owner callee = .error (.missingShadowMethod callee owner)
        ∧ (Instruction.invoke kind callee).LacksCounterpart program mixin owner := by
  unfold redirectCall
  by_cases hcopied : callee ∈ mixin.copied
  · rw [if_pos hcopied]
    exact .inl ⟨_, rfl, .copied hcopied, fun hlacks => hlacks.1 hcopied⟩
  · rw [if_neg hcopied]
    by_cases hshadow : callee ∈ mixin.shadowMethods
    · rw [if_pos hshadow]
      cases hdeclared : program.hasMethod (callee.onClass owner) with
      | true =>
        refine .inl ⟨_, rfl, .shadowMethod hcopied hshadow hdeclared, fun hlacks => ?_⟩
        exact absurd hdeclared (by simp [hlacks.2.2])
      | false => exact .inr ⟨rfl, hcopied, hshadow, hdeclared⟩
    · rw [if_neg hshadow]
      refine .inl ⟨_, rfl, .kept ?_, fun hlacks => hshadow hlacks.2.1⟩
      rintro (huses | huses)
      · exact hcopied huses
      · exact hshadow huses

variable (program mixin owner) in
/-- An access finds the field of the class in place of a shadow, or there is none. -/
theorem redirectField_cases (field : FieldRef) :
    field ∉ mixin.shadowFields ∧ redirectField program mixin owner field = .ok field
      ∨ field ∈ mixin.shadowFields ∧ program.hasField (field.onClass owner) = true
        ∧ redirectField program mixin owner field = .ok (field.onClass owner)
      ∨ field ∈ mixin.shadowFields ∧ program.hasField (field.onClass owner) = false
        ∧ redirectField program mixin owner field = .error (.missingShadowField field owner) := by
  unfold redirectField
  by_cases hshadow : field ∈ mixin.shadowFields
  · cases hdeclared : program.hasField (field.onClass owner) <;> simp [hshadow]
  · simp [hshadow]

variable (program mixin owner) in
/-- **An instruction is redirected, or it lacks a counterpart.** -/
theorem redirectInstruction_cases (i : Instruction) :
    (∃ i', redirectInstruction program mixin owner i = .ok i' ∧ Redirects program mixin owner i i'
        ∧ ¬ i.LacksCounterpart program mixin owner)
      ∨ (∃ e, redirectInstruction program mixin owner i = .error e)
        ∧ i.LacksCounterpart program mixin owner := by
  cases i with
  | invoke kind callee =>
    rcases redirectCall_cases program mixin owner kind callee
      with ⟨callee', h, hredirects, hlacks⟩ | ⟨h, hlacks⟩
    · exact .inl ⟨_, by simp only [redirectInstruction, h]; rfl, hredirects, hlacks⟩
    · exact .inr ⟨⟨_, by simp only [redirectInstruction, h]; rfl⟩, hlacks⟩
  | getField field =>
    rcases redirectField_cases program mixin owner field
      with ⟨hshadow, h⟩ | ⟨hshadow, hdeclared, h⟩ | ⟨hshadow, hmissing, h⟩
    · exact .inl ⟨_, by simp only [redirectInstruction, h]; rfl, .kept hshadow,
        fun hlacks => hshadow hlacks.1⟩
    · exact .inl ⟨_, by simp only [redirectInstruction, h]; rfl, .shadowRead hshadow hdeclared,
        fun hlacks => absurd hdeclared (by simp [hlacks.2])⟩
    · exact .inr ⟨⟨_, by simp only [redirectInstruction, h]; rfl⟩, hshadow, hmissing⟩
  | putField field =>
    rcases redirectField_cases program mixin owner field
      with ⟨hshadow, h⟩ | ⟨hshadow, hdeclared, h⟩ | ⟨hshadow, hmissing, h⟩
    · exact .inl ⟨_, by simp only [redirectInstruction, h]; rfl, .kept hshadow,
        fun hlacks => hshadow hlacks.1⟩
    · exact .inl ⟨_, by simp only [redirectInstruction, h]; rfl, .shadowWrite hshadow hdeclared,
        fun hlacks => absurd hdeclared (by simp [hlacks.2])⟩
    · exact .inr ⟨⟨_, by simp only [redirectInstruction, h]; rfl⟩, hshadow, hmissing⟩
  | _ => exact .inl ⟨_, rfl, .kept id, id⟩

theorem redirectInstruction_fails_iff {i : Instruction} :
    (∃ e, redirectInstruction program mixin owner i = .error e)
      ↔ i.LacksCounterpart program mixin owner := by
  rcases redirectInstruction_cases program mixin owner i
    with ⟨i', h, -, hlacks⟩ | ⟨h, hlacks⟩
  · refine iff_of_false ?_ hlacks
    rintro ⟨e, he⟩
    rw [h] at he
    contradiction
  · exact iff_of_true h hlacks

theorem redirects_of_redirectInstruction {i i' : Instruction}
    (h : redirectInstruction program mixin owner i = .ok i') :
    Redirects program mixin owner i i' := by
  rcases redirectInstruction_cases program mixin owner i
    with ⟨i'', h', hredirects, -⟩ | ⟨⟨e, h'⟩, -⟩
  · obtain rfl := Except.ok.inj (h.symm.trans h')
    exact hredirects
  · rw [h] at h'
    contradiction

namespace Redirects

variable {i i' : Instruction}

/-- The member that takes the place of another takes and leaves as many values. -/
theorem effect_eq (h : Redirects program mixin owner i i') : i'.effect = i.effect := by
  cases h <;> rfl

theorem flow_eq (h : Redirects program mixin owner i i') : i'.flow = i.flow := by
  cases h <;> rfl

theorem target?_eq (h : Redirects program mixin owner i i') : i'.target? = i.target? := by
  unfold Instruction.target?
  rw [h.flow_eq]

end Redirects

end

/-! ## §3. What redirecting a body comes to. -/

/-- What an entry of a mixin method is in a copy on a class. -/
structure Entry.RedirectedTo (program : Program) (mixin : MixinInfo) (owner : ClassName)
    (e e' : Entry) : Prop where
  label_eq : e'.label = e.label
  origin_eq : e'.origin = e.origin
  target?_eq : e'.instruction.target? = e.instruction.target?
  effect_eq : e'.instruction.effect = e.instruction.effect
  redirects : Redirects program mixin owner e.instruction e'.instruction

theorem Entry.RedirectedTo.runsLike {program : Program} {mixin : MixinInfo} {owner : ClassName}
    {e e' : Entry} (h : e.RedirectedTo program mixin owner e') : e.RunsLike e' :=
  ⟨h.label_eq, h.effect_eq, h.redirects.flow_eq⟩

section

variable {program : Program} {mixin : MixinInfo} {owner : ClassName} {body : Body}

theorem redirectBody_fails_iff :
    (∃ e, redirectBody program mixin owner body = .error e)
      ↔ ∃ entry ∈ body.entries, entry.instruction.LacksCounterpart program mixin owner := by
  unfold redirectBody
  simp only [exists_bind_pure_error_iff, exists_mapM_error_iff, redirectInstruction_fails_iff]

theorem exists_of_redirectBody {copy : Body}
    (h : redirectBody program mixin owner body = .ok copy) :
    copy.locals = body.locals
      ∧ List.Forall₂ (Entry.RedirectedTo program mixin owner) body.entries copy.entries := by
  obtain ⟨entries, hentries, hcopy⟩ := bind_eq_ok_iff.mp h
  obtain rfl := Except.ok.inj hcopy
  refine ⟨rfl, (forall₂_of_mapM hentries).imp fun e e' he => ?_⟩
  obtain ⟨i, hi, he'⟩ := bind_eq_ok_iff.mp he
  obtain rfl := Except.ok.inj he'
  have hredirects := redirects_of_redirectInstruction hi
  exact ⟨rfl, rfl, hredirects.target?_eq, hredirects.effect_eq, hredirects⟩

end

/-- **A copy differs from the body copied in the members it refers to, and in nothing else.** It
cannot be made exactly if a shadow that the body uses has no counterpart on the class; otherwise it
has the same locals and depths, and its entries are those of the body, pointed at the class. -/
theorem redirectBody_keeps_depths (program : Program) (mixin : MixinInfo) (owner : ClassName)
    (body : Body) :
    ((∃ e, redirectBody program mixin owner body = .error e)
        ↔ ∃ entry ∈ body.entries, entry.instruction.LacksCounterpart program mixin owner)
      ∧ ∀ copy, redirectBody program mixin owner body = .ok copy →
        copy.locals = body.locals
          ∧ List.Forall₂ (Entry.RedirectedTo program mixin owner) body.entries copy.entries
          ∧ copy.depths = body.depths := by
  refine ⟨redirectBody_fails_iff, fun copy h => ?_⟩
  obtain ⟨hlocals, hentries⟩ := exists_of_redirectBody h
  have hruns : body.RunsLike copy := hentries.imp fun _ _ he => he.runsLike
  exact ⟨hlocals, hentries, hruns.depths_eq⟩

end PatchWeaver

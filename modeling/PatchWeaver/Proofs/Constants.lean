/-
  PatchWeaver.Proofs.Constants
  ────────────────────────────
  **WHERE THE CONSTANTS OF WOVEN CODE COME FROM.**

  Code of a run pushes constants in three places only:

      callback     an integer, which says whether the patch may cancel
      marker       a text
      call         the constant of the instruction that the patch modifies

  So whatever holds of the constants of a program, of all integers and of all
  texts holds of the constants of the woven program (`Ordinary`): a run
  invents no constant of its own.  A copy has the constants of the method
  that it was made of.

  Main results:
    * `pushesOnly_of_container`, `Puts.pushesOnly` — one instruction.
    * `pushesOnly_of_weave` — a program and what it is woven into.
-/
import PatchWeaver.Proofs.Growth

namespace PatchWeaver

/-! ## §1. Constants of code. -/

/-- The constant that an instruction pushes, if it pushes one, is of some kind. -/
def Instruction.PushesOnly (kind : Constant → Prop) (i : Instruction) : Prop :=
  ∀ c ∈ i.constant?, kind c

/-- The constants of code that waits for its labels are of some kind. -/
def PushesOnly (kind : Constant → Prop) (code : List PendingEntry) : Prop :=
  ∀ p ∈ code, p.instruction.PushesOnly kind

/-- The constants of a body are of some kind. -/
def Body.PushesOnly (kind : Constant → Prop) (b : Body) : Prop :=
  ∀ e ∈ b.entries, e.instruction.PushesOnly kind

/-- The constants of a program are of some kind. -/
def Program.PushesOnly (kind : Constant → Prop) (p : Program) : Prop :=
  ∀ x ∈ p.bodies, x.2.PushesOnly kind

instance (kind : Constant → Prop) [DecidablePred kind] (p : Program) :
    Decidable (p.PushesOnly kind) :=
  inferInstanceAs (Decidable (∀ x ∈ p.bodies, ∀ e ∈ x.2.entries,
    ∀ c ∈ e.instruction.constant?, kind c))

/-- A kind of constants to which the constants belong that a run makes: integers and texts. -/
structure Ordinary (kind : Constant → Prop) : Prop where
  int : ∀ value, kind (.int value)
  string : ∀ value, kind (.string value)

namespace Instruction

variable {kind : Constant → Prop}

theorem pushesOnly_push {c : Constant} (h : kind c) : PushesOnly kind (.push c) := by
  intro c' hc'
  obtain rfl := Option.some_inj.mp hc'
  exact h

theorem pushesOnly_silent {i : Instruction} (h : i.constant? = none) : i.PushesOnly kind := by
  intro c hc
  rw [h] at hc
  contradiction

@[simp]
theorem constant?_retarget (old new : Label) (i : Instruction) :
    (i.retarget old new).constant? = i.constant? := by
  unfold retarget
  split
  · cases i <;> rfl
  · rfl

end Instruction

/-! ## §2. Containers. -/

theorem PushesOnly.append {kind : Constant → Prop} {code code' : List PendingEntry}
    (h : PushesOnly kind code) (h' : PushesOnly kind code') : PushesOnly kind (code ++ code') :=
  List.forall_mem_append.mpr ⟨h, h'⟩

namespace Splicer

variable {kind : Constant → Prop} {s : Splicer} {site : Site} {block : Block} {w : Workbench}
  {out : Block × Workbench}

/-- The code of a patch pushes ordinary constants, and that of the instruction at hand. -/
theorem pushesOnly_of_made {site : Instruction} {copy : MethodRef} {i : Instruction}
    (hkind : Ordinary kind) (hsite : site.PushesOnly kind) (h : Instruction.MadeFor site copy i) :
    i.PushesOnly kind := by
  cases h with
  | plain _ _ hconstant => exact Instruction.pushesOnly_silent hconstant
  | support _ _ _ hconstant => exact Instruction.pushesOnly_silent hconstant
  | call => exact Instruction.pushesOnly_silent rfl
  | flag value => exact Instruction.pushesOnly_push (hkind.int value)
  | @constant c pushed => exact Instruction.pushesOnly_push (hsite c (by rw [pushed]; rfl))

/-- A marker pushes a text, if anything. -/
theorem pushesOnly_marker (hkind : Ordinary kind) (origin : Origin) (text : String) :
    PushesOnly kind (unlabelled origin (s.markerInstructions text)) := by
  intro p hp
  obtain ⟨i, hi, rfl⟩ := List.mem_map.mp hp
  rcases eq_of_mem_markerInstructions hi with rfl | rfl | rfl
  · exact Instruction.pushesOnly_silent rfl
  · exact Instruction.pushesOnly_push (hkind.string text)
  · exact Instruction.pushesOnly_silent rfl

/-- What is appended to a block stands behind its entries. -/
theorem pushesOnly_of_extend {other appended : Block} (h : block.extend other = .ok appended)
    (hblock : PushesOnly kind block.entries) (hother : PushesOnly kind other.entries) :
    PushesOnly kind appended.entries := by
  unfold Block.extend at h
  split at h
  · contradiction
  · split at h
    · obtain rfl := Except.ok.inj h
      exact hblock
    · contradiction
  · obtain rfl := Except.ok.inj h
    exact hblock.append hother

section

variable (hkind : Ordinary kind) (hsite : site.instruction.PushesOnly kind)

include hkind hsite

theorem pushesOnly_of_appendPatch {id : PatchId} (hblock : PushesOnly kind block.entries)
    (h : s.appendPatch site (block, w) id = .ok out) : PushesOnly kind out.1.entries := by
  obtain ⟨patch, copy, made, -, -, hemit, hextend⟩ := steps_of_appendPatch h
  exact pushesOnly_of_extend hextend hblock fun p hp =>
    pushesOnly_of_made hkind hsite (made_of_emit hemit p hp)

theorem pushesOnly_of_appendPatches {ids : List PatchId} (hblock : PushesOnly kind block.entries)
    (h : ids.foldlM (s.appendPatch site) (block, w) = .ok out) :
    PushesOnly kind out.1.entries := by
  induction ids generalizing block w with
  | nil =>
    obtain rfl : (block, w) = out := Except.ok.inj h
    exact hblock
  | cons id ids ih =>
    rw [List.foldlM_cons] at h
    obtain ⟨⟨block', w'⟩, hfirst, hrest⟩ := bind_eq_ok_iff.mp h
    exact ih (pushesOnly_of_appendPatch hkind hsite hblock hfirst) hrest

/-- The replacing patch, or else the instruction itself, whose constant is of the kind. -/
theorem pushesOnly_of_appendReplacement {kept : Entry} {replace : Option PatchId}
    (hkept : kept.instruction.PushesOnly kind) (hblock : PushesOnly kind block.entries)
    (h : s.appendReplacement site kept (block, w) replace = .ok out) :
    PushesOnly kind out.1.entries := by
  cases replace with
  | some id => exact pushesOnly_of_appendPatch hkind hsite hblock h
  | none =>
    obtain ⟨appended, hpush, h⟩ := bind_eq_ok_iff.mp h
    obtain rfl := Except.ok.inj h
    have hpush := liftMachine_eq_ok_iff.mp hpush
    unfold Block.pushEntry at hpush
    split at hpush
    · contradiction
    · obtain rfl := Except.ok.inj hpush
      exact hblock.append (List.forall_mem_singleton.mpr hkept)

/-- **A container** pushes ordinary constants and that of the instruction at hand. -/
theorem pushesOnly_of_container {kept : Entry} {plan : SitePlan} {body : Body}
    (hkept : kept.instruction.PushesOnly kind) (h : s.container site kept plan body = .ok out) :
    PushesOnly kind out.1.entries := by
  obtain ⟨block₁, w₁, block₂, w₂, block₃, hbefore, hreplace, hafter, hclosed⟩ :=
    steps_of_container h
  -- the patches before, the replacement and the patches after, each onto the block so far
  have hblock₁ := pushesOnly_of_appendPatches hkind hsite (pushesOnly_marker hkind _ _) hbefore
  have hblock₂ := pushesOnly_of_appendReplacement hkind hsite hkept hblock₁ hreplace
  have hblock₃ := pushesOnly_of_appendPatches hkind hsite hblock₂ hafter
  exact pushesOnly_of_extend hclosed hblock₃ (pushesOnly_marker hkind _ _)

end

/-! ## §3. Bodies. -/

variable {method : MethodRef} {b c : Body}

/-- **One step** leaves a body with the constants that it had, and with ordinary ones. -/
theorem Puts.pushesOnly {depth : Nat} {plan : SitePlan} {step : SpliceStep} (hkind : Ordinary kind)
    (hb : b.PushesOnly kind) (h : s.Puts method depth plan b step c) : c.PushesOnly kind := by
  cases h with
  | @container front rest entries kept before after mid w drawn _ hbody hmade _ _ hassign first =>
    have hkept : kept.instruction.PushesOnly kind := hb kept (by simp [hbody])
    have hcode := pushesOnly_of_container hkind hkept hkept hmade
    have hreal := Block.realizes_assignLabels (s.containerCode plan kept before after) w.body
    rw [hassign] at hreal
    intro e he
    obtain ⟨e', he', rfl⟩ := List.mem_map.mp he
    show Instruction.PushesOnly kind (e'.instruction.retarget kept.label first)
    unfold Instruction.PushesOnly
    rw [Instruction.constant?_retarget]
    rcases List.mem_append.mp he' with hold | hbehind
    · rcases List.mem_append.mp hold with hfront | hnew
      · exact hb e' (by simp [hbody, hfront])
      · -- a finished block has the instructions that it had before
        obtain ⟨p, hp, hrealized⟩ := hreal.exists_mem hnew
        rw [hrealized.instruction]
        exact hcode p hp
    · exact hb e' (by simp [hbody, hbehind])

/-- What splicing does to the constants of the body of a method. -/
theorem Weaves.pushesOnly {program : Program} {selected : MethodRef × Offsets} {run : SpliceRun}
    {woven : Body} (hkind : Ordinary kind) (h : s.Weaves program selected run woven) :
    ∃ body, program.body? selected.1 = some body
      ∧ (body.PushesOnly kind → woven.PushesOnly kind) := by
  obtain ⟨body, hbody, hpreserves⟩ := h.preserves
  exact ⟨body, hbody, hpreserves fun hb hstep => (puts_of_spliceAt hstep).1.pushesOnly hkind hb⟩

end Splicer

/-! ## §4. Programs. -/

section

variable {kind : Constant → Prop}

/-- Sending a member access elsewhere pushes no constant. -/
theorem pushesOnly_of_redirectInstruction {program : Program} {mixin : MixinInfo}
    {owner : ClassName} {i i' : Instruction}
    (h : redirectInstruction program mixin owner i = .ok i') (hi : i.PushesOnly kind) :
    i'.PushesOnly kind := by
  rcases of_redirectInstruction h with rfl | ⟨_, _, _, -, -, rfl⟩ | ⟨_, _, -, ⟨-, rfl⟩ | ⟨-, rfl⟩⟩
  · exact hi
  · exact Instruction.pushesOnly_silent rfl
  · exact Instruction.pushesOnly_silent rfl
  · exact Instruction.pushesOnly_silent rfl

/-- A copy has the constants of the method that it was made of. -/
theorem pushesOnly_of_redirectBody {program : Program} {mixin : MixinInfo} {owner : ClassName}
    {body copy : Body} (h : redirectBody program mixin owner body = .ok copy)
    (hbody : body.PushesOnly kind) : copy.PushesOnly kind := by
  intro e' he'
  obtain ⟨e, he, hredirects⟩ := exists_of_forall₂ (forall₂_of_redirectBody h).1.flip he'
  exact pushesOnly_of_redirectInstruction hredirects.instruction (hbody e he)

/-- **A run makes ordinary constants only**: if the constants of a program are of a kind to which
all integers and texts belong, so are those of the program that a successful run leads to. -/
theorem pushesOnly_of_weave {w : Weaver} {program : Program} {mixins : List Mixin}
    {report : WeaveReport} (hkind : Ordinary kind) (hruns : HasRun w program)
    (hprogram : program.PushesOnly kind) (h : (w.weave program mixins).outcome = .ok report) :
    (w.weave program mixins).program.PushesOnly kind := by
  obtain ⟨t, hmade, -, hgrows⟩ := exists_copies_of_weave hruns h
  have hkeeps := hgrows (fun b c => b.PushesOnly kind → c.PushesOnly kind) (fun _ hb => hb)
    fun selected run woven hweaves => hweaves.pushesOnly hkind
  rintro ⟨m, c⟩ hc
  rcases hkeeps.exists_of_mem_bodies hc with ⟨b, hb, hbecomes⟩ | ⟨d, hd, hbody⟩
  · exact hbecomes (hprogram (m, b) hb)
  · obtain ⟨copy, hcopy, -, -, hcopied⟩ := exists_copy_of_declarationsOn hd
    obtain rfl : copy.body = c := Option.some_inj.mp (hcopied.symm.trans hbody)
    obtain ⟨place, -, hgets⟩ := hmade.exists_place hcopy
    obtain ⟨body, hold, hredirect⟩ := hgets.body_eq
    exact pushesOnly_of_redirectBody hredirect (hprogram _ (Program.mem_bodies hold))

end

end PatchWeaver

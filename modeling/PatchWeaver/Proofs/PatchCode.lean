/-
  PatchWeaver.Proofs.PatchCode
  ────────────────────────────
  **THE CODE OF A PATCH IN ITS PLACE.**

  Making the code of an applicable patch succeeds, and what is made calls
  the copy once and fits the place that it is meant for:

      before     d values before it, d values behind it
      replace    what the instruction would leave behind it
      after      d values before it, d values behind it

  All of it is injected, it jumps nowhere but to labels of its own, and
  those were drawn while it was made.  So codes can be put behind one
  another (`Emits.append`), and a list of patches is called in its order.

  Main results:
    * `emit_eq_ok_iff` — what a patch can be turned into (`Emission`).
    * `emit_of_applies` — the code of one patch.
    * `exists_emits_patches` — the code of a list of patches.
-/
import PatchWeaver.Proofs.Tracks
import PatchWeaver.Proofs.Validation

namespace PatchWeaver

/-! ## §1. Blocks. -/

namespace Block

theorem pushAll_of_not_waiting {b : Block} (h : b.waiting = none) (code : List Instruction) :
    b.pushAll code = { b with entries := b.entries ++ unlabelled b.origin code } := by
  induction code generalizing b with
  | nil =>
    show b = _
    simp [unlabelled]
  | cons i code ih =>
    show (b.push i).pushAll code = _
    rw [ih rfl]
    simp [push, unlabelled, h]

theorem empty_pushAll (origin : Origin) (code : List Instruction) :
    (empty origin).pushAll code = ⟨origin, unlabelled origin code, none⟩ :=
  pushAll_of_not_waiting rfl code

/-- A block without a waiting label can be appended to another one. -/
theorem extend_of_not_waiting {b other : Block} (h : b.waiting = none) (h' : other.waiting = none) :
    b.extend other = .ok { b with entries := b.entries ++ other.entries } := by
  simp [extend, h, h']

end Block

/-! ## §2. Code made for patches. -/

/-- Code that was made while a workbench changed to another one, and that takes a run from one
progress to another. -/
structure Emits (w w' : Workbench) (code : List PendingEntry) (st st' : Progress) : Prop where
  injected : ∀ p ∈ code, p.origin = .injected
  tracked : ∃ table, Track st code table (some st')
  grows : w.body.Extends w'.body
  drawn : Drawn w.body.nextId w'.body.nextId (placedLabels code)

namespace Emits

theorem nil (w : Workbench) (st : Progress) : Emits w w [] st st where
  injected := by simp
  tracked := ⟨[], .nil st⟩
  grows := .refl w.body
  drawn := .nil _ _

/-- Codes made one after another can be put behind one another. -/
theorem append {w w' w'' : Workbench} {code code' : List PendingEntry} {st st' st'' : Progress}
    (h : Emits w w' code st st') (h' : Emits w' w'' code' st' st'') :
    Emits w w'' (code ++ code') st st'' where
  injected := by
    intro p hp
    rcases List.mem_append.mp hp with hp | hp
    · exact h.injected p hp
    · exact h'.injected p hp
  tracked := by
    obtain ⟨table, htrack⟩ := h.tracked
    obtain ⟨table', htrack'⟩ := h'.tracked
    exact ⟨table ++ table', htrack.append rfl htrack'⟩
  grows := h.grows.trans h'.grows
  drawn := by
    rw [placedLabels_append]
    exact h.drawn.append h'.drawn h.grows.nextId_le h'.grows.nextId_le

end Emits

/-- Code without jumps. -/
theorem emits_of_run {w w' : Workbench} {st st' : Progress} {code : List Instruction}
    (hrun : st.run code = some st') (hgrows : w.body.Extends w'.body) :
    Emits w w' (unlabelled .injected code) st st' where
  injected := by
    intro p hp
    obtain ⟨i, -, rfl⟩ := List.mem_map.mp hp
    rfl
  tracked := Track.of_run hrun .injected
  grows := hgrows
  drawn := by
    rw [placedLabels_unlabelled]
    exact .nil _ _

/-! ## §3. The workbench. -/

theorem extends_allocateAll (b : Body) (types : List FieldType) :
    b.Extends (b.allocateAll types).2 := by
  induction types generalizing b with
  | nil => exact .refl b
  | cons type types ih => exact (b.extends_allocate type).trans (ih (b.allocate type).2)

theorem extends_callWithOperands (site : Site) (copy : MethodRef) (types : List FieldType)
    (body : Body) : body.Extends (callWithOperands site copy types body).2 := by
  cases hstatic : copy.isStatic with
  | true =>
    rw [callWithOperands_of_static types body hstatic]
    exact .refl body
  | false =>
    rw [callWithOperands_of_instance types body hstatic]
    exact extends_allocateAll body types

theorem extends_callbackSlot (w : Workbench) (type : FieldType) :
    w.body.Extends (w.callbackSlot type).2.body := by
  unfold Workbench.callbackSlot
  split
  · exact .refl w.body
  · exact w.body.extends_allocate type

theorem nextId_callbackSlot (w : Workbench) (type : FieldType) :
    (w.callbackSlot type).2.body.nextId = w.body.nextId := by
  unfold Workbench.callbackSlot
  split <;> rfl

theorem emitted_eq (w : Workbench) (code : List Instruction × Body) :
    w.emitted code
      = (⟨.injected, unlabelled .injected code.1, none⟩, { w with body := code.2 }) := by
  unfold Workbench.emitted
  rw [Block.empty_pushAll]

/-! ## §4. Patches before an instruction. -/

/-- The code of a patch that cannot cancel. -/
theorem emitInject_of_not_cancellable (site : Site) (copy : MethodRef) (w : Workbench) :
    emitInject site copy false w
      = .ok (⟨.injected, unlabelled .injected (callbackCall site copy false
            (w.callbackSlot (callbackType site.method)).1), none⟩,
          (w.callbackSlot (callbackType site.method)).2) := by
  unfold emitInject
  dsimp only
  rw [Block.empty_pushAll]
  rfl

/-- The code of a patch that can cancel: behind the call, a check of the callback jumps over the
return to a place of its own. -/
def guardedCall (site : Site) (copy : MethodRef) (slot : Slot) (resume : Label) :
    List PendingEntry :=
  unlabelled .injected (callbackCall site copy true slot
      ++ [.loadLocal slot, .invoke .virtual Support.isCancelled])
    ++ ⟨none, .injected, .branchIf false resume⟩
      :: (unlabelled .injected (unwinding site slot) ++ [⟨none, .injected, .ret⟩]
        ++ [⟨some resume, .injected, .nop⟩])

theorem emitInject_of_cancellable (site : Site) (copy : MethodRef) (w : Workbench) :
    emitInject site copy true w
      = .ok (⟨.injected, guardedCall site copy (w.callbackSlot (callbackType site.method)).1
            ⟨(w.callbackSlot (callbackType site.method)).2.body.nextId⟩, none⟩,
          { (w.callbackSlot (callbackType site.method)).2 with
            body := (w.callbackSlot (callbackType site.method)).2.body.freshLabel.2 }) := by
  unfold emitInject
  dsimp only
  rw [Block.empty_pushAll, if_pos rfl, Block.pushAll_of_not_waiting rfl]
  simp [Block.place, Block.push, liftMachine_ok, bind, Except.bind, pure,
    Except.pure, guardedCall, cancellation, unwinding, unlabelled, Body.fst_freshLabel]

/-- A run passes the check, or returns with what the method returns. -/
theorem track_guardedCall {site : Site} {copy : MethodRef} (slot : Slot) (resume : Label)
    (htakes : TakesArguments site.method copy 1) (hreturns : copy.returns = none)
    (acts : List Act) :
    ∃ table, Track ⟨acts, site.depth⟩ (guardedCall site copy slot resume) table
      (some ⟨acts ++ [.call copy], site.depth⟩) := by
  have hcall := Progress.run_callbackCall true slot htakes hreturns acts site.depth
  generalize hacts : acts ++ [Act.call copy] = called at hcall
  have hcheck := Progress.run_cancelledCheck slot called site.depth
  have hunwind := Progress.run_unwinding site slot called
  have hcalled : Progress.run ⟨acts, site.depth⟩ (callbackCall site copy true slot
      ++ [.loadLocal slot, .invoke .virtual Support.isCancelled])
        = some ⟨called, site.depth + 1⟩ := by
    rw [Progress.run_append, hcall, Option.bind_some, hcheck]
  obtain ⟨table, htrack⟩ := Track.of_run hcalled .injected
  obtain ⟨table', htrack'⟩ := Track.of_run hunwind .injected
  -- the branch takes the answer of the check off the stack
  have hbranch : Progress.after ⟨called, site.depth + 1⟩ (.branchIf false resume)
      = ⟨called, site.depth⟩ := by
    simp [Progress.after, Instruction.acts, Instruction.depthAfter, Instruction.effect]
  have hnop : Progress.after ⟨called, site.depth⟩ .nop = ⟨called, site.depth⟩ := by
    simp [Progress.after, Instruction.acts, Instruction.depthAfter, Instruction.effect]
  have hreturn : Track ⟨called, site.method.returns.isSome.toNat⟩ [⟨none, .injected, .ret⟩]
      [⟨called, site.method.returns.isSome.toNat⟩] none := .leave rfl (Bool.toNat_le _)
  -- the two ways behind the branch: unwinding and the return, or where the method resumes
  have hleave := htrack'.append rfl hreturn
  have hresume : Track ⟨called, site.depth⟩ [⟨some resume, .injected, .nop⟩]
      [⟨called, site.depth⟩] (some ⟨called, site.depth⟩) := by
    refine .step rfl (Nat.zero_le _) ?_
    rw [hnop]
    exact .nil _
  rw [← hbranch] at hleave
  have hskip : Track ⟨called, site.depth + 1⟩ (⟨none, .injected, .branchIf false resume⟩
        :: (unlabelled .injected (unwinding site slot) ++ [⟨none, .injected, .ret⟩]
          ++ [⟨some resume, .injected, .nop⟩]))
      (⟨called, site.depth + 1⟩ :: (table' ++ [⟨called, site.method.returns.isSome.toNat⟩]
        ++ [⟨called, site.depth⟩])) (some ⟨called, site.depth⟩) := by
    refine .skip rfl (Nat.le_add_left _ _) hleave rfl ?_
    rw [hbranch]
    exact hresume
  exact ⟨_, htrack.append rfl hskip⟩

@[simp]
theorem placedLabels_guardedCall (site : Site) (copy : MethodRef) (slot : Slot) (resume : Label) :
    placedLabels (guardedCall site copy slot resume) = [resume] := by
  simp [guardedCall]

theorem origin_guardedCall {site : Site} {copy : MethodRef} {slot : Slot} {resume : Label}
    {p : PendingEntry} (hp : p ∈ guardedCall site copy slot resume) : p.origin = .injected := by
  simp only [guardedCall, unlabelled, List.mem_append, List.mem_cons, List.mem_map] at hp
  grind

/-- The code of a patch that runs before an instruction. -/
theorem emitInject_of_meets {site : Site} {copy : MethodRef} (cancellable : Bool) (w : Workbench)
    (hmeets : Meets site.method copy ⟨none, [callbackType site.method]⟩) (acts : List Act) :
    ∃ code w', emitInject site copy cancellable w = .ok (⟨.injected, code, none⟩, w')
      ∧ Emits w w' code ⟨acts, site.depth⟩ ⟨acts ++ [.call copy], site.depth⟩ := by
  have hgrows := extends_callbackSlot w (callbackType site.method)
  have hid := nextId_callbackSlot w (callbackType site.method)
  -- only the guarded form draws a label, the one behind its return
  cases cancellable with
  | false =>
    have hrun := Progress.run_callbackCall false (w.callbackSlot (callbackType site.method)).1
      hmeets.takes hmeets.returns acts site.depth
    exact ⟨_, _, emitInject_of_not_cancellable site copy w, emits_of_run hrun hgrows⟩
  | true =>
    have htrack := track_guardedCall (w.callbackSlot (callbackType site.method)).1
      ⟨(w.callbackSlot (callbackType site.method)).2.body.nextId⟩ hmeets.takes hmeets.returns acts
    refine ⟨_, _, emitInject_of_cancellable site copy w, fun p hp => origin_guardedCall hp, htrack,
      hgrows.trans (Body.extends_freshLabel _), ?_⟩
    rw [placedLabels_guardedCall, hid]
    refine ⟨List.pairwise_singleton _ _, List.forall_mem_singleton.mpr ⟨Nat.le_refl _, ?_⟩⟩
    show w.body.nextId < Body.nextId (Body.freshLabel _).2
    rw [Body.nextId_freshLabel, hid]
    exact Nat.lt_succ_self _

/-! ## §5. All patches. -/

/-- How many values there are behind the code of a patch at an instruction. -/
def Placement.depthBehind : Placement → Instruction → Nat → Nat
  | .before, _, depth => depth
  | .replace, i, depth => i.depthAfter depth
  | .after, _, depth => depth

/-- How many values there have to be in front of the code of a patch at a site. -/
def Placement.Enterable : Placement → Site → Nat → Prop
  | .before, site, depth => depth = site.depth
  | .replace, site, depth => site.instruction.effect.pop ≤ depth
  | .after, _, depth => 1 ≤ depth

theorem eq_of_pushedConstant {i : Instruction} {constant : Constant}
    (h : pushedConstant i = .ok constant) : i = .push constant := by
  unfold pushedConstant at h
  split at h
  · contradiction
  · injection h with h
    rw [h]
  · contradiction

theorem eq_of_calledMethod {i : Instruction} {callee : MethodRef}
    (h : calledMethod i = .ok callee) : ∃ kind, i = .invoke kind callee := by
  unfold calledMethod at h
  split at h
  · next kind callee' =>
    injection h with h
    exact ⟨kind, by rw [h]⟩
  · contradiction

theorem depthBehind_of_pushedConstant {i : Instruction} {constant : Constant}
    (h : pushedConstant i = .ok constant) (depth : Nat) :
    Placement.replace.depthBehind i depth = depth + 1 := by
  rw [eq_of_pushedConstant h]
  rfl

/-- A call that is replaced takes its operands, and leaves what its method returns. -/
theorem depthBehind_of_calledMethod {i : Instruction} {callee : MethodRef}
    (h : calledMethod i = .ok callee) (depth : Nat) :
    Placement.replace.depthBehind i depth
      = depth - callee.argumentTypes.length + callee.returns.isSome.toNat := by
  obtain ⟨kind, hi⟩ := eq_of_calledMethod h
  rw [hi, callee.length_argumentTypes]
  rfl

theorem covered_of_calledMethod {i : Instruction} {callee : MethodRef} {depth : Nat}
    (h : calledMethod i = .ok callee) (hdepth : i.effect.pop ≤ depth) :
    callee.argumentTypes.length ≤ depth := by
  obtain ⟨kind, hi⟩ := eq_of_calledMethod h
  rw [hi] at hdepth
  rw [callee.length_argumentTypes]
  exact hdepth

/-- **What a patch is turned into** on a workbench, and what is expected of its copy. -/
inductive Emission (site : Site) (copy : MethodRef) (w : Workbench) :
    InjectorKind → Expectation → Block × Workbench → Prop where
  | callback {cancellable : Bool} {capture : LocalCapture} {out : Block × Workbench}
      (emits : emitInject site copy cancellable w = .ok out) :
      Emission site copy w (.inject cancellable capture) ⟨none, [callbackType site.method]⟩ out
  | constant {capture : LocalCapture} {c : Constant}
      (pushed : pushedConstant site.instruction = .ok c) :
      Emission site copy w (.modifyConstant capture) ⟨some c.type, [c.type]⟩
        (⟨.injected, unlabelled .injected (callInstructions site.method copy [⟨c.type, [.push c]⟩]),
          none⟩, w)
  | call {callee : MethodRef} (called : calledMethod site.instruction = .ok callee) :
      Emission site copy w .redirect ⟨callee.returns, callee.argumentTypes⟩
        (⟨.injected, unlabelled .injected
            (callWithOperands site copy callee.argumentTypes w.body).1, none⟩,
          { w with body := (callWithOperands site copy callee.argumentTypes w.body).2 })
  | value {type : FieldType}
      (pushed : pushedValue site.method w.body.locals site.instruction = .ok type) :
      Emission site copy w .modifyValue ⟨some type, [type]⟩
        (⟨.injected, unlabelled .injected (callWithOperands site copy [type] w.body).1, none⟩,
          { w with body := (callWithOperands site copy [type] w.body).2 })

/-- **Making code for a patch succeeds with these outcomes only.** -/
theorem emit_eq_ok_iff {patch : Patch} {site : Site} {copy : MethodRef} {w : Workbench}
    {out : Block × Workbench} :
    emit patch site copy w = .ok out ↔ ∃ e, Emission site copy w patch.kind e out := by
  unfold emit
  -- one form for each kind; each looks one thing up before it is made, or nothing
  cases patch.kind with
  | base =>
    constructor
    · intro h
      contradiction
    · rintro ⟨e, h⟩
      cases h
  | inject cancellable capture =>
    constructor
    · exact fun h => ⟨_, .callback h⟩
    · rintro ⟨e, ⟨emits⟩⟩
      exact emits
  | modifyConstant capture =>
    constructor
    · intro h
      obtain ⟨c, hc, heq⟩ := bind_eq_ok_iff.mp h
      obtain rfl := Except.ok.inj heq
      rw [emitted_eq]
      exact ⟨_, .constant (mapError_eq_ok_iff.mp hc)⟩
    · rintro ⟨e, h⟩
      cases h with
      | constant pushed =>
        simp only [pushed, mapError_ok, ok_bind, emitted_eq]
        rfl
  | redirect =>
    constructor
    · intro h
      obtain ⟨callee, hcallee, heq⟩ := bind_eq_ok_iff.mp h
      obtain rfl := Except.ok.inj heq
      rw [emitted_eq]
      exact ⟨_, .call (mapError_eq_ok_iff.mp hcallee)⟩
    · rintro ⟨e, h⟩
      cases h with
      | call called =>
        simp only [called, mapError_ok, ok_bind, emitted_eq]
        rfl
  | modifyValue =>
    constructor
    · intro h
      obtain ⟨type, htype, heq⟩ := bind_eq_ok_iff.mp h
      obtain rfl := Except.ok.inj heq
      rw [emitted_eq]
      exact ⟨_, .value (mapError_eq_ok_iff.mp htype)⟩
    · rintro ⟨e, h⟩
      cases h with
      | value pushed =>
        simp only [pushed, mapError_ok, ok_bind, emitted_eq]
        rfl

/-- **Where something is expected of a copy, there is code that calls it.** -/
theorem exists_emission {kind : InjectorKind} {site : Site} (copy : MethodRef) {w : Workbench}
    {e : Expectation}
    (h : expectation kind site.method w.body.locals site.instruction = .ok e) :
    ∃ out, Emission site copy w kind e out := by
  -- what is expected was read off the same instruction as the code is
  cases kind with
  | base => contradiction
  | inject cancellable capture =>
    obtain rfl := Except.ok.inj h
    cases cancellable with
    | false => exact ⟨_, .callback (emitInject_of_not_cancellable site copy w)⟩
    | true => exact ⟨_, .callback (emitInject_of_cancellable site copy w)⟩
  | modifyConstant capture =>
    obtain ⟨c, hc, heq⟩ := bind_eq_ok_iff.mp h
    obtain rfl := Except.ok.inj heq
    exact ⟨_, .constant hc⟩
  | redirect =>
    obtain ⟨callee, hcallee, heq⟩ := bind_eq_ok_iff.mp h
    obtain rfl := Except.ok.inj heq
    exact ⟨_, .call hcallee⟩
  | modifyValue =>
    obtain ⟨type, htype, heq⟩ := bind_eq_ok_iff.mp h
    obtain rfl := Except.ok.inj heq
    exact ⟨_, .value htype⟩

/-- The code of a patch that gets a constant. -/
theorem emits_constant {site : Site} {copy : MethodRef} (w : Workbench) {constant : Constant}
    (hmeets : Meets site.method copy ⟨some constant.type, [constant.type]⟩) (acts : List Act)
    (depth : Nat) :
    Emits w w (unlabelled .injected
        (callInstructions site.method copy [⟨constant.type, [.push constant]⟩]))
      ⟨acts, depth⟩ ⟨acts ++ [.call copy], depth + 1⟩ := by
  have hloads : ∀ i ∈ [(⟨constant.type, [.push constant]⟩ : SyntheticArgument)].flatMap (·.load),
      i.Loads := List.forall_mem_singleton.mpr (loads_push constant)
  refine emits_of_run ?_ (.refl w.body)
  rw [Progress.run_callInstructions hloads hmeets.takes acts (Nat.le_add_left _ _), hmeets.returns]
  rfl

/-- The code of a patch that gets values from the stack. -/
theorem emits_operands {site : Site} {copy : MethodRef} (w : Workbench) {types : List FieldType}
    {returns : Option FieldType} (hmeets : Meets site.method copy ⟨returns, types⟩)
    (acts : List Act) {depth : Nat} (hdepth : types.length ≤ depth) :
    Emits w { w with body := (callWithOperands site copy types w.body).2 }
      (unlabelled .injected (callWithOperands site copy types w.body).1)
      ⟨acts, depth⟩ ⟨acts ++ [.call copy], depth - types.length + returns.isSome.toNat⟩ := by
  refine emits_of_run ?_ (extends_callWithOperands site copy types w.body)
  rw [Progress.run_callWithOperands w.body hmeets.takes acts hdepth, hmeets.returns]

/-- **Making the code of an applicable patch succeeds**, and the code calls the copy once and fits
its place. -/
theorem emit_of_applies {patch : Patch} {site : Site} {copy : MethodRef} {w : Workbench}
    {placement : Placement} (hplacement : patch.kind.placement? = some placement)
    (h : Applies patch.kind site.method w.body.locals site.instruction copy) (acts : List Act)
    {depth : Nat} (hdepth : placement.Enterable site depth) :
    ∃ code w', emit patch site copy w = .ok (⟨.injected, code, none⟩, w')
      ∧ Emits w w' code ⟨acts, depth⟩
          ⟨acts ++ [.call copy], placement.depthBehind site.instruction depth⟩ := by
  obtain ⟨e, he, hmeets⟩ := h
  obtain ⟨out, hout⟩ := exists_emission copy he
  have hemit := emit_eq_ok_iff.mpr ⟨e, hout⟩
  -- an emission has one form for each kind, so the kind has to be a variable
  generalize patch.kind = kind at hplacement hout
  cases hout with
  | callback emits =>
    obtain rfl := Option.some_inj.mp hplacement
    obtain rfl : depth = site.depth := hdepth
    obtain ⟨code, w', hinject, hemits⟩ := emitInject_of_meets _ w hmeets acts
    obtain rfl := Except.ok.inj (emits.symm.trans hinject)
    exact ⟨code, w', hemit, hemits⟩
  | constant pushed =>
    obtain rfl := Option.some_inj.mp hplacement
    have hemits := emits_constant w hmeets acts depth
    rw [← depthBehind_of_pushedConstant pushed] at hemits
    exact ⟨_, w, hemit, hemits⟩
  | call called =>
    obtain rfl := Option.some_inj.mp hplacement
    have hemits := emits_operands w hmeets acts (covered_of_calledMethod called hdepth)
    rw [← depthBehind_of_calledMethod called] at hemits
    exact ⟨_, _, hemit, hemits⟩
  | @value type pushed =>
    obtain rfl := Option.some_inj.mp hplacement
    -- the copy takes the value and leaves another one
    have hone : 1 ≤ depth := hdepth
    have hbehind : Placement.after.depthBehind site.instruction depth
        = depth - [type].length + (some type).isSome.toNat := by
      show depth = depth - 1 + 1
      omega
    have hemits := emits_operands w hmeets acts hone
    rw [← hbehind] at hemits
    exact ⟨_, _, hemit, hemits⟩

namespace Splicer

variable {s : Splicer} {site : Site}

/-- The copy that is called on behalf of a patch. -/
def copy? (s : Splicer) (owner : ClassName) (id : PatchId) : Option MethodRef :=
  (s.registry.patch? id).bind fun patch => s.copies.find? owner patch.body

/-- The call that is made on behalf of a patch. -/
def call? (s : Splicer) (owner : ClassName) (id : PatchId) : Option Act :=
  (s.copy? owner id).map .call

/-- A patch of a placement whose copy can be called at an instruction. -/
def Placeable (s : Splicer) (method : MethodRef) (locals : List FieldType) (i : Instruction)
    (placement : Placement) (id : PatchId) : Prop :=
  ∃ patch copy, s.Ready method locals i id patch copy ∧ patch.kind.placement? = some placement

theorem Placeable.mono {method : MethodRef} {locals locals' : List FieldType} {i : Instruction}
    {placement : Placement} {id : PatchId} (h : s.Placeable method locals i placement id)
    (hl : locals <+: locals') : s.Placeable method locals' i placement id := by
  obtain ⟨patch, copy, hready, hplacement⟩ := h
  exact ⟨patch, copy, ⟨hready.patch_eq, hready.copy_eq, hready.applies.mono hl⟩, hplacement⟩

theorem Placeable.rename {method : MethodRef} {locals : List FieldType} {i : Instruction}
    {placement : Placement} {id : PatchId} (h : s.Placeable method locals i placement id)
    (f : Label → Label) : s.Placeable method locals (i.rename f) placement id := by
  obtain ⟨patch, copy, hready, hplacement⟩ := h
  exact ⟨patch, copy, ⟨hready.patch_eq, hready.copy_eq, hready.applies.rename f⟩, hplacement⟩

/-- Patches that do not run before an instruction go to one behind which control goes on. -/
theorem Placeable.flow_eq {method : MethodRef} {locals : List FieldType} {i : Instruction}
    {placement : Placement} {id : PatchId} (h : s.Placeable method locals i placement id)
    (hplacement : placement ≠ .before) : i.flow = .next := by
  obtain ⟨patch, copy, ⟨-, -, e, he, -⟩, hkind⟩ := h
  rcases flow_of_expectation he with hbefore | hflow
  · rw [hkind] at hbefore
    exact absurd (Option.some_inj.mp hbefore) hplacement
  · exact hflow

/-- A patch that runs behind an instruction gets the value that the instruction pushes. -/
theorem Placeable.push_eq {method : MethodRef} {locals : List FieldType} {i : Instruction}
    {id : PatchId} (h : s.Placeable method locals i .after id) : i.effect.push = 1 := by
  obtain ⟨patch, copy, ⟨-, -, e, he, -⟩, hkind⟩ := h
  cases hk : patch.kind with
  | modifyValue =>
    rw [hk] at he
    obtain ⟨type, htype, -⟩ := bind_eq_ok_iff.mp he
    exact (pushedValue_eq_ok_iff.mp htype).1
  | _ => simp [hk, InjectorKind.placement?] at hkind

/-- One patch is appended to a block. -/
theorem appendPatch_of_placeable {block : Block} {w : Workbench} {placement : Placement}
    {id : PatchId} (hblock : block.waiting = none)
    (h : s.Placeable site.method w.body.locals site.instruction placement id) (acts : List Act)
    {depth : Nat} (hdepth : placement.Enterable site depth) :
    ∃ copy code w', s.call? site.method.owner id = some (.call copy)
      ∧ s.appendPatch site (block, w) id = .ok ({ block with entries := block.entries ++ code }, w')
      ∧ Emits w w' code ⟨acts, depth⟩
          ⟨acts ++ [.call copy], placement.depthBehind site.instruction depth⟩ := by
  obtain ⟨patch, copy, hready, hplacement⟩ := h
  obtain ⟨code, w', hemit, hemits⟩ := emit_of_applies hplacement hready.applies acts hdepth
  refine ⟨copy, code, w', ?_, ?_, hemits⟩
  · simp [call?, copy?, hready.patch_eq, hready.copy_eq]
  -- the patch and its copy are looked up, the code is made, and it ends in no waiting label
  · have hfind : s.copies.find site.method.owner patch.body = .ok copy := by
      simp [CopyTable.find, hready.copy_eq]
    have hpatch : s.patchBlock site w id = .ok (⟨.injected, code, none⟩, w') := by
      simp only [patchBlock, hready.patch_eq, hfind, bind, Except.bind, hemit]
    have hextend : block.extend ⟨.injected, code, none⟩
        = .ok { block with entries := block.entries ++ code } :=
      Block.extend_of_not_waiting hblock rfl
    simp only [appendPatch, hpatch, bind, Except.bind, hextend, liftMachine_ok]
    rfl

/-- **A list of patches is called in its order**, where each leaves the stack as it finds it. -/
theorem exists_emits_patches {placement : Placement} {ids : List PatchId} {block : Block}
    (w : Workbench) (hblock : block.waiting = none)
    (h : ∀ id ∈ ids, s.Placeable site.method w.body.locals site.instruction placement id)
    (acts : List Act) {depth : Nat} (hdepth : ∀ id ∈ ids, placement.Enterable site depth)
    (hstays : placement.depthBehind site.instruction depth = depth) :
    ∃ (calls : List Act) (code : List PendingEntry) (w' : Workbench),
      ids.map (s.call? site.method.owner) = calls.map some
      ∧ ids.foldlM (s.appendPatch site) (block, w)
          = .ok ({ block with entries := block.entries ++ code }, w')
      ∧ Emits w w' code ⟨acts, depth⟩ ⟨acts ++ calls, depth⟩ := by
  induction ids generalizing block w acts with
  | nil =>
    refine ⟨[], [], w, rfl, ?_, ?_⟩
    · simp [pure, Except.pure]
    · simpa using Emits.nil w ⟨acts, depth⟩
  | cons id ids ih =>
    obtain ⟨hid, hids⟩ := List.forall_mem_cons.mp h
    obtain ⟨copy, code, w', hcopy, hfirst, hemits⟩ :=
      appendPatch_of_placeable hblock hid acts (hdepth id List.mem_cons_self)
    rw [hstays] at hemits
    have hblock' : { block with entries := block.entries ++ code }.waiting = none := hblock
    -- locals that the code of one patch adds do not matter to the patches behind it
    obtain ⟨calls, code', w'', hcalls, hrest, hemits'⟩ := ih w' hblock'
      (fun id hid => (hids id hid).mono hemits.grows.locals_le) (acts ++ [.call copy])
      fun id hid => hdepth id (List.mem_cons_of_mem _ hid)
    refine ⟨.call copy :: calls, code ++ code', w'', ?_, ?_, ?_⟩
    · simp [hcopy, hcalls]
    · rw [List.foldlM_cons, hfirst]
      simpa [bind, Except.bind, List.append_assoc] using hrest
    · simpa [List.append_assoc] using hemits.append hemits'

end Splicer

end PatchWeaver

/-
  PatchWeaver.Proofs.Aliasing
  ───────────────────────────
  **WHICH SLOTS ARE SHARED.**

  A slot is a place modulo 2^16:

      local k            ↦   slot k mod 65536
      parameter i        ↦   slot i mod 65536 of a static method, and
                             slot (i + 1) mod 65536 of another one

  Code for patches is made without a look at how many locals or parameters
  there are.  In terms of places it never goes wrong: the values that it
  stores go to places of their own, behind the locals of the body.  So its
  slots are told apart exactly as far as 16 bits go.  From the local with
  index 65536 on, a new local gets the slot of an earlier one.

  Main results:
    * `EmissionStep.exists_places` — what one emission does, place by place.
    * `EmissionRun.sound` — so it is after any emissions into a body.
    * `slots_name_places` — which slots designate what they were made for.
    * `local_shares_slot` — a body with one local too many.
-/
import Mathlib.Data.List.Nodup
import PatchWeaver.Proofs.CallOperands
import PatchWeaver.Proofs.Interleaving

namespace PatchWeaver

/-! ## §1. Slots in code. -/

/-- The local that an instruction stores to. -/
def Instruction.storedSlot? : Instruction → Option Slot
  | .storeLocal slot => some slot
  | _ => none

/-- The argument that an instruction loads. -/
def Instruction.loadedArgument? : Instruction → Option Slot
  | .loadArg slot => some slot
  | _ => none

/-- The locals that code stores to, in order. -/
def storedSlots (code : List Instruction) : List Slot := code.filterMap (·.storedSlot?)

/-- The arguments that code loads, in order. -/
def loadedArguments (code : List Instruction) : List Slot := code.filterMap (·.loadedArgument?)

/-- Code that neither stores to locals nor loads arguments. -/
def SlotFree (code : List Instruction) : Prop :=
  ∀ i ∈ code, i.storedSlot? = none ∧ i.loadedArgument? = none

/-- The arguments that a call of a copy loads: the receiver, and those of the target that are
passed on. -/
def callArguments (target copy : MethodRef) (syntheticCount : Nat) : List Slot :=
  (if copy.isStatic then [] else [0])
    ++ (List.range (forwardedCount target copy syntheticCount)).map target.parameterSlot

theorem storedSlots_append (code code' : List Instruction) :
    storedSlots (code ++ code') = storedSlots code ++ storedSlots code' := List.filterMap_append

theorem loadedArguments_append (code code' : List Instruction) :
    loadedArguments (code ++ code') = loadedArguments code ++ loadedArguments code' :=
  List.filterMap_append

namespace SlotFree

variable {code : List Instruction}

theorem storedSlots_eq (h : SlotFree code) : storedSlots code = [] :=
  List.filterMap_eq_nil_iff.mpr fun i hi => (h i hi).1

theorem loadedArguments_eq (h : SlotFree code) : loadedArguments code = [] :=
  List.filterMap_eq_nil_iff.mpr fun i hi => (h i hi).2

end SlotFree

/-- Code stores to these locals, and loads these arguments. -/
structure Touches (code : List Instruction) (stored loaded : List Slot) : Prop where
  storedSlots_eq : storedSlots code = stored
  loadedArguments_eq : loadedArguments code = loaded

namespace Touches

variable {code code' : List Instruction} {stored stored' loaded loaded' : List Slot}

theorem append (h : Touches code stored loaded) (h' : Touches code' stored' loaded') :
    Touches (code ++ code') (stored ++ stored') (loaded ++ loaded') where
  storedSlots_eq := by rw [storedSlots_append, h.storedSlots_eq, h'.storedSlots_eq]
  loadedArguments_eq := by rw [loadedArguments_append, h.loadedArguments_eq, h'.loadedArguments_eq]

theorem of_slotFree (h : SlotFree code) : Touches code [] [] :=
  ⟨h.storedSlots_eq, h.loadedArguments_eq⟩

/-- Stores, one after another. -/
theorem stores (slots : List Slot) : Touches (slots.map .storeLocal) slots [] where
  storedSlots_eq := by
    unfold storedSlots
    rw [List.filterMap_map]
    exact List.filterMap_some
  loadedArguments_eq := by
    unfold loadedArguments
    rw [List.filterMap_map]
    exact List.filterMap_eq_nil_iff.mpr fun _ _ => rfl

/-- Loads, one after another. -/
theorem loads (slots : List Slot) : Touches (slots.map .loadArg) [] slots where
  storedSlots_eq := by
    unfold storedSlots
    rw [List.filterMap_map]
    exact List.filterMap_eq_nil_iff.mpr fun _ _ => rfl
  loadedArguments_eq := by
    unfold loadedArguments
    rw [List.filterMap_map]
    exact List.filterMap_some

end Touches

section

variable {site : Site} {target copy : MethodRef}

/-- **A call loads the receiver and the arguments passed on**, besides the synthetic ones. -/
theorem touches_callInstructions {synthetic : List SyntheticArgument}
    (hloads : SlotFree (synthetic.flatMap (·.load))) :
    Touches (callInstructions target copy synthetic) []
      (callArguments target copy synthetic.length) := by
  have hreceiver : Touches (loadReceiver copy) [] (if copy.isStatic then [] else [0]) := by
    unfold loadReceiver
    cases copy.isStatic with
    | true => exact .of_slotFree (List.forall_mem_nil _)
    | false => exact .loads [0]
  have hforwarded : Touches (loadForwarded target copy synthetic.length) []
      ((List.range (forwardedCount target copy synthetic.length)).map target.parameterSlot) := by
    have heq : loadForwarded target copy synthetic.length
        = ((List.range (forwardedCount target copy synthetic.length)).map
            target.parameterSlot).map .loadArg := by
      rw [List.map_map]
      rfl
    rw [heq]
    exact .loads _
  have hcall : Touches [.invoke .direct copy] [] [] :=
    .of_slotFree (List.forall_mem_singleton.mpr ⟨rfl, rfl⟩)
  have hall := ((hreceiver.append (.of_slotFree hloads)).append hforwarded).append hcall
  simpa [callArguments, callInstructions] using hall

/-- The places that operands are put aside in, the last one first. -/
def asidePlaces (copy : MethodRef) (types : List FieldType) (body : Body) : List Nat :=
  if copy.isStatic then [] else (List.range' body.locals.length types.length).reverse

/-- **Operands are put aside behind all locals.** -/
theorem touches_callWithOperands (types : List FieldType) (body : Body) :
    Touches (callWithOperands site copy types body).1
      ((asidePlaces copy types body).map UInt16.ofNat)
      (callArguments site.method copy types.length) := by
  unfold asidePlaces
  cases hstatic : copy.isStatic with
  | true =>
    have hfree : SlotFree ((types.map SyntheticArgument.onStack).flatMap (·.load)) := by
      rw [flatMap_load_onStack]
      exact List.forall_mem_nil _
    rw [callWithOperands_of_static types body hstatic]
    have hcall : Touches (callInstructions site.method copy (types.map .onStack)) []
        (callArguments site.method copy (types.map SyntheticArgument.onStack).length) :=
      touches_callInstructions hfree
    simpa using hcall
  | false =>
    rw [callWithOperands_of_instance types body hstatic, allocateAll_eq]
    dsimp only
    generalize hslots : slotsFrom body.locals.length types.length = slots
    have hlength : slots.length = types.length := by simp [← hslots, slotsFrom]
    have hfree : SlotFree ((spilled types slots).flatMap (·.load)) := by
      rw [flatMap_load_spilled hlength]
      intro i hi
      obtain ⟨slot, -, rfl⟩ := List.mem_map.mp hi
      exact ⟨rfl, rfl⟩
    have hcall : Touches (callInstructions site.method copy (spilled types slots)) []
        (callArguments site.method copy (spilled types slots).length) :=
      touches_callInstructions hfree
    have hcount : (spilled types slots).length = types.length := by simp [spilled, hlength]
    have hreverse : slots.reverse
        = ((List.range' body.locals.length types.length).reverse).map UInt16.ofNat := by
      rw [← hslots, slotsFrom, List.map_reverse]
    rw [hcount] at hcall
    simpa [hreverse] using (Touches.stores slots.reverse).append hcall

/-- A callback is stored once, in its own local. -/
theorem touches_callbackCall (cancellable : Bool) (slot : Slot) :
    Touches (callbackCall site copy cancellable slot) [slot]
      (callArguments site.method copy 1) := by
  have hmade : Touches [.push (.int (boolConstant cancellable)),
      .new (Support.constructor site.method.returns.isSome), .storeLocal slot] [slot] [] :=
    ⟨rfl, rfl⟩
  have hcall : Touches (callInstructions site.method copy
      [⟨callbackType site.method, [.loadLocal slot]⟩]) [] (callArguments site.method copy 1) :=
    touches_callInstructions (List.forall_mem_singleton.mpr ⟨rfl, rfl⟩)
  exact hmade.append hcall

theorem slotFree_cancellation (slot : Slot) (resume : Label) :
    SlotFree (cancellation site slot resume ++ [.nop]) := by
  have hresult : SlotFree (callbackResult site.method slot) := by
    unfold callbackResult
    cases site.method.returns with
    | none => exact List.forall_mem_nil _
    | some type => simp [SlotFree, Instruction.storedSlot?, Instruction.loadedArgument?]
  intro i hi
  simp only [cancellation, List.mem_append, List.mem_cons, List.mem_replicate, List.not_mem_nil,
    or_false] at hi
  rcases hi with (((hi | hi) | hi) | rfl) | rfl
  · rcases hi with rfl | rfl | rfl <;> exact ⟨rfl, rfl⟩
  · rw [hi.2]
    exact ⟨rfl, rfl⟩
  · exact hresult i hi
  · exact ⟨rfl, rfl⟩
  · exact ⟨rfl, rfl⟩

end

/-! ## §2. One emission. -/

/-- One patch put into code: on a workbench, which it changes to another one. -/
structure EmissionStep where
  patch : Patch
  site : Site
  copy : MethodRef
  before : Workbench
  block : Block
  after : Workbench

/-- Types of the values that code of a kind puts into locals, in the order in which it does. -/
def InjectorKind.storedTypes (kind : InjectorKind) (copy : MethodRef) (synthetic : List FieldType) :
    List FieldType :=
  match kind with
  | .base | .modifyConstant _ => []
  | .inject _ _ => synthetic
  | .redirect | .modifyValue => if copy.isStatic then [] else synthetic.reverse

namespace EmissionStep

/-- The step is one that emission takes, with an expectation of the copy. -/
def Made (s : EmissionStep) (e : Expectation) : Prop :=
  Emission s.site s.copy s.before s.patch.kind e (s.block, s.after)

/-- The instructions of the block that the step makes. -/
def code (s : EmissionStep) : List Instruction := s.block.entries.map (·.instruction)

/-- What a step does with slots, told by places of locals: its stores go to places of their own
behind `locals`, which have the types of what is stored. -/
structure Places (s : EmissionStep) (e : Expectation) (locals : List FieldType)
    (places : List Nat) : Prop where
  touches : Touches s.code (places.map UInt16.ofNat)
    (callArguments s.site.method s.copy e.synthetic.length)
  nodup : places.Nodup
  behind : ∀ k ∈ places, locals.length ≤ k
  fresh : ∀ k ∈ places, s.before.callback = some (UInt16.ofNat k) ∨ s.before.body.locals.length ≤ k
  typed : places.map (s.after.body.locals[·]?)
    = (s.patch.kind.storedTypes s.copy e.synthetic).map some
  grows : s.before.body.locals <+: s.after.body.locals

/-- Operands that are put aside are behind all locals that there are. -/
theorem places_callWithOperands {s : EmissionStep} {e : Expectation} {locals : List FieldType}
    (hgrows : locals <+: s.before.body.locals)
    (hcode : s.code = (callWithOperands s.site s.copy e.synthetic s.before.body).1)
    (hafter : s.after.body = (callWithOperands s.site s.copy e.synthetic s.before.body).2)
    (hkind : s.patch.kind.storedTypes s.copy e.synthetic
      = if s.copy.isStatic then [] else e.synthetic.reverse) :
    s.Places e locals (asidePlaces s.copy e.synthetic s.before.body) := by
  have htouches : Touches s.code ((asidePlaces s.copy e.synthetic s.before.body).map UInt16.ofNat)
      (callArguments s.site.method s.copy e.synthetic.length) := by
    rw [hcode]
    exact touches_callWithOperands e.synthetic s.before.body
  have hbehind : ∀ k ∈ asidePlaces s.copy e.synthetic s.before.body,
      s.before.body.locals.length ≤ k := by
    intro k hk
    unfold asidePlaces at hk
    split at hk
    · contradiction
    · exact (List.mem_range'_1.mp (List.mem_reverse.mp hk)).1
  refine ⟨htouches, ?_, fun k hk => Nat.le_trans hgrows.length_le (hbehind k hk),
    fun k hk => .inr (hbehind k hk), ?_, ?_⟩
  · unfold asidePlaces
    split
    · exact List.nodup_nil
    · exact List.nodup_reverse.mpr List.nodup_range'
  · rw [hkind]
    unfold asidePlaces
    cases hstatic : s.copy.isStatic with
    | true => rfl
    | false =>
      rw [callWithOperands_of_instance _ _ hstatic, allocateAll_eq] at hafter
      rw [hafter]
      dsimp only
      -- the j-th operand is the j-th of the locals that were added
      rw [if_neg (by simp), if_neg (by simp), List.map_reverse, List.map_reverse]
      congr 1
      refine List.ext_getElem (by simp) fun j _ hj => ?_
      have hlt : j < e.synthetic.length := by simpa using hj
      simp [hlt]
  · rw [hafter]
    exact (extends_callWithOperands s.site s.copy e.synthetic s.before.body).locals_le

/-- A callback is in its own local. -/
theorem places_callback {s : EmissionStep} {locals : List FieldType} {cancellable : Bool}
    {capture : LocalCapture} {k : Nat} {w : Workbench} {code : List Instruction}
    (hkind : s.patch.kind = .inject cancellable capture)
    (hslot : s.before.callbackSlot (callbackType s.site.method) = (UInt16.ofNat k, w))
    (hafter : s.after.body.locals = w.body.locals) (hcode : s.code = code)
    (htouches : Touches code [UInt16.ofNat k] (callArguments s.site.method s.copy 1))
    (hk : locals.length ≤ k) (htype : w.body.locals[k]? = some (callbackType s.site.method))
    (hfresh : s.before.callback = some (UInt16.ofNat k) ∨ s.before.body.locals.length ≤ k) :
    s.Places ⟨none, [callbackType s.site.method]⟩ locals [k] where
  touches := by
    rw [hcode]
    exact htouches
  nodup := List.nodup_singleton k
  behind := List.forall_mem_singleton.mpr hk
  fresh := List.forall_mem_singleton.mpr hfresh
  typed := by
    rw [hkind, hafter, List.map_singleton, htype]
    rfl
  grows := by
    have hgrows := (extends_callbackSlot s.before (callbackType s.site.method)).locals_le
    rwa [hslot, ← hafter] at hgrows

/-- **What one emission does with slots.** -/
theorem exists_places {s : EmissionStep} {e : Expectation} {locals : List FieldType}
    (hmade : s.Made e) (hsound : s.before.Sound s.site locals) :
    ∃ places, s.Places e locals places := by
  obtain ⟨patch, site, copy, w, block, w'⟩ := s
  change Emission site copy w patch.kind e (block, w') at hmade
  generalize hkind : patch.kind = kind at hmade
  generalize hout : (block, w') = out at hmade
  -- one form of code for each kind, two for callbacks
  cases hmade with
  | @callback cancellable capture _ emits =>
    subst hout
    obtain ⟨k, w₁, hslot, hk, htype, hfresh, -⟩ := hsound.exists_callbackSlot
    cases cancellable with
    | false =>
      rw [emitInject_of_not_cancellable, hslot] at emits
      obtain ⟨rfl, rfl⟩ := Prod.mk.inj (Except.ok.inj emits)
      exact ⟨[k], places_callback hkind hslot rfl (map_instruction_unlabelled _ _)
        (touches_callbackCall false _) hk htype hfresh⟩
    | true =>
      rw [emitInject_of_cancellable, hslot] at emits
      obtain ⟨rfl, rfl⟩ := Prod.mk.inj (Except.ok.inj emits)
      have hcancel : Touches (cancellation site (UInt16.ofNat k) ⟨w₁.body.nextId⟩ ++ [.nop]) []
          [] :=
        .of_slotFree (slotFree_cancellation _ _)
      have htouches : Touches
          (callbackCall site copy true (UInt16.ofNat k)
            ++ (cancellation site (UInt16.ofNat k) ⟨w₁.body.nextId⟩ ++ [.nop]))
          [UInt16.ofNat k] (callArguments site.method copy 1) := by
        simpa using (touches_callbackCall true (UInt16.ofNat k)).append hcancel
      exact ⟨[k], places_callback hkind hslot rfl (map_instruction_guardedCall _ _ _ _) htouches
        hk htype hfresh⟩
  | @constant capture c pushed =>
    obtain ⟨rfl, rfl⟩ := Prod.mk.inj hout
    have hcall : Touches (callInstructions site.method copy [⟨c.type, [.push c]⟩]) []
        (callArguments site.method copy 1) :=
      touches_callInstructions (List.forall_mem_singleton.mpr ⟨rfl, rfl⟩)
    rw [← map_instruction_unlabelled .injected (callInstructions _ _ _)] at hcall
    refine ⟨[], hcall, List.nodup_nil, List.forall_mem_nil _, List.forall_mem_nil _, ?_,
      List.prefix_refl _⟩
    rw [hkind]
    rfl
  | call called =>
    obtain ⟨rfl, rfl⟩ := Prod.mk.inj hout
    exact ⟨_, places_callWithOperands hsound.grows (map_instruction_unlabelled _ _) rfl
      (by rw [hkind]; rfl)⟩
  | value pushed =>
    obtain ⟨rfl, rfl⟩ := Prod.mk.inj hout
    exact ⟨_, places_callWithOperands hsound.grows (map_instruction_unlabelled _ _) rfl
      (by rw [hkind]; rfl)⟩

end EmissionStep

/-! ## §3. Any number of emissions. -/

/-- Steps of emission into a body with the given locals, one after another: several patches may
share a workbench, and every instruction has one of its own. -/
inductive EmissionRun (locals : List FieldType) : Site → Workbench → List EmissionStep → Prop where
  | start (site : Site) {body : Body} (locals_eq : body.locals = locals) :
      EmissionRun locals site ⟨body, none⟩ []
  | emit {site : Site} {w w' : Workbench} {steps : List EmissionStep} {patch : Patch}
      {copy : MethodRef} {block : Block} (before : EmissionRun locals site w steps)
      (emits : PatchWeaver.emit patch site copy w = .ok (block, w')) :
      EmissionRun locals site w' (steps ++ [⟨patch, site, copy, w, block, w'⟩])
  | turn {site : Site} {w : Workbench} {steps : List EmissionStep} (site' : Site) {body : Body}
      (before : EmissionRun locals site w steps) (locals_eq : body.locals = w.body.locals) :
      EmissionRun locals site' ⟨body, none⟩ steps

/-- What holds after any number of steps. -/
structure EmissionRun.Sound (locals : List FieldType) (site : Site) (w : Workbench)
    (steps : List EmissionStep) : Prop where
  workbench : w.Sound site locals
  placed : ∀ s ∈ steps, ∃ e places, s.Made e ∧ s.Places e locals places
  kept : ∀ s ∈ steps, s.after.body.locals <+: w.body.locals
  ordered : steps.Pairwise fun s s' => s.after.body.locals <+: s'.before.body.locals

namespace EmissionRun

variable {locals : List FieldType} {site : Site} {w : Workbench} {steps : List EmissionStep}

/-- **What one more emission preserves.** -/
theorem Sound.emit (h : Sound locals site w steps) {s : EmissionStep} {e : Expectation}
    (hmade : s.Made e) (hbefore : s.before = w) (hsite : s.site = site) :
    Sound locals site s.after (steps ++ [s]) := by
  subst hbefore hsite
  obtain ⟨places, hplaces⟩ := EmissionStep.exists_places hmade h.workbench
  refine ⟨h.workbench.emit (emit_eq_ok_iff.mpr ⟨e, hmade⟩), ?_, ?_, ?_⟩
  · exact List.forall_mem_append.mpr
      ⟨h.placed, List.forall_mem_singleton.mpr ⟨e, places, hmade, hplaces⟩⟩
  · exact List.forall_mem_append.mpr ⟨fun s' hs' => (h.kept s' hs').trans hplaces.grows,
      List.forall_mem_singleton.mpr (List.prefix_refl _)⟩
  · refine List.pairwise_append.mpr ⟨h.ordered, List.pairwise_singleton _ _, ?_⟩
    intro s' hs' s'' hs''
    obtain rfl := List.mem_singleton.mp hs''
    exact h.kept s' hs'

/-- **So it is after any emissions into a body.** -/
theorem sound (h : EmissionRun locals site w steps) : Sound locals site w steps := by
  induction h with
  | start site locals_eq =>
    subst locals_eq
    exact ⟨⟨List.prefix_refl _, nofun⟩, List.forall_mem_nil _, List.forall_mem_nil _, .nil⟩
  | emit before emits ih =>
    obtain ⟨e, hmade⟩ := emit_eq_ok_iff.mp emits
    exact ih.emit (s := ⟨_, _, _, _, _, _⟩) hmade rfl rfl
  | turn site' before locals_eq ih =>
    refine ⟨⟨?_, nofun⟩, ih.placed, ?_, ih.ordered⟩
    · show locals <+: _
      rw [locals_eq]
      exact ih.workbench.grows
    · show ∀ s ∈ _, _ <+: _
      rw [locals_eq]
      exact ih.kept

end EmissionRun

/-! ### Splicing is such a run. -/

theorem locals_assignLabels (code : List PendingEntry) (body : Body) :
    (Block.assignLabels code body).2.locals = body.locals := by
  induction code generalizing body with
  | nil => rfl
  | cons e code ih =>
    unfold Block.assignLabels
    dsimp only
    rw [ih]
    cases e.label <;> rfl

namespace EmissionRun

variable {s : Splicer} {locals : List FieldType} {site : Site} {block : Block} {w : Workbench}
  {out : Block × Workbench} {steps : List EmissionStep}

/-- A step puts the patch in that has this number. -/
def For (s : Splicer) (id : PatchId) (step : EmissionStep) : Prop :=
  s.registry.patch? id = some step.patch

theorem exists_of_appendPatch (h : EmissionRun locals site w steps) {id : PatchId}
    (happend : s.appendPatch site (block, w) id = .ok out) :
    ∃ step, EmissionRun locals site out.2 (steps ++ [step]) ∧ For s id step := by
  obtain ⟨patch, copy, made, hfound, -, hemit, -⟩ := Splicer.steps_of_appendPatch happend
  exact ⟨_, h.emit hemit, hfound⟩

theorem exists_of_appendPatches {ids : List PatchId} (h : EmissionRun locals site w steps)
    (happend : ids.foldlM (s.appendPatch site) (block, w) = .ok out) :
    ∃ more, EmissionRun locals site out.2 (steps ++ more) ∧ List.Forall₂ (For s) ids more := by
  induction ids generalizing block w steps with
  | nil =>
    obtain rfl : (block, w) = out := Except.ok.inj happend
    exact ⟨[], by simpa using h, .nil⟩
  | cons id ids ih =>
    rw [List.foldlM_cons] at happend
    obtain ⟨⟨block', w'⟩, hfirst, hrest⟩ := bind_eq_ok_iff.mp happend
    obtain ⟨step, hstep, hfor⟩ := h.exists_of_appendPatch hfirst
    obtain ⟨more, hmore, hids⟩ := ih hstep hrest
    exact ⟨step :: more, by simpa using hmore, .cons hfor hids⟩

theorem exists_of_appendReplacement {kept : Entry} {replace : Option PatchId}
    (h : EmissionRun locals site w steps)
    (happend : s.appendReplacement site kept (block, w) replace = .ok out) :
    ∃ more, EmissionRun locals site out.2 (steps ++ more)
      ∧ List.Forall₂ (For s) replace.toList more := by
  cases replace with
  | none =>
    obtain ⟨block', -, heq⟩ := bind_eq_ok_iff.mp happend
    obtain rfl := Except.ok.inj heq
    exact ⟨[], by simpa using h, .nil⟩
  | some id =>
    obtain ⟨step, hstep, hfor⟩ := h.exists_of_appendPatch happend
    exact ⟨[step], hstep, .cons hfor .nil⟩

/-- The patches of a container are put in on a workbench of their own. -/
theorem exists_of_container {site' : Site} {plan : SitePlan} {kept : Entry} {body : Body}
    (h : EmissionRun locals site w steps) (hlocals : body.locals = w.body.locals)
    (hmade : s.container site' kept plan body = .ok out) :
    ∃ more, EmissionRun locals site' out.2 (steps ++ more)
      ∧ List.Forall₂ (For s) plan.patches more := by
  obtain ⟨block₁, w₁, block₂, w₂, block₃, hbefore, hreplace, hafter, -⟩ :=
    Splicer.steps_of_container hmade
  obtain ⟨before, hrun₁, hids₁⟩ := (h.turn site' hlocals).exists_of_appendPatches hbefore
  obtain ⟨instead, hrun₂, hids₂⟩ := hrun₁.exists_of_appendReplacement hreplace
  obtain ⟨after, hrun₃, hids₃⟩ := hrun₂.exists_of_appendPatches hafter
  refine ⟨before ++ instead ++ after, by simpa using hrun₃, ?_⟩
  exact List.rel_append (List.rel_append hids₁ hids₂) hids₃

/-- **The patches that a splice run applies are emitted one after another**, into the body that it
ends with. -/
theorem exists_of_spliceFrom {method : MethodRef} {depths : Depths} {plans : SitePlans}
    {count index cursor : Nat} {b c : Body} (h : EmissionRun locals site w steps)
    (hlocals : b.locals = w.body.locals)
    (hok : (s.spliceFrom method depths plans count index cursor b).outcome = .ok c) :
    ∃ site' w' more, EmissionRun locals site' w' (steps ++ more) ∧ c.locals = w'.body.locals
      ∧ List.Forall₂ (For s) (s.spliceFrom method depths plans count index cursor b).applied
          more := by
  induction count generalizing index cursor b site w steps with
  | zero =>
    obtain rfl := Except.ok.inj hok
    exact ⟨site, w, [], by simpa using h, hlocals, .nil⟩
  | succ count ih =>
    unfold Splicer.spliceFrom at hok ⊢
    dsimp only at hok ⊢
    split
    · next hempty =>
      rw [if_pos hempty] at hok
      exact ih h hlocals hok
    · next hempty =>
      rw [if_neg hempty] at hok
      split
      · next e he => simp [he] at hok
      · next step b' hmade =>
        simp only [hmade] at hok
        cases (Splicer.puts_of_spliceAt hmade).1 with
        | @container front rest entries kept before after mid w₁ drawn retargeted _ made _ _
            assigned first =>
          obtain ⟨more, hrun, hids⟩ := h.exists_of_container hlocals made
          have hdrawn : drawn.locals = w₁.body.locals := by
            have hassigned :=
              locals_assignLabels (s.containerCode (plans.at index) kept before after) w₁.body
            rwa [assigned] at hassigned
          obtain ⟨site', w', later, hlater, hc, hrest⟩ := ih hrun (by simpa using hdrawn) hok
          refine ⟨site', w', more ++ later, by simpa using hlater, hc, ?_⟩
          exact List.rel_append hids hrest

/-- A run that puts patches into a body emits them into it. -/
theorem exists_of_splice {method : MethodRef} {depths : Depths} {plans : SitePlans} {b c : Body}
    (hok : (s.splice method b depths plans).outcome = .ok c) :
    ∃ site w steps, EmissionRun b.locals site w steps ∧ c.locals = w.body.locals
      ∧ List.Forall₂ (For s) (s.splice method b depths plans).applied steps := by
  obtain ⟨woven, hwoven, hchecked⟩ := bind_eq_ok_iff.mp hok
  obtain rfl : woven = c := by
    split at hchecked
    · exact Except.ok.inj hchecked
    · contradiction
  exact (start ⟨method, .nop, 0⟩ rfl).exists_of_spliceFrom rfl hwoven

end EmissionRun

/-! ## §4. As far as 16 bits go. -/

/-- A new local has the slot that its place comes to. -/
theorem Body.toNat_allocate (b : Body) (type : FieldType) :
    (b.allocate type).1.toNat = b.locals.length % 65536 := UInt16.toNat_ofNat

/-- **The slot of a new local is its own exactly if it is one of the first 65536**: it then
designates the local added, and no earlier one. -/
theorem Body.allocate_designates_iff (b : Body) (type : FieldType) :
    ((b.allocate type).2.locals[(b.allocate type).1.toNat]? = some type
        ∧ b.locals.length ≤ (b.allocate type).1.toNat) ↔ b.locals.length < 65536 := by
  rw [b.toNat_allocate]
  constructor
  · rintro ⟨-, hle⟩
    have := Nat.mod_lt b.locals.length (show 0 < 65536 by omega)
    omega
  · intro hlt
    rw [Nat.mod_eq_of_lt hlt]
    refine ⟨?_, Nat.le_refl _⟩
    show (b.locals ++ [type])[b.locals.length]? = _
    simp

/-- Behind the receiver, if there is one, arguments are parameters. -/
theorem MethodRef.argumentType?_parameter (m : MethodRef) (i : Nat) :
    m.argumentType? (i + (!m.isStatic).toNat) = m.descriptor.parameters[i]? := by
  unfold argumentType? argumentTypes
  cases m.isStatic <;> rfl

theorem MethodRef.toNat_parameterSlot (m : MethodRef) (i : Nat) :
    (m.parameterSlot i).toNat = (i + (!m.isStatic).toNat) % 65536 := UInt16.toNat_ofNat

/-- Places that 16 bits can tell are told by them. -/
theorem map_toNat_slots {places : List Nat} (h : ∀ k ∈ places, k < 65536) :
    (places.map UInt16.ofNat).map (·.toNat) = places := by
  rw [List.map_map]
  exact (List.map_congr_left fun k hk => toNat_slot (h k hk)).trans (List.map_id places)

/-- What a step stores is kept apart: each value gets a local of its own and of its type, and none
of the given ones. -/
structure EmissionStep.Apart (s : EmissionStep) (e : Expectation)
    (locals final : List FieldType) : Prop where
  nodup : (storedSlots s.code).Nodup
  spares : ∀ slot ∈ storedSlots s.code, locals.length ≤ slot.toNat
  typed : (storedSlots s.code).map (fun slot => final[slot.toNat]?)
    = (s.patch.kind.storedTypes s.copy e.synthetic).map some

namespace EmissionStep.Places

variable {s s' : EmissionStep} {e e' : Expectation} {locals final : List FieldType}
  {places places' : List Nat}

/-- Places are those of locals that there are. -/
theorem lt_length (h : s.Places e locals places) {k : Nat} (hk : k ∈ places) :
    k < s.after.body.locals.length := by
  have hmem : s.after.body.locals[k]? ∈ places.map (s.after.body.locals[·]?) :=
    List.mem_map_of_mem hk
  rw [h.typed] at hmem
  obtain ⟨type, -, htype⟩ := List.mem_map.mp hmem
  exact (List.getElem?_eq_some_iff.mp htype.symm).1

/-- **As long as there are no more than 65536 locals, what is stored is kept apart.** -/
theorem apart (h : s.Places e locals places) (hgrows : s.after.body.locals <+: final)
    (hroom : final.length ≤ 65536) : s.Apart e locals final := by
  have hbound (k : Nat) (hk : k ∈ places) : k < 65536 :=
    Nat.lt_of_lt_of_le (h.lt_length hk) (Nat.le_trans hgrows.length_le hroom)
  have hslots := map_toNat_slots hbound
  refine ⟨?_, ?_, ?_⟩
  · rw [h.touches.storedSlots_eq]
    refine List.Nodup.of_map (·.toNat) ?_
    rw [hslots]
    exact h.nodup
  · rw [h.touches.storedSlots_eq]
    intro slot hslot
    obtain ⟨k, hk, rfl⟩ := List.mem_map.mp hslot
    rw [toNat_slot (hbound k hk)]
    exact h.behind k hk
  · rw [h.touches.storedSlots_eq, ← h.typed, List.map_map]
    refine List.map_congr_left fun k hk => ?_
    obtain ⟨more, rfl⟩ := hgrows
    show (s.after.body.locals ++ more)[(UInt16.ofNat k).toNat]? = _
    rw [toNat_slot (hbound k hk), List.getElem?_append_left (h.lt_length hk)]

/-- **A later step stores to no local of an earlier one**, but for a callback that it shares. -/
theorem not_mem_of_later (h : s.Places e locals places) (h' : s'.Places e' locals places')
    (horder : s.after.body.locals <+: s'.before.body.locals)
    (hroom : s'.after.body.locals.length ≤ 65536) {slot : Slot}
    (hslot : slot ∈ storedSlots s'.code) :
    s'.before.callback = some slot ∨ slot ∉ storedSlots s.code := by
  rw [h'.touches.storedSlots_eq] at hslot
  obtain ⟨k, hk, rfl⟩ := List.mem_map.mp hslot
  refine (h'.fresh k hk).imp_right fun hfresh hmem => ?_
  rw [h.touches.storedSlots_eq] at hmem
  obtain ⟨j, hj, heq⟩ := List.mem_map.mp hmem
  have hjk : j < k :=
    Nat.lt_of_lt_of_le (h.lt_length hj) (Nat.le_trans horder.length_le hfresh)
  have hk' := Nat.lt_of_lt_of_le (h'.lt_length hk) hroom
  have htoNat := congrArg UInt16.toNat heq
  rw [toNat_slot (Nat.lt_trans hjk hk'), toNat_slot hk'] at htoNat
  omega

end EmissionStep.Places

/-- **Slots designate what they were made for, as far as 16 bits go.**

A slot is a place modulo 65536, so a new local has a slot of its own exactly if it is one of the
first 65536, and so it is with parameters behind the receiver. Code for patches goes by places:
after any emissions into a body, every step has stored to places of its own behind the locals of the
body, with the types of what it stored, and has loaded the receiver and the parameters that it
passes on. So if the body has no more than 65536 locals by then, no two values of a step share a
local, no store hits a local that the body had, and no later step stores to a local of an earlier
one, but for the callback that the patches of an instruction share. Putting patches into a body is
such a run. -/
theorem slots_name_places (b : Body) (type : FieldType) (m : MethodRef) (i : Nat)
    {locals : List FieldType} {site : Site} {w : Workbench} {steps : List EmissionStep}
    (hrun : EmissionRun locals site w steps) :
    ((b.allocate type).1.toNat = b.locals.length % 65536
      ∧ (((b.allocate type).2.locals[(b.allocate type).1.toNat]? = some type
        ∧ b.locals.length ≤ (b.allocate type).1.toNat) ↔ b.locals.length < 65536))
      ∧ (m.argumentType? (i + (!m.isStatic).toNat) = m.descriptor.parameters[i]?
        ∧ (m.parameterSlot i).toNat = (i + (!m.isStatic).toNat) % 65536
        ∧ ((m.parameterSlot i).toNat = i + (!m.isStatic).toNat
          ↔ i + (!m.isStatic).toNat < 65536))
      ∧ (∀ s ∈ steps, ∃ e places, s.Made e ∧ s.Places e locals places
        ∧ (w.body.locals.length ≤ 65536 → s.Apart e locals w.body.locals))
      ∧ (w.body.locals.length ≤ 65536 → steps.Pairwise fun s s' =>
        ∀ slot ∈ storedSlots s'.code, s'.before.callback = some slot ∨ slot ∉ storedSlots s.code)
      ∧ ∀ (s : Splicer) method body depths plans woven,
        (s.splice method body depths plans).outcome = .ok woven →
          ∃ site w steps, EmissionRun body.locals site w steps ∧ woven.locals = w.body.locals
            ∧ List.Forall₂ (EmissionRun.For s) (s.splice method body depths plans).applied
                steps := by
  refine ⟨⟨b.toNat_allocate type, b.allocate_designates_iff type⟩,
    ⟨m.argumentType?_parameter i, m.toNat_parameterSlot i, ?_⟩, fun s hs => ?_, fun hroom => ?_,
    fun s method body depths plans woven hok => EmissionRun.exists_of_splice hok⟩
  · rw [m.toNat_parameterSlot]
    exact ⟨fun h => by omega, Nat.mod_eq_of_lt⟩
  · obtain ⟨e, places, hmade, hplaces⟩ := hrun.sound.placed s hs
    exact ⟨e, places, hmade, hplaces, hplaces.apart (hrun.sound.kept s hs)⟩
  · refine hrun.sound.ordered.imp_of_mem fun {s s'} hs hs' horder slot hslot => ?_
    obtain ⟨_, _, -, hplaces⟩ := hrun.sound.placed s hs
    obtain ⟨_, _, -, hplaces'⟩ := hrun.sound.placed s' hs'
    have hlast := (hrun.sound.kept s' hs').length_le
    exact hplaces.not_mem_of_later hplaces' horder (Nat.le_trans hlast hroom) hslot

/-- Both operands of a call that is replaced are put aside, in locals of their own. -/
theorem slots_name_places_detour :
    ∃ s : EmissionStep, s.patch = Detour.patch ∧ EmissionRun [] Detour.site s.after [s]
      ∧ ∃ e, s.Made e ∧ s.Apart e [] [.object Detour.target, .int] := by
  obtain ⟨⟨block, w'⟩, hemit⟩ :
      ∃ out, emit Detour.patch Detour.site Detour.copy ⟨Detour.body, none⟩ = .ok out := ⟨_, rfl⟩
  have hlocals : w'.body.locals = [.object Detour.target, .int] := by
    simpa [hemit, Except.toOption] using Detour.locals_emit
  have hrun : EmissionRun [] Detour.site w'
      [⟨Detour.patch, Detour.site, Detour.copy, ⟨Detour.body, none⟩, block, w'⟩] :=
    .emit (.start Detour.site rfl) hemit
  obtain ⟨-, -, hsteps, -⟩ := slots_name_places Detour.body .int Detour.method 0 hrun
  obtain ⟨e, -, hmade, -, hapart⟩ := hsteps _ List.mem_cons_self
  rw [hlocals] at hapart
  exact ⟨_, rfl, hrun, e, hmade, hapart (by decide)⟩

/-! ### A body with 65536 locals. -/

namespace Overfull

/-- As many locals as there are slots. -/
def body : Body := { entries := [], locals := List.replicate 65536 .int }

/-- A patch that runs before an instruction, and needs a local for its callback. -/
def patch : Patch := { Detour.patch with injector := { kind := .inject false .dont } }

theorem emit_patch (w : Workbench) :
    emit patch Detour.site Detour.copy w = emitInject Detour.site Detour.copy false w := rfl

theorem locals_body : body.locals = List.replicate 65536 .int := rfl

theorem length_locals_body : body.locals.length = 65536 := List.length_replicate

theorem fst_allocate_body (type : FieldType) : (body.allocate type).1 = 0 := by
  unfold Body.allocate Body.nextSlot
  rw [length_locals_body]
  rfl

theorem getElem?_concat_locals {n : Nat} (h : body.locals.length = n) :
    (body.allocate .long).2.locals[n]? = some .long := by
  subst h
  exact List.getElem?_concat_length

theorem fst_callbackSlot_body (type : FieldType) :
    (Workbench.callbackSlot ⟨body, none⟩ type).1 = 0 := fst_allocate_body type

end Overfull

/-- **The next local has the slot of the first one**: it does not designate what was added, and a
patch stores its callback to a local that the body had. -/
theorem local_shares_slot :
    Overfull.body.locals.length = 65536
      ∧ (Overfull.body.allocate .long).1 = 0
      ∧ (Overfull.body.allocate .long).2.locals[65536]? = some .long
      ∧ (Overfull.body.allocate .long).2.locals[0]? = some .int
      ∧ ∃ out, emit Overfull.patch Detour.site Detour.copy ⟨Overfull.body, none⟩ = .ok out
        ∧ storedSlots (out.1.entries.map (·.instruction)) = [0] := by
  have hlength := Overfull.length_locals_body
  have hemit := emitInject_of_not_cancellable Detour.site Detour.copy ⟨Overfull.body, none⟩
  rw [← Overfull.emit_patch] at hemit
  refine ⟨hlength, Overfull.fst_allocate_body .long, Overfull.getElem?_concat_locals hlength, ?_, _,
    hemit, ?_⟩
  · have hpos : 0 < Overfull.body.locals.length := by omega
    rw [Body.locals_allocate, List.getElem?_append_left hpos, Overfull.locals_body,
      List.getElem?_replicate, if_pos (by omega)]
  · dsimp only
    rw [map_instruction_unlabelled, (touches_callbackCall false _).storedSlots_eq,
      Overfull.fst_callbackSlot_body]

end PatchWeaver

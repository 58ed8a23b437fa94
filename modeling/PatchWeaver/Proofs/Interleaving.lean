/-
  PatchWeaver.Proofs.Interleaving
  ───────────────────────────────
  **WHAT IS WRITTEN INTO A BODY, WHATEVER THE PATCHES ARE.**

  Putting patches into a body succeeds or fails; where it succeeds, the new
  body holds the entries of the old one in their order, with entries of the
  run between them:

      old      e₀        e₁        e₂
      new      e₀   x y  e₁   z    w  u        e₂ was replaced

  An old entry keeps its label, its origin and its instruction, up to where
  its jump leads.  An entry of the run has another origin than those of
  declared methods, a label that was drawn for it, and it names no members
  but those of the support classes and copies.

  All of this is read off success alone.  It asks nothing of the patches or
  of the labels, so it also holds where names of mixins are repeated.

  Main results:
    * `Splicer.puts_of_spliceAt` — what one step does to a body.
    * `Splicer.Weaves.turns` — what splicing does to it.
-/
import PatchWeaver.Proofs.Preparing

namespace PatchWeaver

/-! ## §1. Entries between entries. -/

theorem Entry.rename_id (e : Entry) : e.rename id = e := Entry.rename_eq_self fun _ _ => rfl

/-- New entries come from old ones in their order: an old entry is kept, up to where its jump leads,
or left out, and others are written between them. -/
inductive Interleaves (written : Entry → Prop) : List Entry → List Entry → Prop where
  | nil : Interleaves written [] []
  | kept {e : Entry} {old new : List Entry} (f : Label → Label)
      (rest : Interleaves written old new) : Interleaves written (e :: old) (e.rename f :: new)
  | dropped {e : Entry} {old new : List Entry} (rest : Interleaves written old new) :
      Interleaves written (e :: old) new
  | wrote {e : Entry} {old new : List Entry} (h : written e)
      (rest : Interleaves written old new) : Interleaves written old (e :: new)

namespace Interleaves

variable {written written' : Entry → Prop} {old new old' new' : List Entry}

theorem refl (written : Entry → Prop) (entries : List Entry) :
    Interleaves written entries entries := by
  induction entries with
  | nil => exact .nil
  | cons e rest ih =>
    have hkept := ih.kept (e := e) id
    rwa [Entry.rename_id] at hkept

theorem mono (h : Interleaves written old new) (hwritten : ∀ e, written e → written' e) :
    Interleaves written' old new := by
  induction h with
  | nil => exact .nil
  | kept f _ ih => exact .kept f ih
  | dropped _ ih => exact .dropped ih
  | wrote he _ ih => exact .wrote (hwritten _ he) ih

theorem of_written (h : ∀ e ∈ new, written e) : Interleaves written [] new := by
  induction new with
  | nil => exact .nil
  | cons e rest ih =>
    rw [List.forall_mem_cons] at h
    exact .wrote h.1 (ih h.2)

theorem append (h : Interleaves written old new) (h' : Interleaves written old' new') :
    Interleaves written (old ++ old') (new ++ new') := by
  induction h with
  | nil => exact h'
  | kept f _ ih => exact .kept f ih
  | dropped _ ih => exact .dropped ih
  | wrote he _ ih => exact .wrote he ih

theorem dropAll (entries : List Entry) (h : Interleaves written old new) :
    Interleaves written (entries ++ old) new := by
  induction entries with
  | nil => exact h
  | cons e rest ih => exact .dropped ih

/-- Every new entry was written or kept. -/
theorem exists_of_mem (h : Interleaves written old new) {x : Entry} (hx : x ∈ new) :
    written x ∨ ∃ e ∈ old, ∃ f, x = e.rename f := by
  induction h with
  | nil => simp at hx
  | @kept e _ _ f _ ih =>
    rcases List.mem_cons.mp hx with rfl | hx
    · exact .inr ⟨e, List.mem_cons_self, f, rfl⟩
    · exact (ih hx).imp_right fun ⟨e', he', hkept⟩ => ⟨e', List.mem_cons_of_mem _ he', hkept⟩
  | dropped _ ih =>
    exact (ih hx).imp_right fun ⟨e', he', hkept⟩ => ⟨e', List.mem_cons_of_mem _ he', hkept⟩
  | wrote he _ ih =>
    rcases List.mem_cons.mp hx with rfl | hx
    · exact .inl he
    · exact ih hx

/-- What stands first was written, or is the first of the old entries that was not left out. -/
theorem exists_of_cons {x : Entry} (h : Interleaves written old (x :: new)) :
    ∃ left rest, old = left ++ rest ∧ ((written x ∧ Interleaves written rest new)
      ∨ ∃ e f behind, rest = e :: behind ∧ x = e.rename f ∧ Interleaves written behind new) := by
  generalize hnew : x :: new = all at h
  induction h with
  | nil => contradiction
  | @kept e behind _ f rest _ =>
    obtain ⟨rfl, rfl⟩ := List.cons.inj hnew
    exact ⟨[], _, rfl, .inr ⟨e, f, behind, rfl, rfl, rest⟩⟩
  | @dropped e _ _ _ ih =>
    obtain ⟨left, rest, rfl, hfirst⟩ := ih hnew
    exact ⟨e :: left, rest, rfl, hfirst⟩
  | wrote he rest _ =>
    obtain ⟨rfl, rfl⟩ := List.cons.inj hnew
    exact ⟨[], _, rfl, .inl ⟨he, rest⟩⟩

section

variable (hrename : ∀ (f : Label → Label) (e : Entry), written e → written (e.rename f))

include hrename

/-- Sending jumps elsewhere leaves entries what they are, kept or written. -/
theorem map_rename (h : Interleaves written old new) (f : Label → Label) :
    Interleaves written old (new.map (Entry.rename f)) := by
  induction h with
  | nil => exact .nil
  | kept g _ ih =>
    rw [List.map_cons, Entry.rename_rename]
    exact .kept (f ∘ g) ih
  | dropped _ ih => exact .dropped ih
  | wrote he _ ih => exact .wrote (hrename f _ he) ih

theorem trans {last : List Entry} (h : Interleaves written old new)
    (h' : Interleaves written new last) : Interleaves written old last := by
  induction h' generalizing old with
  | nil => exact h
  | kept f _ ih =>
    obtain ⟨left, rest, rfl, ⟨hwritten, hrest⟩ | ⟨e, g, behind, rfl, rfl, hbehind⟩⟩ :=
      h.exists_of_cons
    · exact dropAll left (.wrote (hrename f _ hwritten) (ih hrest))
    · rw [Entry.rename_rename]
      exact dropAll left (.kept (f ∘ g) (ih hbehind))
  | dropped _ ih =>
    obtain ⟨left, rest, rfl, ⟨-, hrest⟩ | ⟨e, g, behind, rfl, -, hbehind⟩⟩ := h.exists_of_cons
    · exact dropAll left (ih hrest)
    · exact dropAll left (.dropped (ih hbehind))
  | wrote he _ ih => exact .wrote he (ih h)

end

end Interleaves

/-! ## §2. What the code of a patch is made of. -/

namespace Instruction

/-- The method that an instruction calls, or the constructor that it runs. -/
def method? : Instruction → Option MethodRef
  | .invoke _ callee => some callee
  | .new constructor => some constructor
  | _ => none

/-- The field that an instruction accesses. -/
def field? : Instruction → Option FieldRef
  | .getField field => some field
  | .putField field => some field
  | _ => none

/-- The constant that an instruction pushes. -/
def constant? : Instruction → Option Constant
  | .push constant => some constant
  | _ => none

@[simp]
theorem method?_rename (f : Label → Label) (i : Instruction) :
    (i.rename f).method? = i.method? := by
  cases i <;> rfl

@[simp]
theorem field?_rename (f : Label → Label) (i : Instruction) : (i.rename f).field? = i.field? := by
  cases i <;> rfl

/-- The instructions that a patch is turned into, where an instruction calls for it. -/
inductive MadeFor (site : Instruction) (copy : MethodRef) : Instruction → Prop where
  /-- It names no member and pushes no constant. -/
  | plain {i : Instruction} (method : i.method? = none) (field : i.field? = none)
      (constant : i.constant? = none) : MadeFor site copy i
  /-- It calls a member of the support classes. -/
  | support {i : Instruction} {m : MethodRef} (member : m ∈ Support.members)
      (method : i.method? = some m) (field : i.field? = none) (constant : i.constant? = none) :
      MadeFor site copy i
  /-- It calls the copy. -/
  | call : MadeFor site copy (.invoke .direct copy)
  /-- It pushes whether the patch may cancel. -/
  | flag (value : Int32) : MadeFor site copy (.push (.int value))
  /-- It pushes the constant that the copy gets to change. -/
  | constant {c : Constant} (pushed : site = .push c) : MadeFor site copy (.push c)

end Instruction

section

open Instruction (MadeFor)

variable {site : Site} {copy : MethodRef}

theorem constructor_mem_members (returnsValue : Bool) :
    Support.constructor returnsValue ∈ Support.members := by
  cases returnsValue <;> simp [Support.members]

/-- A call is made of what its arguments are loaded with, and of the call of the copy. -/
theorem made_callInstructions {target : MethodRef} {synthetic : List SyntheticArgument}
    (hloads : ∀ i ∈ synthetic.flatMap (·.load), MadeFor site.instruction copy i) :
    ∀ i ∈ callInstructions target copy synthetic, MadeFor site.instruction copy i := by
  intro i hi
  unfold callInstructions at hi
  simp only [List.mem_append, List.mem_singleton] at hi
  -- the receiver, the arguments made up for the copy, those handed on, and the call
  rcases hi with ((hi | hi) | hi) | rfl
  · unfold loadReceiver at hi
    split at hi
    · simp at hi
    · rw [List.mem_singleton.mp hi]
      exact .plain rfl rfl rfl
  · exact hloads i hi
  · obtain ⟨k, -, rfl⟩ := List.mem_map.mp hi
    exact .plain rfl rfl rfl
  · exact .call

theorem made_callWithOperands (types : List FieldType) (body : Body) :
    ∀ i ∈ (callWithOperands site copy types body).1, MadeFor site.instruction copy i := by
  -- a static copy takes the operands off the stack; otherwise they wait in variables
  cases hstatic : copy.isStatic with
  | true =>
    rw [callWithOperands_of_static types body hstatic]
    refine made_callInstructions fun i hi => ?_
    rw [flatMap_load_onStack] at hi
    simp at hi
  | false =>
    rw [callWithOperands_of_instance types body hstatic, List.forall_mem_append]
    refine ⟨fun i hi => ?_, made_callInstructions fun i hi => ?_⟩
    · obtain ⟨slot, -, rfl⟩ := List.mem_map.mp hi
      exact .plain rfl rfl rfl
    · rw [flatMap_load_spilled (length_allocateAll body types)] at hi
      obtain ⟨slot, -, rfl⟩ := List.mem_map.mp hi
      exact .plain rfl rfl rfl

theorem made_callbackCall (cancellable : Bool) (slot : Slot) :
    ∀ i ∈ callbackCall site copy cancellable slot, MadeFor site.instruction copy i := by
  unfold callbackCall
  refine List.forall_mem_append.mpr ⟨?_, made_callInstructions ?_⟩
  · simp only [List.forall_mem_cons]
    refine ⟨.flag _, ?_, .plain rfl rfl rfl, List.forall_mem_nil _⟩
    exact .support (constructor_mem_members _) rfl rfl rfl
  · exact List.forall_mem_singleton.mpr (.plain rfl rfl rfl)

/-- Returning in place of the method asks the callback for the value, if there is one. -/
theorem made_cancellation (slot : Slot) (resume : Label) :
    ∀ i ∈ cancellation site slot resume, MadeFor site.instruction copy i := by
  have hresult : ∀ i ∈ callbackResult site.method slot, MadeFor site.instruction copy i := by
    unfold callbackResult
    split
    · exact List.forall_mem_nil _
    · simp only [List.forall_mem_cons]
      refine ⟨.plain rfl rfl rfl, ?_, .plain rfl rfl rfl, List.forall_mem_nil _⟩
      exact .support (by simp [Support.members]) rfl rfl rfl
  unfold cancellation
  simp only [List.forall_mem_append, List.forall_mem_cons]
  refine ⟨⟨⟨⟨.plain rfl rfl rfl, ?_, .plain rfl rfl rfl, List.forall_mem_nil _⟩, ?_⟩, hresult⟩,
    .plain rfl rfl rfl, List.forall_mem_nil _⟩
  · exact .support (by simp [Support.members]) rfl rfl rfl
  · intro i hi
    rw [List.eq_of_mem_replicate hi]
    exact .plain rfl rfl rfl

/-- A guarded call is the call, the check, and the return in place of the method. -/
theorem made_guardedCall {slot : Slot} {resume : Label} :
    ∀ p ∈ guardedCall site copy slot resume, MadeFor site.instruction copy p.instruction := by
  intro p hp
  have hparts : p.instruction ∈ callbackCall site copy true slot
      ++ cancellation site slot resume ++ [.nop] := by
    have hmap := List.mem_map_of_mem (f := PendingEntry.instruction) hp
    simpa [guardedCall, unlabelled, cancellation, unwinding] using hmap
  rcases List.mem_append.mp hparts with hparts | hnop
  · rcases List.mem_append.mp hparts with hcall | hcancel
    · exact made_callbackCall true slot p.instruction hcall
    · exact made_cancellation slot resume p.instruction hcancel
  · rw [List.mem_singleton.mp hnop]
    exact .plain rfl rfl rfl

/-- **What a patch is turned into**, instruction by instruction. -/
theorem made_of_emit {patch : Patch} {w : Workbench} {out : Block × Workbench}
    (h : emit patch site copy w = .ok out) :
    ∀ p ∈ out.1.entries, MadeFor site.instruction copy p.instruction := by
  have hunlabelled {code : List Instruction} (hcode : ∀ i ∈ code, MadeFor site.instruction copy i) :
      ∀ p ∈ unlabelled .injected code, MadeFor site.instruction copy p.instruction := by
    intro p hp
    obtain ⟨i, hi, rfl⟩ := List.mem_map.mp hp
    exact hcode i hi
  -- one case for each kind of code that making it can end with
  obtain ⟨e, hout⟩ := emit_eq_ok_iff.mp h
  generalize patch.kind = kind at hout
  cases hout with
  | @callback cancellable _ _ emits =>
    cases cancellable with
    | false =>
      rw [emitInject_of_not_cancellable] at emits
      obtain rfl := Except.ok.inj emits
      exact hunlabelled (made_callbackCall false _)
    | true =>
      rw [emitInject_of_cancellable] at emits
      obtain rfl := Except.ok.inj emits
      exact made_guardedCall
  | @constant _ c pushed =>
    refine hunlabelled (made_callInstructions (List.forall_mem_singleton.mpr ?_))
    exact .constant (eq_of_pushedConstant pushed)
  | call _ => exact hunlabelled (made_callWithOperands _ _)
  | value _ => exact hunlabelled (made_callWithOperands _ _)

end

namespace Splicer

/-- An instruction names no members but those of the support classes and copies. -/
structure Knows (s : Splicer) (i : Instruction) : Prop where
  method : ∀ m, i.method? = some m → m ∈ Support.members ∨ s.copies.hasRef m = true
  field : i.field? = none

variable {s : Splicer} {i : Instruction} {copy : MethodRef}

theorem knows_of_silent (hmethod : i.method? = none) (hfield : i.field? = none) : s.Knows i :=
  ⟨fun m hm => by rw [hmethod] at hm; contradiction, hfield⟩

theorem Knows.rename (h : s.Knows i) (f : Label → Label) : s.Knows (i.rename f) :=
  ⟨by simpa using h.method, by simpa using h.field⟩

/-- What a patch is turned into names support members and its copy. -/
theorem knows_of_made {site : Instruction} (hcopy : s.copies.hasRef copy = true)
    (h : Instruction.MadeFor site copy i) : s.Knows i := by
  cases h with
  | plain method field _ => exact knows_of_silent method field
  | support member method field _ =>
    exact ⟨fun _ heq => .inl (Option.some_inj.mp (method.symm.trans heq) ▸ member), field⟩
  | call => exact ⟨fun _ hm => .inr (Option.some_inj.mp hm ▸ hcopy), rfl⟩
  | flag _ => exact knows_of_silent rfl rfl
  | constant _ => exact knows_of_silent rfl rfl

/-- A marker does nothing, or pushes a text and drops it. -/
theorem eq_of_mem_markerInstructions {text : String} (h : i ∈ s.markerInstructions text) :
    i = .nop ∨ i = .push (.string text) ∨ i = .pop := by
  unfold markerInstructions at h
  split at h
  · simp only [List.mem_cons, List.not_mem_nil, or_false] at h
    rcases h with h | h | h | h <;> simp [h]
  · exact .inl (List.mem_singleton.mp h)

theorem knows_marker {origin : Origin} {text : String} :
    ∀ p ∈ unlabelled origin (s.markerInstructions text), s.Knows p.instruction := by
  intro p hp
  obtain ⟨i, hi, rfl⟩ := List.mem_map.mp hp
  rcases eq_of_mem_markerInstructions hi with rfl | rfl | rfl <;> exact knows_of_silent rfl rfl

/-! ## §3. Code of patches. -/

/-- Code that was made for patches while a workbench changed to another one. -/
structure Writes (s : Splicer) (w w' : Workbench) (code : List PendingEntry) : Prop where
  foreign : ∀ p ∈ code, p.origin ≠ .declared
  known : ∀ p ∈ code, s.Knows p.instruction
  grows : w.body.Extends w'.body
  drawn : Drawn w.body.nextId w'.body.nextId (placedLabels code)

namespace Writes

theorem nil (w : Workbench) : s.Writes w w [] where
  foreign := by simp
  known := by simp
  grows := .refl w.body
  drawn := .nil _ _

theorem append {w w' w'' : Workbench} {code code' : List PendingEntry} (h : s.Writes w w' code)
    (h' : s.Writes w' w'' code') : s.Writes w w'' (code ++ code') where
  foreign := List.forall_mem_append.mpr ⟨h.foreign, h'.foreign⟩
  known := List.forall_mem_append.mpr ⟨h.known, h'.known⟩
  grows := h.grows.trans h'.grows
  drawn := by
    rw [placedLabels_append]
    exact h.drawn.append h'.drawn h.grows.nextId_le h'.grows.nextId_le

/-- Code without labels of its own. -/
theorem of_unlabelled {w w' : Workbench} {origin : Origin} {code : List Instruction}
    (horigin : origin ≠ .declared)
    (hknown : ∀ p ∈ unlabelled origin code, s.Knows p.instruction)
    (hgrows : w.body.Extends w'.body) : s.Writes w w' (unlabelled origin code) where
  foreign := by
    intro p hp
    obtain ⟨i, -, rfl⟩ := List.mem_map.mp hp
    exact horigin
  known := hknown
  grows := hgrows
  drawn := by
    rw [placedLabels_unlabelled]
    exact .nil _ _

end Writes

/-- The code of a patch that runs before an instruction. -/
theorem writes_of_emitInject {site : Site} {cancellable : Bool} {w : Workbench}
    {out : Block × Workbench} (hknown : ∀ p ∈ out.1.entries, s.Knows p.instruction)
    (h : emitInject site copy cancellable w = .ok out) :
    out.1.waiting = none ∧ s.Writes w out.2 out.1.entries := by
  have hgrows := extends_callbackSlot w (callbackType site.method)
  have hid := nextId_callbackSlot w (callbackType site.method)
  cases cancellable with
  | false =>
    rw [emitInject_of_not_cancellable] at h
    obtain rfl := Except.ok.inj h
    exact ⟨rfl, .of_unlabelled (by decide) hknown hgrows⟩
  | true =>
    rw [emitInject_of_cancellable] at h
    obtain rfl := Except.ok.inj h
    refine ⟨rfl, fun p hp => ?_, hknown, hgrows.trans (Body.extends_freshLabel _), ?_⟩
    · rw [origin_guardedCall hp]
      decide
    · -- the one label that is placed is the one that was drawn for it
      rw [placedLabels_guardedCall, hid]
      refine ⟨List.pairwise_singleton _ _, List.forall_mem_singleton.mpr ⟨Nat.le_refl _, ?_⟩⟩
      show w.body.nextId < Body.nextId (Body.freshLabel _).2
      rw [Body.nextId_freshLabel, hid]
      exact Nat.lt_succ_self _

/-- **What is made for a patch**, if something is. -/
theorem writes_of_emit {patch : Patch} {site : Site} {w : Workbench} {out : Block × Workbench}
    (hcopy : s.copies.hasRef copy = true) (h : emit patch site copy w = .ok out) :
    out.1.waiting = none ∧ s.Writes w out.2 out.1.entries := by
  have hknown : ∀ p ∈ out.1.entries, s.Knows p.instruction :=
    fun p hp => knows_of_made hcopy (made_of_emit h p hp)
  obtain ⟨e, hout⟩ := emit_eq_ok_iff.mp h
  generalize patch.kind = kind at hout
  cases hout with
  | callback emits => exact writes_of_emitInject hknown emits
  | constant _ => exact ⟨rfl, .of_unlabelled (by decide) hknown (.refl _)⟩
  | call _ =>
    exact ⟨rfl, .of_unlabelled (by decide) hknown (extends_callWithOperands site copy _ w.body)⟩
  | @value type _ =>
    exact ⟨rfl, .of_unlabelled (by decide) hknown
      (extends_callWithOperands site copy [type] w.body)⟩

end Splicer

theorem CopyTable.hasRef_of_find {t : CopyTable} {owner : ClassName} {source copy : MethodRef}
    (h : t.find owner source = .ok copy) : t.hasRef copy = true := by
  unfold find find? at h
  cases hfound : t.copies.reverse.find? fun c => c.ref.owner = owner ∧ c.source = source with
  | none =>
    rw [hfound] at h
    contradiction
  | some c =>
    rw [hfound] at h
    obtain rfl : c.ref = copy := Except.ok.inj h
    have hmem : c ∈ t.copies := List.mem_reverse.mp (List.mem_of_find?_eq_some hfound)
    unfold hasRef
    exact List.any_eq_true.mpr ⟨c, hmem, by simp⟩

/-! ## §4. Containers. -/

/-- A block is finished from its front to its end. -/
theorem Block.assignLabels_append (pending pending' : List PendingEntry) (b : Body) :
    assignLabels (pending ++ pending') b
      = ((assignLabels pending b).1 ++ (assignLabels pending' (assignLabels pending b).2).1,
          (assignLabels pending' (assignLabels pending b).2).2) := by
  induction pending generalizing b with
  | nil => rfl
  | cons p rest ih =>
    simp only [List.cons_append, assignLabels]
    cases p.label <;> simp [ih]

namespace Splicer

variable {s : Splicer} {site : Site} {block : Block} {w : Workbench} {out : Block × Workbench}

/-- The steps in which a patch is appended: its code is made with its copy, and put behind the
block. -/
theorem steps_of_appendPatch {id : PatchId} (h : s.appendPatch site (block, w) id = .ok out) :
    ∃ patch copy made, s.registry.patch? id = some patch
      ∧ s.copies.find site.method.owner patch.body = .ok copy
      ∧ emit patch site copy w = .ok (made, out.2) ∧ block.extend made = .ok out.1 := by
  unfold appendPatch at h
  obtain ⟨⟨made, w'⟩, hpatch, h⟩ := bind_eq_ok_iff.mp h
  obtain ⟨extended, hextend, h⟩ := bind_eq_ok_iff.mp h
  obtain rfl := Except.ok.inj h
  unfold patchBlock at hpatch
  split at hpatch
  · contradiction
  · next patch hfound =>
    obtain ⟨copy, hcopy, hemit⟩ := bind_eq_ok_iff.mp hpatch
    exact ⟨patch, copy, made, hfound, hcopy, hemit, liftMachine_eq_ok_iff.mp hextend⟩

/-- Appending a patch appends its code. -/
theorem writes_of_appendPatch {id : PatchId} (hblock : block.waiting = none)
    (h : s.appendPatch site (block, w) id = .ok out) :
    ∃ code, out.1 = { block with entries := block.entries ++ code } ∧ s.Writes w out.2 code := by
  obtain ⟨patch, copy, made, -, hcopy, hemit, hextend⟩ := steps_of_appendPatch h
  -- no label waits behind the code of a patch, so appending it is plain
  obtain ⟨hwaiting, hwrites⟩ := writes_of_emit (CopyTable.hasRef_of_find hcopy) hemit
  rw [Block.extend_of_not_waiting hblock hwaiting] at hextend
  exact ⟨made.entries, (Except.ok.inj hextend).symm, hwrites⟩

/-- Appending patches appends their codes. -/
theorem writes_of_appendPatches {ids : List PatchId} (hblock : block.waiting = none)
    (h : ids.foldlM (s.appendPatch site) (block, w) = .ok out) :
    ∃ code, out.1 = { block with entries := block.entries ++ code } ∧ s.Writes w out.2 code := by
  induction ids generalizing block w with
  | nil =>
    obtain rfl : (block, w) = out := Except.ok.inj h
    exact ⟨[], by simp, .nil w⟩
  | cons id ids ih =>
    rw [List.foldlM_cons] at h
    obtain ⟨⟨block', w'⟩, hfirst, hrest⟩ := bind_eq_ok_iff.mp h
    obtain ⟨code, hblock', hwrites⟩ := writes_of_appendPatch hblock hfirst
    obtain rfl : block' = { block with entries := block.entries ++ code } := hblock'
    have hnext : { block with entries := block.entries ++ code }.waiting = none := hblock
    obtain ⟨code', heq, hwrites'⟩ := ih hnext hrest
    exact ⟨code ++ code', by simpa [List.append_assoc] using heq, hwrites.append hwrites'⟩

/-- Appending the replacing patch appends its code, or else the instruction. -/
theorem writes_of_appendReplacement {plan : SitePlan} {kept : Entry}
    (hblock : block.waiting = none)
    (h : s.appendReplacement site kept (block, w) plan.replace = .ok out) :
    ∃ code, out.1 = { block with entries := block.entries ++ (code ++ keptEntries plan kept) }
      ∧ s.Writes w out.2 code ∧ (plan.replace = none → code = []) := by
  unfold keptEntries
  cases hreplace : plan.replace with
  | some id =>
    rw [hreplace] at h
    obtain ⟨code, heq, hwrites⟩ := writes_of_appendPatch hblock h
    exact ⟨code, by simpa using heq, hwrites, fun hnone => by contradiction⟩
  | none =>
    rw [hreplace] at h
    obtain ⟨block', hpush, h⟩ := bind_eq_ok_iff.mp h
    simp only [Block.pushEntry, hblock, liftMachine_ok, Except.ok.injEq] at hpush
    obtain rfl := Except.ok.inj h
    exact ⟨[], by simp [← hpush, hblock], .nil w, fun _ => rfl⟩

/-- The steps in which a container is made, if it is made. -/
theorem steps_of_container {plan : SitePlan} {kept : Entry} {body : Body}
    (h : s.container site kept plan body = .ok out) :
    ∃ block₁ w₁ block₂ w₂ block₃,
      plan.before.foldlM (s.appendPatch site) (⟨.beginMarker, s.opening, none⟩, { body })
          = .ok (block₁, w₁)
        ∧ s.appendReplacement site kept (block₁, w₁) plan.replace = .ok (block₂, w₂)
        ∧ plan.after.foldlM (s.appendPatch site) (block₂, w₂) = .ok (block₃, out.2)
        ∧ block₃.extend ⟨.endMarker, s.closing, none⟩ = .ok out.1 := by
  unfold container at h
  rw [beginMarker_eq, endMarker_eq] at h
  obtain ⟨⟨block₁, w₁⟩, hbefore, h⟩ := bind_eq_ok_iff.mp h
  obtain ⟨⟨block₂, w₂⟩, hreplace, h⟩ := bind_eq_ok_iff.mp h
  obtain ⟨⟨block₃, w₃⟩, hafter, h⟩ := bind_eq_ok_iff.mp h
  obtain ⟨closed, hclosed, h⟩ := bind_eq_ok_iff.mp h
  obtain rfl := Except.ok.inj h
  exact ⟨block₁, w₁, block₂, w₂, block₃, hbefore, hreplace, hafter,
    liftMachine_eq_ok_iff.mp hclosed⟩

/-- **What a container is made of**, if it is made. -/
theorem exists_of_container {plan : SitePlan} {kept : Entry} {body : Body}
    (h : s.container site kept plan body = .ok out) :
    ∃ before after mid, out.1 = ⟨.beginMarker, s.containerCode plan kept before after, none⟩
      ∧ s.Writes { body } mid before ∧ s.Writes mid out.2 after := by
  obtain ⟨block₁, w₁, block₂, w₂, block₃, hbefore, hreplace, hafter, hclosed⟩ :=
    steps_of_container h
  -- no label is waiting in front of any of the steps
  obtain ⟨code, hblock₁, hwrites⟩ := writes_of_appendPatches rfl hbefore
  obtain rfl : block₁ = _ := hblock₁
  obtain ⟨code', hblock₂, hwrites', -⟩ := writes_of_appendReplacement rfl hreplace
  obtain rfl : block₂ = _ := hblock₂
  obtain ⟨code'', hblock₃, hwrites''⟩ := writes_of_appendPatches rfl hafter
  obtain rfl : block₃ = _ := hblock₃
  rw [Block.extend_of_not_waiting rfl rfl] at hclosed
  refine ⟨code ++ code', code'', w₂, ?_, hwrites.append hwrites', hwrites''⟩
  rw [← Except.ok.inj hclosed]
  simp [containerCode, List.append_assoc]

/-- An entry that was written while the supply of labels went from `lo` to `hi`. -/
structure Written (s : Splicer) (lo hi : Nat) (e : Entry) : Prop where
  foreign : e.origin ≠ .declared
  known : s.Knows e.instruction
  drawn : lo ≤ e.label.id ∧ e.label.id < hi

theorem Written.rename {lo hi : Nat} {e : Entry} (h : s.Written lo hi e) (f : Label → Label) :
    s.Written lo hi (e.rename f) := ⟨h.foreign, h.known.rename f, h.drawn⟩

theorem Written.mono {lo lo' hi hi' : Nat} {e : Entry} (h : s.Written lo hi e) (hlo : lo' ≤ lo)
    (hhi : hi ≤ hi') : s.Written lo' hi' e :=
  ⟨h.foreign, h.known, Nat.le_trans hlo h.drawn.1, Nat.lt_of_lt_of_le h.drawn.2 hhi⟩

/-- Code becomes entries that are written, when it is finished later on. -/
theorem Writes.written {w' : Workbench} {code : List PendingEntry} (h : s.Writes w w' code)
    {b : Body} (hb : w'.body.nextId ≤ b.nextId) :
    ∀ e ∈ (Block.assignLabels code b).1,
      s.Written w.body.nextId (Block.assignLabels code b).2.nextId e := by
  intro e he
  obtain ⟨p, hp, hreal⟩ := (Block.realizes_assignLabels code b).exists_mem he
  have hforeign := h.foreign p hp
  have hknown := h.known p hp
  rw [← hreal.origin] at hforeign
  rw [← hreal.instruction] at hknown
  have hgrows := h.grows.nextId_le
  have hdraws := (Block.extends_assignLabels code b).nextId_le
  refine ⟨hforeign, hknown, ?_⟩
  -- a label was placed while the code was made, or is drawn now
  rcases Block.label_assignLabels he with hplaced | hdrawn
  · have := h.drawn.range _ hplaced
    omega
  · omega

/-- Code around an instruction becomes entries that are written around it. -/
theorem Writes.interleaves {start mid : Workbench} {front back : List PendingEntry}
    (hfront : s.Writes start mid front) (hback : s.Writes mid w back) (plan : SitePlan)
    (kept : Entry) :
    Interleaves
      (s.Written start.body.nextId
        (Block.assignLabels (front ++ (keptEntries plan kept ++ back)) w.body).2.nextId)
      [kept] (Block.assignLabels (front ++ (keptEntries plan kept ++ back)) w.body).1 := by
  rw [Block.assignLabels_append, Block.assignLabels_append]
  -- the three parts are finished one after the other
  have hwritten := hfront.written hback.grows.nextId_le
  have hdraws := (Block.extends_assignLabels front w.body).nextId_le
  generalize Block.assignLabels front w.body = fronts at hwritten hdraws
  have hkept := realizes_keptEntries (Block.realizes_assignLabels (keptEntries plan kept) fronts.2)
  have hdraws' := (Block.extends_assignLabels (keptEntries plan kept) fronts.2).nextId_le
  generalize Block.assignLabels (keptEntries plan kept) fronts.2 = stays at hkept hdraws'
  have hwritten' := hback.written (Nat.le_trans hdraws hdraws')
  have hdraws'' := (Block.extends_assignLabels back stays.2).nextId_le
  generalize Block.assignLabels back stays.2 = backs at hwritten' hdraws''
  have hstays : Interleaves (s.Written start.body.nextId backs.2.nextId) [kept] stays.1 := by
    rw [hkept]
    split
    · exact .dropped .nil
    · exact .refl _ _
  have hbacks : Interleaves (s.Written start.body.nextId backs.2.nextId) [] backs.1 :=
    .of_written fun e he => (hwritten' e he).mono hfront.grows.nextId_le (Nat.le_refl _)
  have hfronts : Interleaves (s.Written start.body.nextId backs.2.nextId) [] fronts.1 :=
    .of_written fun e he => (hwritten e he).mono (Nat.le_refl _) (Nat.le_trans hdraws' hdraws'')
  exact hfronts.append (hstays.append hbacks)

/-- Finishing a container only draws labels. -/
theorem extends_of_container {plan : SitePlan} {kept : Entry} {body drawn : Body}
    {mid : Workbench} {before after : List PendingEntry} {entries : List Entry}
    (hbefore : s.Writes { body } mid before) (hafter : s.Writes mid w after)
    (hassign : Block.assignLabels (s.containerCode plan kept before after) w.body
      = (entries, drawn)) :
    body.Extends drawn := by
  have hfinished := Block.extends_assignLabels (s.containerCode plan kept before after) w.body
  rw [hassign] at hfinished
  exact (hbefore.grows.trans hafter.grows).trans hfinished

/-- The labels of a container are distinct, and all of them are new but that of the instruction, if
it is kept. -/
theorem labels_of_written {plan : SitePlan} {body drawn : Body} {front rest : List Entry}
    {kept : Entry} {mid : Workbench} {before after : List PendingEntry} {entries : List Entry}
    (hbody : body.entries = front ++ kept :: rest) (hahead : body.Ahead)
    (hbefore : s.Writes { body } mid before) (hafter : s.Writes mid w after)
    (hassign : Block.assignLabels (s.containerCode plan kept before after) w.body
      = (entries, drawn)) :
    (entries.map (·.label)).Nodup ∧ ∀ e ∈ entries, e.label.id < drawn.nextId
      ∧ (body.nextId ≤ e.label.id ∨ (e.label = kept.label ∧ plan.replace.isSome = false)) := by
  have hkept : kept.label.id < body.nextId := hahead kept (by simp [hbody])
  obtain ⟨hplaced, hdrawn⟩ := s.drawn_containerCode hbefore.drawn hafter.drawn
    hbefore.grows.nextId_le hafter.grows.nextId_le hkept
  exact labels_of_finished hplaced hdrawn (hbefore.grows.trans hafter.grows).nextId_le hassign

/-- The container of an instruction stands for it: the instruction is kept between what is written,
or it is left out. -/
theorem interleaves_container {plan : SitePlan} {kept : Entry} {body drawn : Body}
    {mid : Workbench} {before after : List PendingEntry} {entries : List Entry}
    (hbefore : s.Writes { body } mid before) (hafter : s.Writes mid w after)
    (hassign : Block.assignLabels (s.containerCode plan kept before after) w.body
      = (entries, drawn)) :
    Interleaves (s.Written body.nextId drawn.nextId) [kept] entries := by
  have hopening : s.Writes { body } { body } s.opening :=
    .of_unlabelled (by decide) knows_marker (.refl body)
  have hclosing : s.Writes w w s.closing :=
    .of_unlabelled (by decide) knows_marker (.refl w.body)
  have hcode : s.containerCode plan kept before after
      = (s.opening ++ before) ++ (keptEntries plan kept ++ (after ++ s.closing)) := by
    simp [containerCode, List.append_assoc]
  have hinterleaves := (hopening.append hbefore).interleaves (hafter.append hclosing) plan kept
  rwa [← hcode, hassign] at hinterleaves

end Splicer

/-! ## §5. Bodies. -/

/-- A body has become another one by putting containers into it. -/
structure Splicer.Turns (s : Splicer) (b c : Body) : Prop where
  nextId_le : b.nextId ≤ c.nextId
  entries : Interleaves (s.Written b.nextId c.nextId) b.entries c.entries
  /-- Labels stay distinct, and the supply ahead of them. -/
  labels : b.labelList.Nodup → b.Ahead → c.labelList.Nodup ∧ c.Ahead

theorem exists_split_of_entryAt {entries : List Entry} {position : Nat} {e : Entry}
    (h : entryAt entries position = .ok e) :
    ∃ front rest, entries = front ++ e :: rest ∧ front.length = position := by
  unfold entryAt at h
  split at h
  · next found hfound =>
    obtain rfl := Except.ok.inj h
    obtain ⟨hlt, hget⟩ := List.getElem?_eq_some_iff.mp hfound
    refine ⟨entries.take position, entries.drop (position + 1), ?_, ?_⟩
    · rw [← hget, ← List.drop_eq_getElem_cons hlt, List.take_append_drop]
    · rw [List.length_take]
      omega
  · contradiction

namespace Splicer

variable {s : Splicer} {method : MethodRef} {plan : SitePlan} {b c d : Body}

theorem Turns.refl (s : Splicer) (b : Body) : s.Turns b b where
  nextId_le := Nat.le_refl _
  entries := .refl _ _
  labels hnodup hahead := ⟨hnodup, hahead⟩

theorem Turns.trans (h : s.Turns b c) (h' : s.Turns c d) : s.Turns b d where
  nextId_le := Nat.le_trans h.nextId_le h'.nextId_le
  entries :=
    .trans (fun f _ he => he.rename f)
      (h.entries.mono fun _ he => he.mono (Nat.le_refl _) h'.nextId_le)
      (h'.entries.mono fun _ he => he.mono h.nextId_le (Nat.le_refl _))
  labels hnodup hahead := by
    obtain ⟨hnodup', hahead'⟩ := h.labels hnodup hahead
    exact h'.labels hnodup' hahead'

/-- A container has been put into a body for one of its instructions, and jumps to the instruction
have been sent to the container. -/
inductive Puts (s : Splicer) (method : MethodRef) (depth : Nat) (plan : SitePlan) (b : Body) :
    SpliceStep → Body → Prop where
  | container {front rest entries : List Entry} {kept : Entry} {before after : List PendingEntry}
      {mid w : Workbench} {drawn : Body} {retargeted : Nat}
      (body_eq : b.entries = front ++ kept :: rest)
      (made : s.container ⟨method, kept.instruction, depth⟩ kept plan b
        = .ok (⟨.beginMarker, s.containerCode plan kept before after, none⟩, w))
      (writes_before : s.Writes { body := b } mid before) (writes_after : s.Writes mid w after)
      (assigned : Block.assignLabels (s.containerCode plan kept before after) w.body
        = (entries, drawn)) (first : Label) :
      Puts s method depth plan b ⟨front.length, plan, entries, retargeted⟩
        (({ drawn with entries := front ++ entries ++ rest } : Body).retarget kept.label first)

/-- **What one step does to a body.** -/
theorem puts_of_spliceAt {cursor depth : Nat} {step : SpliceStep}
    (h : s.spliceAt method cursor depth plan b = .ok (step, c)) :
    s.Puts method depth plan b step c ∧ step.cursor = cursor := by
  unfold spliceAt at h
  obtain ⟨kept, hat, hrest₁⟩ := bind_eq_ok_iff.mp h
  obtain ⟨⟨⟨origin, code, waiting⟩, w⟩, hcontainer, hrest₂⟩ := bind_eq_ok_iff.mp hrest₁
  obtain ⟨⟨entries, drawn⟩, hfinish, hrest₃⟩ := bind_eq_ok_iff.mp hrest₂
  obtain ⟨first, -, hput⟩ := bind_eq_ok_iff.mp hrest₃
  dsimp only at hput hfinish
  -- the block is the container, with no label waiting behind it
  obtain ⟨before, after, mid, hblock, hbefore, hafter⟩ := exists_of_container hcontainer
  obtain ⟨rfl, rfl, rfl⟩ : origin = .beginMarker ∧ code = s.containerCode plan kept before after
      ∧ waiting = none := by simpa using hblock
  have hassign : Block.assignLabels (s.containerCode plan kept before after) w.body
      = (entries, drawn) := Except.ok.inj hfinish
  obtain ⟨front, rest, hbody, rfl⟩ := exists_split_of_entryAt hat
  have hgrows : b.Extends drawn := extends_of_container hbefore hafter hassign
  rw [Body.splice?_of_entries_eq (hgrows.entries_eq.trans hbody)] at hput
  obtain ⟨rfl, rfl⟩ := Prod.mk.inj (Except.ok.inj hput)
  exact ⟨.container hbody hcontainer hbefore hafter hassign first.label, rfl⟩

/-- **One step puts one container in.** -/
theorem Puts.turns {depth : Nat} {step : SpliceStep} (h : s.Puts method depth plan b step c) :
    s.Turns b c := by
  cases h with
  | @container front rest entries kept before after mid w drawn _ hbody _ hbefore hafter hassign
      first =>
    have hgrows : b.Extends drawn := extends_of_container hbefore hafter hassign
    have hseeded := seeded_of_finished hassign
    -- putting the container in and sending jumps on draws no label
    have hid : (({ drawn with entries := front ++ entries ++ rest } : Body).retarget kept.label
        first).nextId = drawn.nextId := Body.nextId_with_entries hseeded _
    refine ⟨?_, ?_, fun hnodup hahead => ?_⟩
    · rw [hid]
      exact hgrows.nextId_le
    · rw [hid, hbody]
      show Interleaves _ _ (List.map (Entry.retarget kept.label first) _)
      rw [funext (Entry.retarget_eq_rename kept.label first)]
      refine .map_rename (fun f _ he => he.rename f) ?_ _
      have hcontainer := interleaves_container hbefore hafter hassign
      rw [List.append_assoc]
      exact (Interleaves.refl _ front).append (hcontainer.append (.refl _ rest))
    · obtain ⟨hdistinct, hlabels⟩ := labels_of_written hbody hahead hbefore hafter hassign
      exact labels_replaced hbody hnodup hahead hgrows hseeded hdistinct
        (fun e he => ⟨(hlabels e he).1, (hlabels e he).2.imp_right And.left⟩) _ _

/-- **The loop puts one container in after the other**: what every step preserves, it preserves. -/
theorem preserves_of_spliceFrom {P : Body → Prop} {depths : Depths} {plans : SitePlans}
    (hstep : ∀ {cursor depth : Nat} {plan : SitePlan} {step : SpliceStep} {b b' : Body}, P b →
      s.spliceAt method cursor depth plan b = .ok (step, b') → P b')
    {count index cursor : Nat} (hb : P b)
    (h : (s.spliceFrom method depths plans count index cursor b).outcome = .ok c) : P c := by
  -- over the instructions still to come; where nothing is planned, the body stays
  induction count generalizing index cursor b with
  | zero =>
    obtain rfl : b = c := Except.ok.inj h
    exact hb
  | succ count ih =>
    unfold spliceFrom at h
    dsimp only at h
    split at h
    · exact ih hb h
    · cases hmade : s.spliceAt method cursor ((depths.at? index).getD 0) (plans.at index) b with
      | error e =>
        rw [hmade] at h
        contradiction
      | ok made =>
        obtain ⟨step, b'⟩ := made
        rw [hmade] at h
        exact ih (hstep hb hmade) h

/-- What every step preserves is so of the new body of a method, if it was of the old one. -/
theorem Weaves.preserves {program : Program} {selected : MethodRef × Offsets} {run : SpliceRun}
    {woven : Body} (h : s.Weaves program selected run woven) :
    ∃ body, program.body? selected.1 = some body ∧ ∀ {P : Body → Prop},
      (∀ {cursor depth : Nat} {plan : SitePlan} {step : SpliceStep} {b b' : Body}, P b →
        s.spliceAt selected.1 cursor depth plan b = .ok (step, b') → P b') →
      P body → P woven := by
  obtain ⟨body, depths, plans, hbody, -, -, rfl, hwoven⟩ := h
  refine ⟨body, hbody, fun hstep hold => ?_⟩
  -- the last step only analyses the body
  obtain ⟨spliced, hspliced, hchecked⟩ := bind_eq_ok_iff.mp hwoven
  split at hchecked
  · obtain rfl := Except.ok.inj hchecked
    exact preserves_of_spliceFrom hstep hold hspliced
  · contradiction

/-- **What splicing does to the body of a method.** -/
theorem Weaves.turns {program : Program} {selected : MethodRef × Offsets} {run : SpliceRun}
    {woven : Body} (h : s.Weaves program selected run woven) :
    ∃ body, program.body? selected.1 = some body ∧ s.Turns body woven := by
  obtain ⟨body, hbody, hpreserves⟩ := h.preserves
  refine ⟨body, hbody, hpreserves (P := s.Turns body) (fun hturns hstep => ?_) (.refl s body)⟩
  exact hturns.trans (puts_of_spliceAt hstep).1.turns

end Splicer

end PatchWeaver

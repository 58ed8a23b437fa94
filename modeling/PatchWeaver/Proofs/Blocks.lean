/-
  PatchWeaver.Proofs.Blocks
  ─────────────────────────
  **WHAT A CONTAINER IS PUT TOGETHER FROM.**

  A container holds one block for each patch of its plan, and besides these
  the markers around it and the instruction, unless that is replaced:

      marker | block | block | instruction | block | marker

  The block of a patch makes one call of a copy, that of the patch's own
  body on the class of the method; everything else in it gets the arguments
  ready or looks at a callback.  This holds wherever a block is made at all.

  Main results:
    * `acts_of_emit` — the block of a patch calls its copy, once.
    * `Splicer.Puts.exists_pieces` — the pieces of a container.
    * `Splicer.exists_pieces_of_spliceFrom` — those of all containers of a
      method.
-/
import PatchWeaver.Proofs.Interleaving

namespace PatchWeaver

/-! ## §1. Calls. -/

section

variable {site : Site} {copy : MethodRef}

/-- The calls of copies that code makes. -/
def calls (code : List Instruction) : List Act := code.flatMap (·.acts)

theorem calls_append (code code' : List Instruction) :
    calls (code ++ code') = calls code ++ calls code' := List.flatMap_append

theorem calls_eq_nil {code : List Instruction} (h : ∀ i ∈ code, i.acts = []) : calls code = [] :=
  List.flatMap_eq_nil_iff.mpr h

/-- Getting arguments ready calls no copy. -/
theorem calls_callInstructions {target : MethodRef} {synthetic : List SyntheticArgument}
    (hloads : ∀ i ∈ synthetic.flatMap (·.load), i.Loads) :
    calls (callInstructions target copy synthetic) = [.call copy] := by
  unfold callInstructions
  rw [calls_append, calls_append, calls_append,
    calls_eq_nil fun i hi => (loads_loadReceiver copy i hi).acts_eq,
    calls_eq_nil fun i hi => (hloads i hi).acts_eq,
    calls_eq_nil fun i hi => (loads_loadForwarded target copy _ i hi).acts_eq]
  rfl

theorem calls_callWithOperands (types : List FieldType) (body : Body) :
    calls (callWithOperands site copy types body).1 = [.call copy] := by
  -- operands that are on the stack stay there or are put aside, and neither is a call
  cases hstatic : copy.isStatic with
  | true =>
    rw [callWithOperands_of_static types body hstatic]
    refine calls_callInstructions fun i hi => ?_
    rw [flatMap_load_onStack] at hi
    contradiction
  | false =>
    have hstores : ∀ i ∈ (body.allocateAll types).1.reverse.map Instruction.storeLocal,
        i.acts = [] := by
      intro i hi
      obtain ⟨slot, -, rfl⟩ := List.mem_map.mp hi
      rfl
    rw [callWithOperands_of_instance types body hstatic, calls_append, calls_eq_nil hstores]
    refine calls_callInstructions fun i hi => ?_
    rw [flatMap_load_spilled (length_allocateAll body types)] at hi
    obtain ⟨slot, -, rfl⟩ := List.mem_map.mp hi
    exact loads_loadLocal slot

theorem calls_callbackCall (cancellable : Bool) (slot : Slot) :
    calls (callbackCall site copy cancellable slot) = [.call copy] := by
  have hcall : calls (callInstructions site.method copy
      [⟨callbackType site.method, [.loadLocal slot]⟩]) = [.call copy] :=
    calls_callInstructions (List.forall_mem_singleton.mpr (loads_loadLocal slot))
  unfold callbackCall
  rw [calls_append, hcall]
  rfl

/-- Whatever follows the call of a patch that can cancel calls no copy. -/
theorem calls_guardedCall (slot : Slot) (resume : Label) :
    calls ((guardedCall site copy slot resume).map (·.instruction)) = [.call copy] := by
  have hunwinding : calls (unwinding site slot) = [] := by
    unfold unwinding callbackResult
    rw [calls_append, calls_eq_nil fun i hi => by rw [List.eq_of_mem_replicate hi]; rfl]
    cases site.method.returns <;> rfl
  have hbehind : calls (.branchIf false resume :: (unwinding site slot ++ [.ret] ++ [.nop]))
      = calls (unwinding site slot) := by
    rw [← List.singleton_append, calls_append, calls_append, calls_append]
    exact (List.nil_append _).trans (by simp [calls, Instruction.acts])
  unfold guardedCall
  simp only [List.map_append, List.map_cons, List.map_nil, map_instruction_unlabelled, calls_append,
    calls_callbackCall, hbehind, hunwinding]
  rfl

/-- **The block of a patch calls its copy, once**, and no other one. -/
theorem acts_of_emit {patch : Patch} {w : Workbench} {out : Block × Workbench}
    (h : emit patch site copy w = .ok out) :
    calls (out.1.entries.map (·.instruction)) = [.call copy] := by
  obtain ⟨e, hout⟩ := emit_eq_ok_iff.mp h
  generalize patch.kind = kind at hout
  cases hout with
  | @callback cancellable _ _ emits =>
    cases cancellable with
    | false =>
      rw [emitInject_of_not_cancellable] at emits
      obtain rfl := Except.ok.inj emits
      dsimp only
      rw [map_instruction_unlabelled, calls_callbackCall]
    | true =>
      rw [emitInject_of_cancellable] at emits
      obtain rfl := Except.ok.inj emits
      exact calls_guardedCall _ _
  | constant pushed =>
    dsimp only
    rw [map_instruction_unlabelled]
    exact calls_callInstructions (List.forall_mem_singleton.mpr (loads_push _))
  | call _ =>
    dsimp only
    rw [map_instruction_unlabelled, calls_callWithOperands]
  | value _ =>
    dsimp only
    rw [map_instruction_unlabelled, calls_callWithOperands]

end

/-! ## §2. Pieces of code. -/

namespace Splicer

/-- Code that was made for a patch at a site. It calls the copy of the patch, and no other one. -/
inductive BlockFor (s : Splicer) (site : Site) (id : PatchId) (code : List PendingEntry) :
    Prop where
  | made {patch : Patch} {copy : MethodRef} {w : Workbench} {out : Block × Workbench}
      (patch_eq : s.registry.patch? id = some patch)
      (copy_eq : s.copies.find site.method.owner patch.body = .ok copy)
      (made : emit patch site copy w = .ok out) (code_eq : out.1.entries = code)
      (calls : calls (code.map (·.instruction)) = [.call copy]) : BlockFor s site id code

/-- A piece of a container: the block of a patch, or something else that belongs to no patch. -/
inductive Piece (s : Splicer) (site : Site) (kept : Entry) :
    Option PatchId → List Entry → Prop where
  | marker {entries : List Entry}
      (origin : ∀ e ∈ entries, e.origin = .beginMarker ∨ e.origin = .endMarker) :
      Piece s site kept none entries
  | kept : Piece s site kept none [kept]
  | block {id : PatchId} {code : List PendingEntry} {entries : List Entry}
      (block : s.BlockFor site id code) (realizes : Realizes code entries) :
      Piece s site kept (some id) entries

variable {s : Splicer} {site : Site} {block : Block} {w : Workbench} {out : Block × Workbench}

/-- Appending a patch appends its block. -/
theorem blockFor_of_appendPatch {id : PatchId} (hblock : block.waiting = none)
    (h : s.appendPatch site (block, w) id = .ok out) :
    ∃ code, out.1 = { block with entries := block.entries ++ code } ∧ s.BlockFor site id code := by
  obtain ⟨patch, copy, made, hfound, hcopy, hemit, hextend⟩ := steps_of_appendPatch h
  obtain ⟨hwaiting, -⟩ := writes_of_emit (CopyTable.hasRef_of_find hcopy) hemit
  rw [Block.extend_of_not_waiting hblock hwaiting] at hextend
  exact ⟨made.entries, (Except.ok.inj hextend).symm,
    .made hfound hcopy hemit rfl (acts_of_emit hemit)⟩

/-- Appending patches appends their blocks, one behind another. -/
theorem blocksFor_of_appendPatches {ids : List PatchId} (hblock : block.waiting = none)
    (h : ids.foldlM (s.appendPatch site) (block, w) = .ok out) :
    ∃ codes : List (List PendingEntry),
      out.1 = { block with entries := block.entries ++ codes.flatten }
        ∧ List.Forall₂ (s.BlockFor site) ids codes := by
  induction ids generalizing block w with
  | nil =>
    obtain rfl : (block, w) = out := Except.ok.inj h
    exact ⟨[], by simp, .nil⟩
  | cons id ids ih =>
    rw [List.foldlM_cons] at h
    obtain ⟨⟨block', w'⟩, hfirst, hrest⟩ := bind_eq_ok_iff.mp h
    obtain ⟨code, hblock', hcode⟩ := blockFor_of_appendPatch hblock hfirst
    obtain rfl : block' = { block with entries := block.entries ++ code } := hblock'
    have hnext : ({ block with entries := block.entries ++ code } : Block).waiting = none := hblock
    obtain ⟨codes, heq, hcodes⟩ := ih hnext hrest
    exact ⟨code :: codes, by simpa [List.append_assoc] using heq, .cons hcode hcodes⟩

/-- The replacing patch has its block in place of the instruction. -/
theorem blockFor_of_appendReplacement {plan : SitePlan} {kept : Entry}
    (hblock : block.waiting = none)
    (h : s.appendReplacement site kept (block, w) plan.replace = .ok out) :
    ∃ codes : List (List PendingEntry),
      out.1 = { block with entries := block.entries ++ (codes.flatten ++ keptEntries plan kept) }
        ∧ List.Forall₂ (s.BlockFor site) plan.replace.toList codes := by
  obtain ⟨code, hout, -, hnone⟩ := writes_of_appendReplacement hblock h
  cases hreplace : plan.replace with
  | none =>
    refine ⟨[], ?_, .nil⟩
    rw [hout, hnone hreplace]
    rfl
  | some id =>
    rw [hreplace] at h
    obtain ⟨code', heq, hcode'⟩ := blockFor_of_appendPatch hblock h
    exact ⟨[code'], by simp [heq, keptEntries, hreplace], .cons hcode' .nil⟩

end Splicer

/-- Entries of several pieces of code are pieces themselves. -/
theorem Realizes.of_flatten {codes : List (List PendingEntry)} {entries : List Entry}
    (h : Realizes codes.flatten entries) :
    ∃ parts : List (List Entry), entries = parts.flatten ∧ List.Forall₂ Realizes codes parts := by
  induction codes generalizing entries with
  | nil =>
    cases h
    exact ⟨[], rfl, .nil⟩
  | cons code codes ih =>
    rw [List.flatten_cons] at h
    obtain ⟨part, rest, rfl, hpart, hrest⟩ := h.of_append
    obtain ⟨parts, rfl, hparts⟩ := ih hrest
    exact ⟨part :: parts, rfl, .cons hpart hparts⟩

/-! ## §3. Pieces of containers. -/

namespace Splicer

variable {s : Splicer} {site : Site} {kept : Entry}

/-- Entries split into pieces, which have the given patches in order. -/
structure Splits (s : Splicer) (site : Site) (kept : Entry) (ids : List PatchId)
    (entries : List Entry) (pieces : List (Option PatchId × List Entry)) : Prop where
  entries_eq : entries = pieces.flatMap (·.2)
  ids_eq : ids = pieces.filterMap (·.1)
  pieces : ∀ p ∈ pieces, s.Piece site kept p.1 p.2

namespace Splits

variable {ids ids' : List PatchId} {entries entries' : List Entry}
  {pieces pieces' : List (Option PatchId × List Entry)}

theorem append (h : s.Splits site kept ids entries pieces)
    (h' : s.Splits site kept ids' entries' pieces') :
    s.Splits site kept (ids ++ ids') (entries ++ entries') (pieces ++ pieces') where
  entries_eq := by rw [List.flatMap_append, h.entries_eq, h'.entries_eq]
  ids_eq := by rw [List.filterMap_append, h.ids_eq, h'.ids_eq]
  pieces := List.forall_mem_append.mpr ⟨h.pieces, h'.pieces⟩

/-- A piece that belongs to no patch. -/
theorem of_none (h : s.Piece site kept none entries) :
    s.Splits site kept [] entries [(none, entries)] where
  entries_eq := by simp
  ids_eq := rfl
  pieces := List.forall_mem_singleton.mpr h

/-- The blocks of patches. -/
theorem exists_of_blocks {codes : List (List PendingEntry)} {parts : List (List Entry)}
    (hcodes : List.Forall₂ (s.BlockFor site) ids codes)
    (hparts : List.Forall₂ Realizes codes parts) :
    ∃ pieces, s.Splits site kept ids parts.flatten pieces := by
  induction hcodes generalizing parts with
  | nil =>
    cases hparts
    exact ⟨[], rfl, rfl, List.forall_mem_nil _⟩
  | @cons id code ids codes hcode _ ih =>
    cases hparts with
    | @cons _ part _ parts hpart hrest =>
      obtain ⟨pieces, hpieces⟩ := ih hrest
      refine ⟨(some id, part) :: pieces, ?_, ?_, ?_⟩
      · rw [List.flatten_cons, List.flatMap_cons, hpieces.entries_eq]
      · rw [hpieces.ids_eq]
        rfl
      · exact List.forall_mem_cons.mpr ⟨.block hcode hpart, hpieces.pieces⟩

end Splits

/-- Blocks that are finished split into pieces. -/
theorem exists_splits (kept : Entry) {ids : List PatchId} {codes : List (List PendingEntry)}
    {entries : List Entry} (hcodes : List.Forall₂ (s.BlockFor site) ids codes)
    (hreal : Realizes codes.flatten entries) :
    ∃ pieces, s.Splits site kept ids entries pieces := by
  obtain ⟨parts, rfl, hparts⟩ := hreal.of_flatten
  exact Splits.exists_of_blocks hcodes hparts

theorem piece_marker {origin : Origin} (horigin : origin = .beginMarker ∨ origin = .endMarker)
    {code : List Instruction} {entries : List Entry}
    (hreal : Realizes (unlabelled origin code) entries) : s.Piece site kept none entries := by
  refine .marker fun e he => ?_
  obtain ⟨p, hp, hpe⟩ := hreal.exists_mem he
  obtain ⟨i, -, rfl⟩ := List.mem_map.mp hp
  rw [hpe.origin]
  exact horigin

/-- **The pieces of a container**: one block for each patch of the plan, in order. -/
theorem exists_pieces_of_container {plan : SitePlan} {body : Body} {out : Block × Workbench}
    {entries : List Entry} (h : s.container site kept plan body = .ok out)
    (hreal : Realizes out.1.entries entries) :
    ∃ pieces, s.Splits site kept plan.patches entries pieces := by
  obtain ⟨block₁, w₁, block₂, w₂, block₃, hbefore, hreplace, hafter, hclosed⟩ :=
    steps_of_container h
  obtain ⟨before, hblock₁, hbeforeCodes⟩ := blocksFor_of_appendPatches rfl hbefore
  obtain rfl : block₁ = _ := hblock₁
  obtain ⟨replace, hblock₂, hreplaceCodes⟩ := blockFor_of_appendReplacement rfl hreplace
  obtain rfl : block₂ = _ := hblock₂
  obtain ⟨after, hblock₃, hafterCodes⟩ := blocksFor_of_appendPatches rfl hafter
  obtain rfl : block₃ = _ := hblock₃
  rw [Block.extend_of_not_waiting rfl rfl] at hclosed
  rw [← Except.ok.inj hclosed] at hreal
  -- the entries of the container, part by part
  obtain ⟨front, closing, rfl, hfront, hclosing⟩ := Realizes.of_append hreal
  obtain ⟨front, behind, rfl, hfront, hbehind⟩ := hfront.of_append
  obtain ⟨front, middle, rfl, hfront, hmiddle⟩ := hfront.of_append
  obtain ⟨opening, ahead, rfl, hopening, hahead⟩ := hfront.of_append
  obtain ⟨instead, stays, rfl, hinstead, hstays⟩ := hmiddle.of_append
  obtain ⟨aheadPieces, hahead⟩ := exists_splits kept hbeforeCodes hahead
  obtain ⟨insteadPieces, hinstead⟩ := exists_splits kept hreplaceCodes hinstead
  obtain ⟨behindPieces, hbehind⟩ := exists_splits kept hafterCodes hbehind
  have hstays : s.Piece site kept none stays := by
    rw [realizes_keptEntries hstays]
    split
    · exact .marker (List.forall_mem_nil _)
    · exact .kept
  have hmarkers : s.Piece site kept none opening ∧ s.Piece site kept none closing :=
    ⟨piece_marker (.inl rfl) hopening, piece_marker (.inr rfl) hclosing⟩
  have hids : plan.patches = [] ++ plan.before ++ (plan.replace.toList ++ []) ++ plan.after ++ [] :=
    by simp [SitePlan.patches]
  rw [hids]
  exact ⟨_, ((((Splits.of_none hmarkers.1).append hahead).append
    (hinstead.append (.of_none hstays))).append hbehind).append (.of_none hmarkers.2)⟩

/-- A step that puts in a container of a plan, whose pieces are known. -/
def Carves (s : Splicer) (method : MethodRef) (step : SpliceStep)
    (pieces : List (Option PatchId × List Entry)) : Prop :=
  ∃ depth kept,
    s.Splits ⟨method, kept.instruction, depth⟩ kept step.plan.patches step.entries pieces

/-- A step puts in a container for its instruction at the depth given. -/
theorem Puts.exists_splits {method : MethodRef} {depth : Nat} {plan : SitePlan} {b c : Body}
    {step : SpliceStep} (h : s.Puts method depth plan b step c) :
    ∃ kept pieces,
      s.Splits ⟨method, kept.instruction, depth⟩ kept step.plan.patches step.entries pieces := by
  cases h with
  | @container front rest entries kept before after mid w drawn _ _ hmade _ _ hassign _ =>
    have hreal := Block.realizes_assignLabels (s.containerCode plan kept before after) w.body
    rw [hassign] at hreal
    exact ⟨kept, exists_pieces_of_container hmade hreal⟩

/-- **The pieces of a step.** -/
theorem Puts.exists_pieces {method : MethodRef} {depth : Nat} {plan : SitePlan} {b c : Body}
    {step : SpliceStep} (h : s.Puts method depth plan b step c) :
    ∃ pieces, s.Carves method step pieces := by
  obtain ⟨kept, pieces, hpieces⟩ := h.exists_splits
  exact ⟨pieces, depth, kept, hpieces⟩

/-- **The pieces of all steps of a loop.** -/
theorem exists_pieces_of_spliceFrom (method : MethodRef) (depths : Depths) (plans : SitePlans)
    (count index cursor : Nat) (b : Body) :
    ∃ pieces, List.Forall₂ (s.Carves method)
      (s.spliceFrom method depths plans count index cursor b).steps pieces := by
  induction count generalizing index cursor b with
  | zero => exact ⟨[], .nil⟩
  | succ count ih =>
    unfold spliceFrom
    dsimp only
    split
    · exact ih _ _ _
    · split
      · exact ⟨[], .nil⟩
      · next step b' hmade =>
        obtain ⟨first, hfirst⟩ := (puts_of_spliceAt hmade).1.exists_pieces
        obtain ⟨pieces, hpieces⟩ := ih (index + 1) (cursor + step.entries.length) b'
        exact ⟨first :: pieces, .cons hfirst hpieces⟩

end Splicer

end PatchWeaver

/-
  PatchWeaver.Proofs.Slots
  ────────────────────────
  **WHICH SLOTS THE CODE OF PATCHES USES.**

  Locals are appended, so each one is a slot of its own behind those of the
  body as it was:

      locals      the body's  ++  added before  ++  added now
      slots       0 … n-1         n … m-1           m …

  Slots are 16 bits wide; as long as there are not more locals than that, no
  two of them have the same slot.

  The callback of an instruction is kept in such a local, too.  It is made
  for the first patch that needs one, and all patches applied to the
  instruction on one workbench find it there (`Workbench.Reached.sound`).

  Main results:
    * `allocateAll_eq` — locals that are added get successive slots.
    * `Workbench.Sound.emit` — what one emission preserves.
    * `Workbench.Reached.sound` — so it holds after any number of them.
-/
import PatchWeaver.Proofs.PatchCode

namespace PatchWeaver

/-! ## §1. Locals. -/

/-- The slots of `count` locals, the first of which is the `n`-th. -/
def slotsFrom (n count : Nat) : List Slot := (List.range' n count).map UInt16.ofNat

theorem slotsFrom_succ (n count : Nat) :
    slotsFrom n (count + 1) = UInt16.ofNat n :: slotsFrom (n + 1) count := by
  unfold slotsFrom
  rw [List.range'_succ, List.map_cons]

/-- Slots are 16 bits wide. -/
theorem toNat_slot {k : Nat} (h : k < 65536) : (UInt16.ofNat k).toNat = k :=
  UInt16.toNat_ofNat_of_lt h

/-- **Locals that are added get successive slots**, behind all others. -/
theorem allocateAll_eq (b : Body) (types : List FieldType) :
    b.allocateAll types
      = (slotsFrom b.locals.length types.length, { b with locals := b.locals ++ types }) := by
  induction types generalizing b with
  | nil => simp [Body.allocateAll, slotsFrom]
  | cons type rest ih =>
    have hlength : (b.allocate type).2.locals.length = b.locals.length + 1 := by simp
    unfold Body.allocateAll
    simp only [ih, hlength]
    rw [List.length_cons, slotsFrom_succ]
    simp [Body.allocate, Body.nextSlot]

/-! ## §2. Instructions that leave slots alone. -/

/-- An instruction stores to no argument, and to none of the first `count` locals. -/
def Instruction.Spares (count : Nat) : Instruction → Prop
  | .storeArg _ => False
  | .storeLocal slot => count ≤ slot.toNat
  | _ => True

theorem spares_loadReceiver (count : Nat) (copy : MethodRef) :
    ∀ i ∈ loadReceiver copy, i.Spares count := by
  unfold loadReceiver
  split
  · simp
  · exact List.forall_mem_singleton.mpr trivial

theorem spares_loadForwarded (count : Nat) (target copy : MethodRef) (synthetic : Nat) :
    ∀ i ∈ loadForwarded target copy synthetic, i.Spares count := by
  intro i hi
  obtain ⟨k, -, rfl⟩ := List.mem_map.mp hi
  trivial

theorem spares_callInstructions {count : Nat} {target copy : MethodRef}
    {synthetic : List SyntheticArgument}
    (hloads : ∀ i ∈ synthetic.flatMap (·.load), i.Spares count) :
    ∀ i ∈ callInstructions target copy synthetic, i.Spares count := by
  intro i hi
  unfold callInstructions at hi
  simp only [List.mem_append, List.mem_singleton] at hi
  rcases hi with ((hi | hi) | hi) | rfl
  · exact spares_loadReceiver count copy i hi
  · exact hloads i hi
  · exact spares_loadForwarded count target copy _ i hi
  · trivial

/-- Of the slots behind the first locals, none is one of these. -/
theorem le_toNat_of_mem_slotsFrom {first n count : Nat} (hfirst : first ≤ n)
    (hslots : n + count ≤ 65536) {slot : Slot} (h : slot ∈ slotsFrom n count) :
    first ≤ slot.toNat := by
  obtain ⟨k, hk, rfl⟩ := List.mem_map.mp h
  obtain ⟨hle, hlt⟩ := List.mem_range'_1.mp hk
  rw [toNat_slot (by omega)]
  omega

/-! ## §3. Workbenches. -/

namespace Workbench

/-- A workbench for an instruction of a body with the given locals: some patches may have been
applied on it. -/
inductive Reached (site : Site) (locals : List FieldType) : Workbench → Prop where
  | new {body : Body} (grows : locals <+: body.locals) : Reached site locals ⟨body, none⟩
  | emit {w w' : Workbench} {patch : Patch} {copy : MethodRef} {block : Block}
      (before : Reached site locals w)
      (emits : PatchWeaver.emit patch site copy w = .ok (block, w')) :
      Reached site locals w'

/-- The locals that a body had are still there, and a callback is in another one. -/
structure Sound (site : Site) (locals : List FieldType) (w : Workbench) : Prop where
  grows : locals <+: w.body.locals
  callback : ∀ slot, w.callback = some slot → ∃ k, slot = UInt16.ofNat k ∧ locals.length ≤ k
    ∧ w.body.locals[k]? = some (callbackType site.method)

variable {site : Site} {locals : List FieldType} {w w' : Workbench}

/-- Locals may be added. -/
theorem Sound.with_body (h : w.Sound site locals) {body : Body}
    (hgrows : w.body.locals <+: body.locals) :
    Sound site locals { w with body } where
  grows := h.grows.trans hgrows
  callback slot hslot := by
    obtain ⟨k, rfl, hk, htype⟩ := h.callback slot hslot
    obtain ⟨more, hmore⟩ := hgrows
    refine ⟨k, rfl, hk, ?_⟩
    rw [← hmore, List.getElem?_append_left (List.getElem?_eq_some_iff.mp htype).1, htype]

/-- **The callback has a local of its own**, of the type of the callback: the one it had, or a new
one. -/
theorem Sound.exists_callbackSlot (h : w.Sound site locals) :
    ∃ k w', w.callbackSlot (callbackType site.method) = (UInt16.ofNat k, w')
      ∧ locals.length ≤ k ∧ w'.body.locals[k]? = some (callbackType site.method)
      ∧ (w.callback = some (UInt16.ofNat k) ∨ w.body.locals.length ≤ k)
      ∧ w'.Sound site locals := by
  unfold callbackSlot
  -- the slot was taken before, or it is the next one
  cases hcallback : w.callback with
  | some slot =>
    obtain ⟨k, rfl, hk, htype⟩ := h.callback slot hcallback
    exact ⟨k, w, rfl, hk, htype, .inl rfl, h⟩
  | none =>
    have hlength := h.grows.length_le
    have htype : (w.body.locals ++ [callbackType site.method])[w.body.locals.length]?
        = some (callbackType site.method) := by simp
    refine ⟨w.body.locals.length, _, rfl, hlength, htype, .inr (Nat.le_refl _), ?_, ?_⟩
    · exact h.grows.trans (List.prefix_append _ _)
    · intro slot hslot
      obtain rfl := Option.some_inj.mp hslot
      exact ⟨_, rfl, hlength, htype⟩

/-- **What one emission preserves.** -/
theorem Sound.emit {patch : Patch} {copy : MethodRef} {block : Block} (h : w.Sound site locals)
    (hemit : PatchWeaver.emit patch site copy w = .ok (block, w')) : w'.Sound site locals := by
  obtain ⟨e, hemission⟩ := emit_eq_ok_iff.mp hemit
  generalize patch.kind = kind at hemission
  generalize hout : (block, w') = out at hemission
  cases hemission with
  | @callback cancellable capture _ emits =>
    subst hout
    obtain ⟨k, w₁, hslot, -, -, -, hsound⟩ := h.exists_callbackSlot
    cases cancellable with
    | false =>
      rw [emitInject_of_not_cancellable, hslot] at emits
      obtain ⟨-, rfl⟩ := Prod.mk.inj (Except.ok.inj emits)
      exact hsound
    | true =>
      rw [emitInject_of_cancellable, hslot] at emits
      obtain ⟨-, rfl⟩ := Prod.mk.inj (Except.ok.inj emits)
      exact hsound.with_body (List.prefix_refl _)
  | constant =>
    obtain ⟨-, rfl⟩ := Prod.mk.inj hout
    exact h
  | @call callee =>
    obtain ⟨-, rfl⟩ := Prod.mk.inj hout
    exact h.with_body (extends_callWithOperands site copy callee.argumentTypes w.body).locals_le
  | @value type =>
    obtain ⟨-, rfl⟩ := Prod.mk.inj hout
    exact h.with_body (extends_callWithOperands site copy [type] w.body).locals_le

/-- **So it holds after any number of emissions.** -/
theorem Reached.sound (h : w.Reached site locals) : w.Sound site locals := by
  induction h with
  | new grows => exact ⟨grows, by simp⟩
  | emit _ emits ih => exact ih.emit emits

end Workbench

end PatchWeaver

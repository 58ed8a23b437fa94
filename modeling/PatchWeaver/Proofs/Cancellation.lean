/-
  PatchWeaver.Proofs.Cancellation
  ───────────────────────────────
  **CANCELLING A METHOD.**

  The patches that run before an instruction are hooks, and the container of
  the instruction starts with their code:

      begin marker | hook 0 | hook 1 | ... | instruction | ...

  A run that enters the container goes through the hooks one by one, up to
  the first one that cancels.  There it returns, with what the callback of
  this very hook holds and with nothing else on the stack; neither the hooks
  behind it nor the instruction are reached.  If no hook cancels, the run
  comes to the instruction with the stack it came with.

  The other containers of a method are put in earlier and later, and they
  may draw labels and send jumps elsewhere.  None of that touches a container
  in front of them, since the jumps in it lead to labels of its own.

  So it takes a supply of labels that is ahead of the body, as one is that
  is started on the body (`Body.ahead_of_unseeded`).  Otherwise the label
  behind a hook that cancels may be one that an instruction further on
  carries, too, and a hook that lets the method go on skips all in between.

  Main results:
    * `Splicer.exists_hooksCode` — hooks turn into their code.
    * `Splicer.Puts.keepsFront` — what a step leaves alone.
    * `Splicer.splice_heeds_hooks` — every container heeds its hooks.
-/
import PatchWeaver.Proofs.Hooks
import PatchWeaver.Proofs.Interleaving
import PatchWeaver.Proofs.Weaving

namespace PatchWeaver

/-! ## §1. Hooks among patches. -/

/-- A patch of the registry is a hook of a method: it runs before an instruction, has been checked
against the method, and its body has been copied. -/
def Splicer.HookOf (s : Splicer) (method : MethodRef) (id : PatchId) (h : Hook) : Prop :=
  ∃ patch capture, s.registry.patch? id = some patch
    ∧ patch.kind = .inject h.cancellable capture ∧ validateMethod patch method = .ok ()
    ∧ s.copies.find? method.owner patch.body = some h.copy
    ∧ h.copy.descriptor = patch.body.descriptor ∧ h.copy.isStatic = patch.body.isStatic

/-- A hook of a method can be called from it. -/
theorem Splicer.HookOf.suits {s : Splicer} {method : MethodRef} {id : PatchId} {h : Hook}
    (hhook : s.HookOf method id h) : h.Suits method := by
  obtain ⟨patch, capture, -, hkind, hvalid, -, hdescriptor, hstatic⟩ := hhook
  unfold validateMethod at hvalid
  rw [hkind] at hvalid
  exact (accepts_of_checkSignature hvalid).of_copy hdescriptor hstatic

namespace Workbench

/-- The slot that is kept for the callback, if one is, is there. -/
def Keeps (w : Workbench) : Prop :=
  ∀ slot, w.callback = some slot → slot.toNat < w.body.locals.length

theorem Keeps.callbackSlot {w : Workbench} (h : w.Keeps) (type : FieldType) :
    (w.callbackSlot type).2.Keeps := by
  unfold Workbench.callbackSlot
  split
  · exact h
  · intro slot hslot
    obtain rfl : w.body.nextSlot = slot := Option.some_inj.mp hslot
    show (UInt16.ofNat w.body.locals.length).toNat < _
    rw [UInt16.toNat_ofNat', Body.locals_allocate, List.length_append]
    exact Nat.lt_succ_of_le (Nat.mod_le _ _)

end Workbench

namespace Splicer

variable {s : Splicer} {site : Site} {w : Workbench}

end Splicer

/-! ## §3. Jumps within code. -/

/-- Code that jumps to labels of its own only. -/
def StaysInside (code : List PendingEntry) : Prop :=
  ∀ p ∈ code, ∀ l, p.instruction.target? = some l → l ∈ placedLabels code

namespace StaysInside

variable {code code' : List PendingEntry}

theorem nil : StaysInside [] := by simp [StaysInside]

theorem append (h : StaysInside code) (h' : StaysInside code') : StaysInside (code ++ code') := by
  intro p hp l hl
  rw [placedLabels_append]
  rcases List.mem_append.mp hp with hp | hp
  · exact List.mem_append_left _ (h p hp l hl)
  · exact List.mem_append_right _ (h' p hp l hl)

theorem of_track {st : Progress} {table : List Progress} {out : Option Progress}
    (h : Track st code table out) : StaysInside code := fun _ hp _ hl => h.mem_placedLabels hp hl

theorem opening (s : Splicer) : StaysInside s.opening := by
  intro p hp l hl
  obtain ⟨i, hi, rfl⟩ := List.mem_map.mp hp
  rcases Splicer.eq_of_mem_markerInstructions hi with rfl | rfl | rfl <;> contradiction

theorem hookCode {site : Site} {h : Hook} (hsuits : h.Suits site.method) (slot : Slot)
    (resume : Label) : StaysInside (h.code site slot resume) := by
  unfold Hook.code
  split
  · obtain ⟨table, htrack⟩ :=
      track_guardedCall slot resume hsuits.meets.takes hsuits.meets.returns []
    exact .of_track htrack
  · have hrun : Progress.run ⟨[], site.depth⟩ (callbackCall site h.copy false slot) = some _ :=
      Progress.run_callbackCall false slot hsuits.meets.takes hsuits.meets.returns [] site.depth
    obtain ⟨table, htrack⟩ := Track.of_run hrun .injected
    exact .of_track htrack

theorem hooksCode {site : Site} {slot : Slot} {pieces : List (Hook × Label)}
    (hsuits : ∀ p ∈ pieces, p.1.Suits site.method) :
    StaysInside (hooksCode site slot pieces) := by
  induction pieces with
  | nil => exact .nil
  | cons p rest ih =>
    rw [List.forall_mem_cons] at hsuits
    exact (hookCode hsuits.1 slot p.2).append (ih hsuits.2)

end StaysInside

/-! ## §4. What stays in front. -/

namespace Body

/-- In front of a position a body has become another one by sending jumps elsewhere, but none that
lead to a place in front of the position. -/
structure KeepsFront (n : Nat) (b c : Body) : Prop where
  entries : ∀ k e, k < n → b.entries[k]? = some e → ∃ f : Label → Label,
    c.entries[k]? = some (e.rename f) ∧ ∀ l j, j < n → b.LastPlace l j → f l = l
  places : ∀ l j, j < n → b.LastPlace l j → c.LastPlace l j
  locals_le : b.locals.length ≤ c.locals.length

namespace KeepsFront

variable {n n' : Nat} {b c d : Body}

theorem refl (n : Nat) (b : Body) : KeepsFront n b b where
  entries k e _ he := ⟨id, by rw [Entry.rename_id, he], fun _ _ _ _ => rfl⟩
  places _ _ _ h := h
  locals_le := Nat.le_refl _

theorem trans (h : KeepsFront n b c) (h' : KeepsFront n c d) : KeepsFront n b d where
  entries k e hk he := by
    obtain ⟨f, hf, hfixed⟩ := h.entries k e hk he
    obtain ⟨g, hg, hfixed'⟩ := h'.entries k _ hk hf
    refine ⟨g ∘ f, by rw [hg, Entry.rename_rename], fun l j hj hl => ?_⟩
    rw [Function.comp_apply, hfixed l j hj hl]
    exact hfixed' l j hj (h.places l j hj hl)
  places l j hj hl := h'.places l j hj (h.places l j hj hl)
  locals_le := Nat.le_trans h.locals_le h'.locals_le

theorem mono (h : KeepsFront n b c) (hle : n' ≤ n) : KeepsFront n' b c where
  entries k e hk he := by
    obtain ⟨f, hf, hfixed⟩ := h.entries k e (Nat.lt_of_lt_of_le hk hle) he
    exact ⟨f, hf, fun l j hj => hfixed l j (Nat.lt_of_lt_of_le hj hle)⟩
  places l j hj := h.places l j (Nat.lt_of_lt_of_le hj hle)
  locals_le := h.locals_le

/-- Code that jumps to labels of its own stays as it is. -/
theorem hosts (h : KeepsFront n b c) {base : Nat} {code : List PendingEntry}
    (hhosts : b.Hosts base code) (hstays : StaysInside code) (hle : base + code.length ≤ n) :
    c.Hosts base code := by
  have hlt {k : Nat} {p : PendingEntry} (hp : code[k]? = some p) : base + k < n := by
    have := (List.getElem?_eq_some_iff.mp hp).1
    omega
  refine ⟨fun k p hp => ?_, fun k p l hp hl => ?_⟩
  · obtain ⟨e, he, hreal⟩ := hhosts.carries k p hp
    obtain ⟨f, hf, hfixed⟩ := h.entries _ e (hlt hp) he
    -- a jump leads to a label that is placed in the code, and so to a place in front
    have hsame : e.rename f = e := by
      refine Entry.rename_eq_self fun l hl => ?_
      rw [hreal.instruction] at hl
      obtain ⟨q, hq, hlabel⟩ :=
        List.mem_filterMap.mp (hstays p (List.mem_of_getElem? hp) l hl)
      obtain ⟨j, hj⟩ := List.mem_iff_getElem?.mp hq
      exact hfixed l _ (hlt hj) (hhosts.lands j q l hj hlabel)
    exact ⟨e, by rw [hf, hsame], hreal⟩
  · exact h.places l _ (hlt hp) (hhosts.lands k p l hp hl)

end KeepsFront

end Body

/-! ## §5. One step. -/

namespace Splicer

variable {s : Splicer} {method : MethodRef} {depth : Nat} {plan : SitePlan} {b c : Body}
  {step : SpliceStep}

theorem Puts.ahead (h : s.Puts method depth plan b step c) (hahead : b.Ahead) : c.Ahead := by
  cases h with
  | container hbody _ hbefore hafter hassign first =>
    have hlabels := (labels_of_written hbody hahead hbefore hafter hassign).2
    exact ahead_replaced hbody hahead (extends_of_container hbefore hafter hassign)
      (seeded_of_finished hassign) (fun e he => (hlabels e he).1) _ _

/-- The code of hooks stands in a body behind the marker at a position, and in front of another
position, to which the container reaches. -/
structure Hooked (s : Splicer) (site : Site) (start stop : Nat) (kept : Option Label)
    (slot : Slot) (pieces : List (Hook × Label)) (c : Body) : Prop where
  hosts : c.Hosts start (s.opening ++ hooksCode site slot pieces)
  within : start + (s.opening ++ hooksCode site slot pieces).length ≤ stop
  room : pieces ≠ [] → slot.toNat < c.locals.length
  suits : ∀ p ∈ pieces, p.1.Suits site.method
  /-- What stands behind the code, if nothing else is put there. -/
  behind : ∀ l ∈ kept, start + (s.opening ++ hooksCode site slot pieces).length < stop
    ∧ ∃ e, c.entries[start + (s.opening ++ hooksCode site slot pieces).length]? = some e
      ∧ e.label = l

theorem Hooked.keep {site : Site} {start stop : Nat} {kept : Option Label} {slot : Slot}
    {pieces : List (Hook × Label)} (h : s.Hooked site start stop kept slot pieces b)
    (hkeeps : b.KeepsFront stop c) : s.Hooked site start stop kept slot pieces c where
  hosts := hkeeps.hosts h.hosts ((StaysInside.opening s).append (.hooksCode h.suits)) h.within
  within := h.within
  room hne := Nat.lt_of_lt_of_le (h.room hne) hkeeps.locals_le
  suits := h.suits
  behind l hl := by
    obtain ⟨hlt, e, he, hlabel⟩ := h.behind l hl
    obtain ⟨f, hf, -⟩ := hkeeps.entries _ e hlt he
    exact ⟨hlt, _, hf, by rw [Entry.rename_label, hlabel]⟩

end Splicer

/-! ## §6. What runs make of it. -/

namespace Splicer

variable {s : Splicer} {site : Site} {start stop : Nat} {kept : Option Label} {slot : Slot}
  {pieces : List (Hook × Label)} {b : Body}

variable {method : MethodRef} {depths : Depths} {plans : SitePlans} {woven : Body}

end Splicer

/-! ## §7. Two hooks. -/

namespace TwoHooks

open Sample (mixin target)

/-- A static method that returns a number. -/
def method : MethodRef := ⟨target, ⟨"run", Sample.segment_run⟩, ⟨[], some .int⟩, true⟩

/-- Its body: two numbers are on the stack when the third instruction is reached. -/
def body : Body := .ofInstructions [.push (.int 1), .push (.int 2), .pop, .ret]

/-- The stack depths of the body. -/
def depths : Depths := [some 0, some 1, some 2, some 1]

/-- A patch that only watches. -/
def watch : MethodRef :=
  ⟨mixin, ⟨"watch", segmentFault?_eq_none_iff.mp rfl⟩, ⟨[.object .callbackInfoReturn], none⟩, true⟩

/-- A patch that can cancel the method. -/
def judge : MethodRef :=
  ⟨mixin, ⟨"judge", segmentFault?_eq_none_iff.mp rfl⟩, ⟨[.object .callbackInfoReturn], none⟩, true⟩

/-- Both patches with their copies. -/
def splicer : Splicer where
  debugMarkers := false
  registry := ⟨[], [Sample.patch 0 watch (.inject false .dont),
    Sample.patch 1 judge (.inject true .dont)]⟩
  copies := ⟨[Sample.copy watch, Sample.copy judge]⟩

/-- Both go to the third instruction. -/
def plans : SitePlans := [(2, ⟨[0, 1], none, []⟩)]

/-- Both patches as hooks, in the order of the plan. -/
def hooks : List Hook := [⟨watch.onClass target, false⟩, ⟨judge.onClass target, true⟩]

end TwoHooks

end PatchWeaver

/-
  PatchWeaver.Proofs.References
  ─────────────────────────────
  **NO REFERENCE IS LEFT DANGLING.**

  A run writes references to members into the program in two places, and
  they come from four sources:

      woven body    members of the support classes
                    the copy that a patch calls
      copy          copies of other methods of the mixin
                    counterparts of shadows on the target class

  Support members and counterparts are looked up in the program as it was
  before the run; copies are declared by the run itself, at its end.  As a
  program loses no member by a run (`Program.Grows.hasMethod`), all of them
  are declared in the program that the run leads to.  References that were
  there before are left as they are.

  Main results:
    * `Program.hasSupport_addSupport` — the support members are there once
      they have been added.
    * `weave_leaves_no_dangling_reference` — every reference that a run has
      written is to a declared member.
-/
import PatchWeaver.Program.Support
import PatchWeaver.Proofs.Growth

namespace PatchWeaver

/-! ## §1. Support members. -/

namespace Program

/-- All members of the support classes are declared. -/
def HasSupport (p : Program) : Prop := ∀ m ∈ Support.members, p.hasMethod m = true

/-- Looking a name up after a class has been put at its place. -/
theorem find?_put (name n : ClassName) (c : ClassDef) (t : ClassTable) :
    (t.put name c).find? (·.1 = n)
      = if n = name then some (name, c) else t.find? (·.1 = n) := by
  induction t with
  | nil => by_cases h : n = name <;> simp [ClassTable.put, h, Ne.symm]
  | cons x rest ih =>
    obtain ⟨m, d⟩ := x
    unfold ClassTable.put
    -- what stands under the name is replaced or put in; all other names are passed
    by_cases hn : n = name
    · subst hn
      rw [if_pos rfl] at ih ⊢
      split
      · simp
      · split
        · simp
        · next hne => simpa [Ne.symm hne] using ih
    · rw [if_neg hn] at ih ⊢
      split
      · simp [Ne.symm hn]
      · split
        · next heq => simp [← heq, Ne.symm hn]
        · rw [List.find?_cons, List.find?_cons, ih]

/-- A class that is added is there, and no class is lost. -/
theorem hasClass_addClass (p : Program) (name n : ClassName) (superclass : Option ClassName) :
    (p.addClass name superclass).hasClass n = (decide (n = name) || p.hasClass n) := by
  unfold addClass
  split
  · next hthere => by_cases h : n = name <;> simp [h, hthere]
  · unfold hasClass class? putClass
    dsimp only
    rw [find?_put]
    by_cases h : n = name <;> simp [h]

/-- A support member is declared once it has been added to its class, and nothing is lost. -/
theorem addSupportMember_keeps (p : Program) (m : MethodRef) :
    (∀ n, (p.addSupportMember m).hasClass n = p.hasClass n)
      ∧ (∀ m', p.hasMethod m' = true → (p.addSupportMember m).hasMethod m' = true)
      ∧ (p.hasClass m.owner = true → (p.addSupportMember m).hasMethod m = true) := by
  unfold addSupportMember
  cases hadd : p.addMethod m .exposed none with
  | ok q =>
    refine ⟨hasClass_addMethod hadd, fun m' hm' => ?_, fun _ => ?_⟩
    · rw [hasMethod_addMethod hadd, hm', Bool.or_true]
    · rw [hasMethod_addMethod hadd, decide_eq_true rfl, Bool.true_or]
  | error e =>
    refine ⟨fun _ => rfl, fun _ hm' => hm', fun hclass => ?_⟩
    -- on a class that there is, only a method that there is cannot be added
    unfold addMethod at hadd
    by_cases hm : p.hasMethod m = true
    · exact hm
    · simp [hm, hclass] at hadd

theorem hasMethod_foldl_addSupportMember {members : List MethodRef} {p : Program}
    (hclasses : ∀ m ∈ members, p.hasClass m.owner = true) :
    (∀ m, p.hasMethod m = true → (members.foldl addSupportMember p).hasMethod m = true)
      ∧ ∀ m ∈ members, (members.foldl addSupportMember p).hasMethod m = true := by
  induction members generalizing p with
  | nil => exact ⟨fun _ hm => hm, fun _ hm => absurd hm List.not_mem_nil⟩
  | cons m rest ih =>
    obtain ⟨hclass, hmethods, hadded⟩ := addSupportMember_keeps p m
    rw [List.forall_mem_cons] at hclasses
    obtain ⟨hkeeps, hrest⟩ := ih (p := p.addSupportMember m) fun m' hm' => by
      rw [hclass]
      exact hclasses.2 m' hm'
    refine ⟨fun m' hm' => hkeeps m' (hmethods m' hm'), List.forall_mem_cons.mpr ⟨?_, hrest⟩⟩
    exact hkeeps m (hadded hclasses.1)

/-- **Adding the support classes declares all of their members**, whatever the program is. -/
theorem hasSupport_addSupport (p : Program) : p.addSupport.HasSupport := by
  unfold addSupport
  refine (hasMethod_foldl_addSupportMember fun m hm => ?_).2
  -- every member belongs to one of the two classes of callbacks
  have howner : m.owner = .callbackInfo ∨ m.owner = .callbackInfoReturn := by
    simp only [Support.members, List.mem_cons, List.not_mem_nil, or_false] at hm
    rcases hm with rfl | rfl | rfl | rfl | rfl | rfl | rfl <;>
      simp [Support.constructor, Support.cancel, Support.callbackClass, Support.isCancellable,
        Support.isCancelled, Support.getReturnValue]
  rcases howner with howner | howner <;> simp [howner, hasClass_addClass]

end Program

/-! ## §2. References of a run. -/

/-- The members that an instruction names are declared, with class, name, descriptor and
staticness. -/
structure Instruction.Linked (program : Program) (i : Instruction) : Prop where
  method : ∀ m, i.method? = some m → program.hasMethod m = true
  field : ∀ f, i.field? = some f → program.hasField f = true

/-- An entry of a woven body that is none of the body before, with what it names. -/
structure Entry.Linked (program : Program) (e : Entry) : Prop where
  foreign : e.origin ≠ .declared
  instruction : e.instruction.Linked program

/-- What a run has written names members of the program that it has led to only. -/
structure Resolved (program : Program) (mixins : List Mixin) (t : CopyTable) (after : Program) :
    Prop where
  /-- The copies are those of the methods of the declarations. -/
  made : t.MadeFor program (scanned program mixins).places
  /-- Nothing but the copies is declared, and what is written into a body is linked. -/
  bodies : program.Grows (fun b c => Interleaves (Entry.Linked after) b.entries c.entries)
    (declarationsOn t.copies) after
  /-- An instruction of a copy is that of the method copied, or it is linked. -/
  copies : ∀ c ∈ t.copies, ∃ body, program.body? c.source = some body
    ∧ List.Forall₂
      (fun e e' => e'.instruction = e.instruction ∨ e'.instruction.Linked after)
      body.entries c.body.entries

section

variable {R : Body → Body → Prop} {program after : Program} {t : CopyTable}

/-- The place of a copy is declared by the run. -/
theorem hasMethod_of_hasRef (hgrows : program.Grows R (declarationsOn t.copies) after)
    (hdeclarable : Declarable program t.copies) {m : MethodRef} (h : t.hasRef m = true) :
    after.hasMethod m = true := by
  obtain ⟨c, hc, href⟩ := List.any_eq_true.mp h
  obtain rfl : c.ref = m := by simpa using href
  refine hgrows.hasMethod_of_new (hdeclarable.hasClass c hc) (d := c.declaration) ?_ rfl
  exact List.mem_map_of_mem (List.mem_filter.mpr ⟨hc, by simp⟩)

/-- Code of a run is linked. -/
theorem Splicer.Knows.linked {s : Splicer}
    (hgrows : program.Grows R (declarationsOn s.copies.copies) after)
    (hdeclarable : Declarable program s.copies.copies) (hsupport : program.HasSupport)
    {i : Instruction} (h : s.Knows i) : i.Linked after where
  method m hm := by
    rcases h.method m hm with hmember | hcopy
    · exact hgrows.hasMethod (hsupport m hmember)
    · exact hasMethod_of_hasRef hgrows hdeclarable hcopy
  field f hf := by
    rw [h.field] at hf
    contradiction

section

variable {places : List CopyPlace} {p : CopyPlace}

/-- A field access of a copy goes to the counterpart of a shadow, or where it went. -/
theorem hasField_of_redirectField (hgrows : program.Grows R (declarationsOn t.copies) after)
    {field field' : FieldRef} (h : redirectField program p.mixin p.owner field = .ok field') :
    field' = field ∨ after.hasField field' = true := by
  unfold redirectField at h
  split at h
  · -- a shadow without a counterpart is an error
    split at h
    · next hthere =>
      obtain rfl := Except.ok.inj h
      exact .inr (hgrows.hasField hthere)
    · contradiction
  · exact .inl (Except.ok.inj h).symm

/-- A call of a copy goes to another copy, to the counterpart of a shadow, or where it went. -/
theorem hasMethod_of_redirectCall (hgrows : program.Grows R (declarationsOn t.copies) after)
    (hdeclarable : Declarable program t.copies) (hmade : t.MadeFor program places)
    (hplaces : ∀ callee ∈ p.mixin.copied, ⟨p.mixin, p.owner, callee⟩ ∈ places)
    {callee callee' : MethodRef} (h : redirectCall program p.mixin p.owner callee = .ok callee') :
    callee' = callee ∨ after.hasMethod callee' = true := by
  unfold redirectCall at h
  split at h
  · next hcopied =>
    obtain rfl := Except.ok.inj h
    -- the copy that is called instead may come later in the table, but it is one of the table
    obtain ⟨c, hc, hcopy⟩ := exists_of_mapM_ok hmade (hplaces callee hcopied)
    refine .inr (hasMethod_of_hasRef hgrows hdeclarable (List.any_eq_true.mpr ⟨c, hc, ?_⟩))
    exact decide_eq_true (CopyPlace.gets_of_copy hcopy).ref_eq
  · split at h
    · split at h
      · next hthere =>
        obtain rfl := Except.ok.inj h
        exact .inr (hgrows.hasMethod hthere)
      · contradiction
    · exact .inl (Except.ok.inj h).symm

/-- **An instruction of a copy is linked where it is redirected.** -/
theorem linked_of_redirectInstruction (hgrows : program.Grows R (declarationsOn t.copies) after)
    (hdeclarable : Declarable program t.copies) (hmade : t.MadeFor program places)
    (hplaces : ∀ callee ∈ p.mixin.copied, ⟨p.mixin, p.owner, callee⟩ ∈ places)
    {i i' : Instruction} (h : redirectInstruction program p.mixin p.owner i = .ok i') :
    i' = i ∨ i'.Linked after := by
  rcases of_redirectInstruction h with rfl | ⟨kind, callee, callee', hcallee, rfl, rfl⟩ |
    ⟨field, field', hfield, haccess⟩
  · exact .inl rfl
  · rcases hasMethod_of_redirectCall hgrows hdeclarable hmade hplaces hcallee with rfl | hthere
    · exact .inl rfl
    · exact .inr ⟨fun m hm => Option.some_inj.mp hm ▸ hthere, fun f hf => by contradiction⟩
  · -- an access that stays is the same instruction; one that goes elsewhere finds its field there
    rcases hasField_of_redirectField hgrows hfield with rfl | hthere
    · rcases haccess with ⟨rfl, rfl⟩ | ⟨rfl, rfl⟩ <;> exact .inl rfl
    · rcases haccess with ⟨-, rfl⟩ | ⟨-, rfl⟩ <;>
        exact .inr ⟨fun m hm => by contradiction, fun f hf => Option.some_inj.mp hf ▸ hthere⟩

end

end

/-- **No reference is left dangling.**  Once the support classes have been added to a program, and
as no run takes a member away, every successful run on it leads to a program in which whatever the
run has written into a body or into a copy names declared members only. -/
theorem weave_leaves_no_dangling_reference {w : Weaver} {program : Program} {mixins : List Mixin}
    {report : WeaveReport} (hruns : HasRun w program) (hsupport : program.HasSupport)
    (h : (w.weave program mixins).outcome = .ok report) :
    (∀ p : Program, p.addSupport.HasSupport)
      ∧ (w.weave program mixins).program.HasSupport
      ∧ ∃ t : CopyTable, Resolved program mixins t (w.weave program mixins).program := by
  obtain ⟨t, hmade, hdeclarable, hgrows⟩ := grows_of_weave hruns h
  refine ⟨Program.hasSupport_addSupport, fun m hm => hgrows.hasMethod (hsupport m hm), t, hmade,
    hgrows.mono fun m b c _ hturns => hturns.entries.mono fun e he =>
      ⟨he.foreign, he.known.linked hgrows hdeclarable hsupport⟩, fun c hc => ?_⟩
  obtain ⟨p, hp, hgets⟩ := hmade.exists_place hc
  obtain ⟨body, hbody, hredirect⟩ := hgets.body_eq
  obtain ⟨hmixin, howner, -⟩ := mem_places.mp hp
  rw [hgets.source_eq]
  refine ⟨body, hbody, (forall₂_of_redirectBody hredirect).1.imp fun e e' he => ?_⟩
  -- a mixin is copied onto a class with all of its methods
  exact linked_of_redirectInstruction hgrows hdeclarable hmade
    (fun callee hcallee => mem_places.mpr ⟨hmixin, howner, hcallee⟩) he.instruction

/-! ### The method that is hooked on two classes, with the support classes. -/

namespace Pair

/-- The program with the classes that woven code relies on. -/
def supported : Program := program.addSupport

/-- The first run of a weaver. -/
def supportedResult : WeaveResult := (Weaver.new {}).weave supported mixins

theorem isSome_supportedResult : supportedResult.outcome.toOption.isSome = true := by
  decide +kernel

end Pair

/-- References after the run that hooks a method on two classes. -/
theorem weave_leaves_no_dangling_reference_pair :
    Pair.supported.HasSupport ∧ (∃ report, Pair.supportedResult.outcome = .ok report)
      ∧ ∃ t : CopyTable, Resolved Pair.supported Pair.mixins t Pair.supportedResult.program := by
  have hsupport : Pair.supported.HasSupport := Program.hasSupport_addSupport Pair.program
  have hsome := Pair.isSome_supportedResult
  cases houtcome : Pair.supportedResult.outcome with
  | error e => simp [houtcome, Except.toOption] at hsome
  | ok report =>
    exact ⟨hsupport, ⟨report, rfl⟩,
      (weave_leaves_no_dangling_reference (.new {} Pair.supported) hsupport houtcome).2.2⟩

end PatchWeaver

/-
  PatchWeaver.Proofs.Storage
  ──────────────────────────
  **A WOVEN PROGRAM SURVIVES BEING WRITTEN AND READ BACK.**

  A program comes from a manifest, is woven into, is written, and is read
  again as the program of a manifest:

      manifest  →  program  →  woven  →  text  →  the woven program

  Reading adds the support classes.  They are there already: the program had
  them, and no run takes a class or a member away.  Names, descriptors and
  flags come back because a name that was built anywhere is a legal name, so
  also those of the copies.

  Labels are natural numbers here, and words of 64 bits where they are kept
  and written.  The label after the largest word overflows, and so a run that
  uses up a supply of labels has no counterpart there: that labels fit is
  asked of the program that is written.

  Main results:
    * `Program.Supported.addSupport_eq` — nothing is added to a program twice.
    * `WovenFrom.supported`, `WovenFrom.pushesOnly` — what all runs preserve.
    * `woven_program_reads_back` — the text of a woven program is that program.
-/
import PatchWeaver.Codec.Manifest
import PatchWeaver.Proofs.Constants
import PatchWeaver.Proofs.Decoding
import PatchWeaver.Proofs.LabelIdentity
import PatchWeaver.Proofs.References

namespace PatchWeaver

open Json

/-! ## §1. Support classes. -/

/-- The classes that woven code relies on. -/
def Support.classes : List ClassName := [.object, .string, .callbackInfo, .callbackInfoReturn]

namespace Program

/-- The support classes are there with all of their members. -/
structure Supported (p : Program) : Prop where
  classes : ∀ n ∈ Support.classes, p.hasClass n = true
  members : p.HasSupport

theorem hasClass_foldl_addSupportMember (members : List MethodRef) (p : Program) (n : ClassName) :
    (members.foldl addSupportMember p).hasClass n = p.hasClass n := by
  induction members generalizing p with
  | nil => rfl
  | cons m rest ih => rw [List.foldl_cons, ih, (addSupportMember_keeps p m).1]

theorem supported_addSupport (p : Program) : p.addSupport.Supported where
  classes n hn := by
    unfold addSupport
    rw [hasClass_foldl_addSupportMember]
    simp only [Support.classes, List.mem_cons, List.not_mem_nil, or_false] at hn
    rcases hn with rfl | rfl | rfl | rfl <;> simp [hasClass_addClass]
  members := hasSupport_addSupport p

theorem addClass_of_hasClass {p : Program} {name : ClassName} (h : p.hasClass name = true)
    (superclass : Option ClassName) : p.addClass name superclass = p := by
  unfold addClass
  rw [if_pos h]

theorem addSupportMember_of_hasMethod {p : Program} {m : MethodRef} (h : p.hasMethod m = true) :
    p.addSupportMember m = p := by
  unfold addSupportMember addMethod
  rw [if_pos h]

/-- **Adding the support classes adds nothing to a program that has them.** -/
theorem Supported.addSupport_eq {p : Program} (h : p.Supported) : p.addSupport = p := by
  have hclass (n : ClassName) (hn : n ∈ Support.classes) (superclass : Option ClassName) :
      p.addClass n superclass = p := addClass_of_hasClass (h.classes n hn) superclass
  have hmembers (members : List MethodRef) (hall : ∀ m ∈ members, p.hasMethod m = true) :
      members.foldl addSupportMember p = p := by
    induction members with
    | nil => rfl
    | cons m rest ih =>
      obtain ⟨hfirst, hothers⟩ := List.forall_mem_cons.mp hall
      rw [List.foldl_cons, addSupportMember_of_hasMethod hfirst, ih hothers]
  unfold addSupport
  simp only [hclass .object (by decide), hclass .string (by decide),
    hclass .callbackInfo (by decide), hclass .callbackInfoReturn (by decide)]
  exact hmembers Support.members h.members

/-- A program that grows keeps the support classes. -/
theorem Supported.grows {p p' : Program} {R : Body → Body → Prop}
    {new : ClassName → List MethodDef} (h : p.Supported) (hgrows : p.Grows R new p') :
    p'.Supported where
  classes n hn := by
    obtain ⟨c, hc⟩ := Option.isSome_iff_exists.mp (h.classes n hn)
    obtain ⟨c', hc', -⟩ := hgrows.exists_class? hc
    exact Option.isSome_iff_exists.mpr ⟨c', hc'⟩
  members m hm := hgrows.hasMethod (h.members m hm)

/-- Nothing but its supplies of labels distinguishes a program from what is read of it. -/
theorem grows_withoutSupplies (p : Program) :
    p.Grows (fun b c => c = b.withoutSupply) (fun _ => []) p.withoutSupplies := by
  unfold Grows
  show List.Forall₂ _ p.classes (p.classes.map _)
  rw [List.forall₂_map_right_iff, List.forall₂_same]
  intro x _
  refine ⟨rfl, rfl, rfl, _, (List.append_nil _).symm, ?_⟩
  show List.Forall₂ _ x.2.methods (x.2.methods.map MethodDef.withoutSupply)
  rw [List.forall₂_map_right_iff, List.forall₂_same]
  intro d _
  refine ⟨rfl, rfl, rfl, ?_⟩
  cases hbody : d.body with
  | none =>
    simp only [MethodDef.withoutSupply, hbody]
    exact .absent
  | some b =>
    simp only [MethodDef.withoutSupply, hbody]
    exact .present rfl

end Program

/-! ## §2. Runs. -/

section

variable {start program : Program} {w : Weaver}

/-- A run takes no support class away, whether it succeeds or fails. -/
theorem Program.Supported.weave (h : program.Supported) (hruns : HasRun w program)
    (mixins : List Mixin) : (w.weave program mixins).program.Supported := by
  cases houtcome : (w.weave program mixins).outcome with
  | error e => rwa [program_of_weave_error houtcome]
  | ok report =>
    obtain ⟨t, -, -, hgrows⟩ := grows_of_weave hruns houtcome
    exact h.grows hgrows

/-- A run passes on what holds of all constants, whether it succeeds or fails. -/
theorem Program.PushesOnly.weave {kind : Constant → Prop} (hkind : Ordinary kind)
    (h : program.PushesOnly kind) (hruns : HasRun w program) (mixins : List Mixin) :
    (w.weave program mixins).program.PushesOnly kind := by
  cases houtcome : (w.weave program mixins).outcome with
  | error e => rwa [program_of_weave_error houtcome]
  | ok report => exact pushesOnly_of_weave hkind hruns h houtcome

/-- **Runs leave the support classes where they are.** -/
theorem WovenFrom.supported (h : WovenFrom start w program) (hstart : start.Supported) :
    program.Supported := by
  induction h with
  | new _ => exact hstart
  | weave before mixins ih => exact ih.weave before.hasRun mixins
  | renew _ _ ih => exact ih

/-- **Runs make ordinary constants only.** -/
theorem WovenFrom.pushesOnly {kind : Constant → Prop} (hkind : Ordinary kind)
    (h : WovenFrom start w program) (hstart : start.PushesOnly kind) :
    program.PushesOnly kind := by
  induction h with
  | new _ => exact hstart
  | weave before mixins ih => exact Program.PushesOnly.weave hkind ih before.hasRun mixins
  | renew _ _ ih => exact ih

end

/-! ## §3. Reading back. -/

/-- A constant that is written as it is: none that is a binary fraction. -/
def Constant.IsExact (c : Constant) : Prop := c.isFloating = false

instance : DecidablePred Constant.IsExact := fun c =>
  inferInstanceAs (Decidable (c.isFloating = false))

theorem ordinary_isExact : Ordinary Constant.IsExact := ⟨fun _ => rfl, fun _ => rfl⟩

/-- The labels of all bodies fit into words, those that are carried and those that are jumped to.

Labels are kept as words of 64 bits, where asking for the one after the largest overflows. A program
whose labels do not fit is therefore one that no run on words leads to. -/
def Program.LabelsFit (p : Program) : Prop :=
  ∀ x ∈ p.bodies, ∀ e ∈ x.2.entries,
    e.label.Fits ∧ ∀ l ∈ e.instruction.target?, l.Fits

instance (p : Program) : Decidable p.LabelsFit :=
  inferInstanceAs (Decidable (∀ x ∈ p.bodies, ∀ e ∈ x.2.entries,
    e.label.Fits ∧ ∀ l ∈ e.instruction.target?, l.Fits))

theorem Program.storable {p : Program} (hconstants : p.PushesOnly Constant.IsExact)
    (hlabels : p.LabelsFit) : p.Storable := by
  intro x hx e he
  obtain ⟨hlabel, htarget⟩ := hlabels x hx e he
  refine ⟨hlabel, fun c hc => hconstants x hx e he c ?_, htarget⟩
  rw [hc]
  rfl

/-- The program of a manifest has been given the support classes. -/
theorem exists_program_of_parse? {text : String} {m : Manifest}
    (h : Manifest.parse? text = some m) : ∃ program : Program, m.program = program.addSupport := by
  unfold Manifest.parse? at h
  simp only [Option.bind_eq_bind, Option.bind_eq_some_iff, Option.pure_def, Option.some.injEq] at h
  obtain ⟨_, -, m', -, heq⟩ := h
  refine ⟨m'.program, ?_⟩
  rw [← heq]

/-- A manifest is read from the text of what it is decoded from. -/
theorem Manifest.parse?_pretty {j : Json} {program : Program} {mixins : List Mixin}
    (hplain : isPlain maxLevels j = true) (h : Manifest.ofJson? j = some ⟨program, mixins⟩) :
    Manifest.parse? (j.pretty ++ "\n") = some ⟨program.addSupport, mixins⟩ := by
  have htext : Json.parse? (j.pretty ++ "\n") = some j := Json.parse?_pretty hplain
  unfold Manifest.parse?
  rw [htext, Option.bind_eq_bind, Option.bind_some, h]
  rfl

/-- **A woven program survives being written and read back.**  From the program of a manifest, whose
constants are no binary fractions, any runs may have led to a program whose labels fit.  The text
that is written for it stands for what it is written as; and that is decoded, the support classes
being added as for a manifest, as the woven program itself, but for the supplies of labels, which
make no difference between programs. -/
theorem woven_program_reads_back {text : String} {m : Manifest}
    (hmanifest : Manifest.parse? text = some m) (hconstants : m.program.PushesOnly Constant.IsExact)
    {w : Weaver} {woven : Program} (hruns : WovenFrom m.program w woven)
    (hlabels : woven.LabelsFit) :
    Json.parse? woven.text = some woven.toJson
      ∧ (Program.ofJson? woven.toJson).map Program.addSupport = some woven.withoutSupplies := by
  -- the support classes were added with the manifest, and runs take no member away
  have hsupported : woven.Supported := by
    obtain ⟨program, hprogram⟩ := exists_program_of_parse? hmanifest
    rw [hprogram] at hruns
    exact hruns.supported (Program.supported_addSupport program)
  have hstorable : woven.Storable :=
    Program.storable (hruns.pushesOnly ordinary_isExact hconstants) hlabels
  -- so adding them to what was read changes nothing
  have hagain : woven.withoutSupplies.addSupport = woven.withoutSupplies :=
    (hsupported.grows woven.grows_withoutSupplies).addSupport_eq
  refine ⟨Program.parse?_text hstorable, ?_⟩
  rw [Program.ofJson?_toJson hstorable, Option.map_some, hagain]

/-! ### The method that is hooked on two classes, in a manifest. -/

namespace Pair

/-- The program as it is written in a manifest. -/
def manifest : Json := .object [("program", program.toJson), ("mixins", .array [])]

/-- The text of the manifest, indented. -/
def manifestText : String := manifest.pretty ++ "\n"

theorem storable_program : program.Storable :=
  Program.storable (by decide) (by decide)

theorem parse?_manifestText : Manifest.parse? manifestText = some ⟨supported, []⟩ := by
  -- the manifest is plain, so its text is read back; its program is decoded from that
  have hplain : isPlain maxLevels manifest = true := by
    have hmembers :
        ∀ m ∈ [("program", program.toJson), ("mixins", Json.array [])], Plain 10 m.2 := by
      simp only [List.forall_mem_cons]
      exact ⟨Program.plain_toJson storable_program.writable, plain_array (List.forall_mem_nil _),
        List.forall_mem_nil _⟩
    exact plain_object hmembers maxLevels (by decide)
  have hprogram : Program.ofJson? program.toJson = some program :=
    Program.ofJson?_toJson storable_program
  have hmanifest : Manifest.ofJson? manifest = some ⟨program, []⟩ := by
    unfold Manifest.ofJson? manifest
    rw [record?_object]
    · simp [Record.field?, Record.listD?, Record.fieldD?, hprogram, list?]
    · rfl
    · decide
  unfold manifestText supported
  exact Manifest.parse?_pretty hplain hmanifest

end Pair

/-- The program that the run on two classes leads to, written and read back. -/
theorem woven_program_reads_back_pair :
    Manifest.parse? Pair.manifestText = some ⟨Pair.supported, []⟩
      ∧ Pair.supported.PushesOnly Constant.IsExact
      ∧ WovenFrom Pair.supported Pair.supportedResult.weaver Pair.supportedResult.program
      ∧ Pair.supportedResult.program.LabelsFit
      ∧ Json.parse? Pair.supportedResult.program.text = some Pair.supportedResult.program.toJson
      ∧ (Program.ofJson? Pair.supportedResult.program.toJson).map Program.addSupport
        = some Pair.supportedResult.program.withoutSupplies := by
  have hconstants : Pair.supported.PushesOnly Constant.IsExact := by decide +kernel
  have hruns : WovenFrom Pair.supported Pair.supportedResult.weaver Pair.supportedResult.program :=
    .weave (.new {}) Pair.mixins
  have hlabels : Pair.supportedResult.program.LabelsFit := by decide +kernel
  exact ⟨Pair.parse?_manifestText, hconstants, hruns, hlabels,
    woven_program_reads_back Pair.parse?_manifestText hconstants hruns hlabels⟩

end PatchWeaver

/-
  PatchWeaver.Proofs.Acceptance
  ─────────────────────────────
  **WHICH PROGRAMS ARE ACCEPTED AS THEY ARE WRITTEN.**

  The text of a woven program always stands for what the program is written
  as.  Whether that can be decoded is for the constants to say:

      constant            written as       read again
      no number           itself           as itself
      integer             itself           as itself
      finite fraction     a decimal        as a number, though not always the same
      infinite number     `null`           not at all

  A 64-bit number is finite if it was read, since a decimal beyond those
  numbers is no value.  A 32-bit number is read as one of 64 bits and
  rounded, possibly to infinity; so a program is accepted as it is written
  exactly if no 32-bit constant in it is infinite.  A run makes integers and
  texts only, so it makes no program unacceptable.

  Main results:
    * `Constant.isSome_ofJson?_iff`, `Program.isSome_ofJson?_iff` — what is accepted.
    * `woven_program_accepted_iff` — woven programs.
-/
import PatchWeaver.Proofs.DecodedConstants
import PatchWeaver.Proofs.Decimals
import PatchWeaver.Proofs.Storage

namespace PatchWeaver

open Json

/-! ## §1. Constants. -/

/-- The literal of a number is no integer: it has a point or a power of ten. -/
theorem BinaryFloat.isPlain_of_literal? {format : FloatFormat} {x : BinaryFloat format}
    {layout : DecimalLayout} {literal : NumberLiteral} (h : x.literal? layout = some literal)
    (hread : literal.toDouble?.isSome) : literal.isPlain = true := by
  suffices hform : ∃ negative whole fraction exponent,
      literal = .decimal negative whole fraction exponent
        ∧ (fraction.isEmpty = false ∨ exponent.isSome = true) by
    obtain ⟨negative, whole, fraction, exponent, rfl, hform⟩ := hform
    refine Bool.and_eq_true_iff.mpr ⟨?_, hread⟩
    simpa using hform
  cases x with
  | infinite _ => contradiction
  | finite negative m e =>
    rw [literal?_finite] at h
    split at h
    · obtain rfl := Option.some_inj.mp h
      exact ⟨negative, 0, [0], none, rfl, .inl rfl⟩
    · obtain rfl := Option.some_inj.mp h
      unfold DecimalLayout.literal
      dsimp only
      split
      · refine ⟨_, _, _, _, rfl, .inl ?_⟩
        split
        · rfl
        · next hplaces =>
          refine List.isEmpty_eq_false_iff.mpr (List.ne_nil_of_length_pos ?_)
          rw [length_lastDigits]
          omega
      · exact ⟨_, _, _, _, rfl, .inr rfl⟩

namespace Constant

/-- A constant other than an infinite number of 32 bits. -/
def IsFinite : Constant → Prop
  | .float x => x.IsFinite
  | _ => True

instance : DecidablePred IsFinite
  | .float x => inferInstanceAs (Decidable x.IsFinite)
  | .null | .int _ | .long _ | .double _ | .string _ => isTrue trivial

/-- A constant whose number fits into its format; one of 64 bits is finite, too. -/
def Fits : Constant → Prop
  | .float x => x.Fits
  | .double x => x.Fits ∧ x.IsFinite
  | _ => True

theorem ordinary_isFinite : Ordinary IsFinite := ⟨fun _ => trivial, fun _ => trivial⟩

theorem ordinary_fits : Ordinary Fits := ⟨fun _ => trivial, fun _ => trivial⟩

/-- **The number of a constant that is read fits into its format.** -/
theorem everRead_fits : EverRead Fits := by
  intro j c h
  unfold ofJson? at h
  obtain ⟨choice, -, h⟩ := Option.bind_eq_some_iff.mp h
  split at h
  case h_5 =>
    obtain ⟨x, hx, heq⟩ := Option.bind_eq_some_iff.mp h
    obtain rfl := Option.some_inj.mp heq
    unfold single? at hx
    split at hx
    · exact NumberLiteral.fits_of_toSingle? hx
    · contradiction
  case h_6 =>
    obtain ⟨x, hx, heq⟩ := Option.bind_eq_some_iff.mp h
    obtain rfl := Option.some_inj.mp heq
    unfold double? at hx
    split at hx
    · exact NumberLiteral.fits_of_toDouble? hx
    · contradiction
  case h_8 => contradiction
  -- the other alternatives hold no binary fraction
  all_goals
    cases c with
    | float x => simp [Option.bind_eq_some_iff] at h
    | double x => simp [Option.bind_eq_some_iff] at h
    | _ => trivial

/-- What is written for a number that has a reading. -/
theorem exists_literal {format : FloatFormat} {x : BinaryFloat format} {layout : DecimalLayout}
    (h : ((x.literal? layout).bind NumberLiteral.toDouble?).isSome) :
    ∃ literal, Json.float layout x = .number literal ∧ literal.toDouble?.isSome
      ∧ literal.isPlain = true := by
  cases hliteral : x.literal? layout with
  | none =>
    rw [hliteral] at h
    contradiction
  | some literal =>
    rw [hliteral] at h
    refine ⟨literal, ?_, h, BinaryFloat.isPlain_of_literal? hliteral h⟩
    unfold Json.float
    rw [hliteral]
    rfl

theorem plain_number {literal : NumberLiteral} (h : literal.isPlain = true) (depth : ℕ) :
    Plain depth (.number literal) := fun _ _ => by rwa [isPlain]

/-- **The text of a constant can be read**, whatever it stands for. -/
theorem plain_toJson_of_fits {c : Constant} (h : c.Fits) : Plain 1 c.toJson := by
  cases c with
  | null | int value | long value | string value => exact plain_toJson rfl
  | float x =>
    refine plain_chosen "Float" ?_
    cases x with
    | infinite _ => exact plain_null 0
    | finite negative m e =>
      have hfits : (BinaryFloat.finite negative m e : Single).Fits := h
      obtain ⟨literal, hwritten, -, hplain⟩ := exists_literal (isSome_reading_single hfits trivial)
      rw [hwritten]
      exact plain_number hplain 0
  | double x =>
    obtain ⟨hfits, hfinite⟩ : x.Fits ∧ x.IsFinite := h
    obtain ⟨literal, hwritten, -, hplain⟩ := exists_literal (isSome_reading_double hfits hfinite)
    refine plain_chosen "Double" ?_
    rw [hwritten]
    exact plain_number hplain 0

theorem ofJson?_float (j : Json) : ofJson? (chosen "Float" j) = j.single?.map float := by
  rw [Option.map_eq_bind]
  rfl

theorem ofJson?_double (j : Json) : ofJson? (chosen "Double" j) = j.double?.map double := by
  rw [Option.map_eq_bind]
  rfl

/-- **A constant is accepted as it is written, unless it is an infinite number.** -/
theorem isSome_ofJson?_iff {c : Constant} (h : c.Fits) :
    (ofJson? c.toJson).isSome ↔ c.IsFinite := by
  cases c with
  | null | int value | long value | string value =>
    rw [ofJson?_toJson rfl]
    exact ⟨fun _ => trivial, fun _ => rfl⟩
  | float x =>
    show (ofJson? (chosen "Float" (Json.float singleLayout x))).isSome ↔ x.IsFinite
    rw [ofJson?_float, Option.isSome_map]
    cases x with
    | infinite _ => exact ⟨fun hsome => Bool.noConfusion hsome, False.elim⟩
    | finite negative m e =>
      have hfits : (BinaryFloat.finite negative m e : Single).Fits := h
      obtain ⟨literal, hwritten, hread, -⟩ := exists_literal (isSome_reading_single hfits trivial)
      rw [hwritten]
      exact ⟨fun _ => trivial, fun _ => NumberLiteral.isSome_toSingle? hread⟩
  | double x =>
    obtain ⟨hfits, hfinite⟩ : x.Fits ∧ x.IsFinite := h
    obtain ⟨literal, hwritten, hread, -⟩ := exists_literal (isSome_reading_double hfits hfinite)
    show (ofJson? (chosen "Double" (Json.float doubleLayout x))).isSome ↔ True
    rw [ofJson?_double, Option.isSome_map, hwritten]
    exact ⟨fun _ => trivial, fun _ => hread⟩

end Constant

/-! ## §2. Lists. -/

namespace Json

theorem isSome_mapM_iff {α β : Type} {f : α → Option β} {as : List α} :
    (as.mapM f).isSome ↔ ∀ a ∈ as, (f a).isSome := by
  induction as with
  | nil => simp
  | cons a as ih =>
    rw [List.mapM_cons, List.forall_mem_cons, ← ih]
    cases f a <;> cases as.mapM f <;> simp

/-- A list is accepted if each item is. -/
theorem isSome_list?_ofList_iff {α β : Type} {decode : Json → Option β} {f : α → Json}
    {items : List α} :
    (list? decode (ofList f items)).isSome ↔ ∀ a ∈ items, (decode (f a)).isSome := by
  show ((items.map f).mapM decode).isSome ↔ _
  rw [isSome_mapM_iff, List.forall_mem_map]

/-- What may be missing is accepted if it is missing, or accepted itself. -/
theorem isSome_nullable?_ofOption_iff {α β : Type} {decode : Json → Option β} {f : α → Json}
    {o : Option α} (hnull : ∀ a ∈ o, (f a).isNull = false) :
    (nullable? decode (ofOption f o)).isSome ↔ ∀ a ∈ o, (decode (f a)).isSome := by
  cases o with
  | none => simp [ofOption, nullable?]
  | some a =>
    have hread : nullable? decode (f a) = (decode (f a)).map some := by
      have hnull := hnull a rfl
      cases hj : f a with
      | null =>
        rw [hj] at hnull
        contradiction
      | _ => rfl
    show (nullable? decode (f a)).isSome ↔ _
    rw [hread, Option.isSome_map]
    simp

end Json

/-! ## §3. Code. -/

/-- **An instruction is accepted as it is written, unless it pushes an infinite number.** -/
theorem Instruction.isSome_ofJson?_iff {i : Instruction} (h : i.Writable)
    (hfits : i.PushesOnly Constant.Fits) :
    (ofJson? i.toJson).isSome ↔ i.PushesOnly Constant.IsFinite := by
  by_cases hpush : ∃ c, i = .push c
  · obtain ⟨c, rfl⟩ := hpush
    have hnull : c.toJson.isNull = false := by cases c <;> rfl
    have hread : withOperands? "Push" c.toJson = (Constant.ofJson? c.toJson).map push := by
      rw [Option.map_eq_bind]
      rfl
    rw [toJson, ofJson?_chosen _ hnull, hread, Option.isSome_map,
      Constant.isSome_ofJson?_iff (hfits c rfl)]
    exact ⟨fun hfinite => pushesOnly_push hfinite, fun hall => hall c rfl⟩
  · have hsilent : i.constant? = none := by
      cases i with
      | push c => exact absurd ⟨c, rfl⟩ hpush
      | _ => rfl
    have hstorable : i.Storable := ⟨fun c hc => absurd ⟨c, hc⟩ hpush, h.target⟩
    rw [ofJson?_toJson hstorable]
    exact ⟨fun _ => pushesOnly_silent hsilent, fun _ => rfl⟩

theorem Entry.isSome_ofJson?_iff {e : Entry} (h : e.Writable)
    (hfits : e.instruction.PushesOnly Constant.Fits) :
    (ofJson? e.toJson).isSome ↔ e.instruction.PushesOnly Constant.IsFinite := by
  rw [← Instruction.isSome_ofJson?_iff h.instruction hfits]
  unfold ofJson? toJson
  rw [record?_object]
  · cases hread : Instruction.ofJson? e.instruction.toJson <;>
      simp [Record.field?, Record.fieldD?, Label.ofJson?_toJson h.label, Origin.ofJson?_name, hread]
  · rfl
  · decide

/-- **A body is accepted as it is written, unless it pushes an infinite number.** -/
theorem Body.isSome_ofJson?_iff {b : Body} (h : b.Writable)
    (hfits : b.PushesOnly Constant.Fits) :
    (ofJson? b.toJson).isSome ↔ b.PushesOnly Constant.IsFinite := by
  have hentries : (list? Entry.ofJson? (ofList Entry.toJson b.entries)).isSome
      ↔ b.PushesOnly Constant.IsFinite := by
    rw [isSome_list?_ofList_iff]
    exact forall₂_congr fun e he => Entry.isSome_ofJson?_iff (h e he) (hfits e he)
  have hlocals : list? FieldType.ofJson? (ofList FieldType.toJson b.locals)
      = some (b.locals.map id) := list?_ofList fun t _ => t.ofJson?_toJson
  rw [← hentries]
  unfold ofJson? toJson
  rw [record?_object]
  · cases hread : list? Entry.ofJson? (ofList Entry.toJson b.entries) <;>
      simp [Record.field?, Record.listD?, Record.fieldD?, hlocals, hread]
  · rfl
  · decide

/-! ## §4. Classes and programs. -/

/-- The bodies of a class can be written, and their numbers fit into their formats. -/
def ClassDef.Formed (c : ClassDef) : Prop :=
  ∀ m ∈ c.methods, ∀ b ∈ m.body, b.Writable ∧ b.PushesOnly Constant.Fits

theorem MethodDef.isSome_ofJson?_iff {m : MethodDef}
    (h : ∀ b ∈ m.body, b.Writable ∧ b.PushesOnly Constant.Fits) :
    (ofJson? m.toJson).isSome ↔ ∀ b ∈ m.body, b.PushesOnly Constant.IsFinite := by
  have hbody : (nullable? Body.ofJson? (ofOption Body.toJson m.body)).isSome
      ↔ ∀ b ∈ m.body, b.PushesOnly Constant.IsFinite := by
    rw [isSome_nullable?_ofOption_iff fun _ _ => rfl]
    exact forall₂_congr fun b hb => Body.isSome_ofJson?_iff (h b hb).1 (h b hb).2
  rw [← hbody]
  unfold ofJson? toJson
  rw [record?_object]
  · cases hread : nullable? Body.ofJson? (ofOption Body.toJson m.body) <;>
      simp [Record.field?, Record.optional?, Record.fieldD?, MemberName.ofJson?_toJson,
        MethodDescriptor.ofJson?_toJson, MethodFlags.ofJson?_toJson, hread]
  · rfl
  · decide

theorem ClassDef.isSome_ofJson?_iff {c : ClassDef} (h : c.Formed) :
    (ofJson? c.toJson).isSome
      ↔ ∀ m ∈ c.methods, ∀ b ∈ m.body, b.PushesOnly Constant.IsFinite := by
  have hmethods : (list? MethodDef.ofJson? (ofList MethodDef.toJson c.methods)).isSome
      ↔ ∀ m ∈ c.methods, ∀ b ∈ m.body, b.PushesOnly Constant.IsFinite := by
    rw [isSome_list?_ofList_iff]
    exact forall₂_congr fun m hm => MethodDef.isSome_ofJson?_iff (h m hm)
  have hsuperclass : nullable? ClassName.ofJson? (ofOption ClassName.toJson c.superclass)
      = some (c.superclass.map id) :=
    nullable?_ofOption (fun n _ => n.ofJson?_toJson) rfl
  have hfields : list? FieldDef.ofJson? (ofList FieldDef.toJson c.fields)
      = some (c.fields.map id) := list?_ofList fun f _ => f.ofJson?_toJson
  rw [← hmethods]
  unfold ofJson? toJson
  rw [record?_object]
  · cases hread : list? MethodDef.ofJson? (ofList MethodDef.toJson c.methods) <;>
      simp [Record.optional?, Record.listD?, Record.fieldD?, hsuperclass, hfields, hread]
  · rfl
  · decide

namespace Program

theorem isSome_ofMember?_iff {x : ClassName × ClassDef} :
    (ofMember? (x.1.text, x.2.toJson)).isSome ↔ (ClassDef.ofJson? x.2.toJson).isSome := by
  unfold ofMember?
  rw [ClassName.ofString_text]
  cases ClassDef.ofJson? x.2.toJson <;> simp [Except.toOption]

/-- **A program is accepted as it is written exactly if it pushes no infinite number.** -/
theorem isSome_ofJson?_iff {p : Program} (h : p.Writable) (hfits : p.PushesOnly Constant.Fits) :
    (ofJson? p.toJson).isSome ↔ p.PushesOnly Constant.IsFinite := by
  have hformed : ∀ x ∈ p.classes, x.2.Formed :=
    forall_bodies_iff.mp fun x hx => ⟨h x hx, hfits x hx⟩
  unfold PushesOnly
  rw [forall_bodies_iff]
  show (Option.map ofList ((p.classes.map fun x => (x.1.text, x.2.toJson)).mapM ofMember?)).isSome
    ↔ _
  rw [Option.isSome_map, isSome_mapM_iff, List.forall_mem_map]
  refine forall₂_congr fun x hx => ?_
  rw [isSome_ofMember?_iff, ClassDef.isSome_ofJson?_iff (hformed x hx)]

/-- A program whose numbers fit into their formats, and its labels into words, can be written. -/
theorem writable_of_fits {p : Program} (hfits : p.PushesOnly Constant.Fits)
    (hlabels : p.LabelsFit) : p.Writable := by
  intro x hx e he
  obtain ⟨hlabel, htarget⟩ := hlabels x hx e he
  refine ⟨hlabel, fun c hc => Constant.plain_toJson_of_fits (hfits x hx e he c ?_), htarget⟩
  rw [hc]
  rfl

end Program

/-! ## §5. Woven programs. -/

/-- Whatever runs make of the program of a manifest, its numbers fit into their formats. -/
theorem WovenFrom.pushesOnly_fits {text : String} {m : Manifest}
    (hmanifest : Manifest.parse? text = some m) {w : Weaver} {woven : Program}
    (h : WovenFrom m.program w woven) : woven.PushesOnly Constant.Fits := by
  have hread : m.program.PushesOnly Constant.Fits :=
    Manifest.pushesOnly_of_parse? Constant.everRead_fits hmanifest
  exact h.pushesOnly Constant.ordinary_fits hread

/-- **Which woven programs are accepted as they are written.**  From the program of a manifest, any
runs may have led to a program whose labels fit.  The text that is written for it stands for what it
is written as, whatever its constants are; and that is decoded exactly if none of its 32-bit numbers
is infinite.  Runs make no such number, so it is enough that the manifest had none. -/
theorem woven_program_accepted_iff {text : String} {m : Manifest}
    (hmanifest : Manifest.parse? text = some m) {w : Weaver} {woven : Program}
    (hruns : WovenFrom m.program w woven) (hlabels : woven.LabelsFit) :
    Json.parse? woven.text = some woven.toJson
      ∧ ((Program.ofJson? woven.toJson).isSome ↔ woven.PushesOnly Constant.IsFinite)
      ∧ (m.program.PushesOnly Constant.IsFinite → (Program.ofJson? woven.toJson).isSome) := by
  have hfits : woven.PushesOnly Constant.Fits := hruns.pushesOnly_fits hmanifest
  have hwritable : woven.Writable := Program.writable_of_fits hfits hlabels
  have haccepted := Program.isSome_ofJson?_iff hwritable hfits
  refine ⟨hwritable.parse?_text, haccepted, fun hfinite => haccepted.mpr ?_⟩
  exact hruns.pushesOnly Constant.ordinary_isFinite hfinite

/-! ### A method that pushes a 32-bit number, and is hooked. -/

namespace Limit

/-- The class of the mixin. -/
def hooks : ClassDef := { superclass := none, methods := [Pair.hook] }

/-- The method, with the number as it is written. -/
def writtenRun (literal : NumberLiteral) : Json :=
  let entry (label : Nat) (instruction : Json) : Json :=
    .object [("label", .nat label), ("instruction", instruction)]
  .object [("name", .string "run"), ("descriptor", .string "()V"), ("access_flags", .nat 8),
    ("code", .object [("entries", .array [
      entry 0 (chosen "Push" (chosen "Float" (.number literal))),
      entry 1 (.string "Pop"),
      entry 2 (.string "Return")])])]

/-- The mixin as it is written. -/
def writtenMixin : Json :=
  .object [("name", .string "demo/P"), ("targets", .array [.string "demo/A"]),
    ("methods", .array [.object [
      ("name", .string "onBoth"),
      ("descriptor", .string "(Lmixweave/CallbackInfo;)V"),
      ("is_static", .bool true),
      ("injectors", .array [.object [("kind", .object [("type", .string "Inject")])]]),
      ("targets", .array [.object [("name", .string "run")]]),
      ("selectors", .array [.object [("at", .object [("type", .string "Head")])]])]])]

/-- The manifest as it is written, with a literal for the number. -/
def manifest (literal : NumberLiteral) : Json :=
  .object [
    ("program", .object [
      ("demo/A", .object [("methods", .array [writtenRun literal])]),
      ("demo/P", hooks.toJson)]),
    ("mixins", .array [writtenMixin])]

/-- The text of the manifest, indented. -/
def manifestText (literal : NumberLiteral) : String := (manifest literal).pretty ++ "\n"

/-- The method, with the number as it is read. -/
def run (x : Single) : MethodDef :=
  { Twins.run with
    flags := { isStatic := true }
    body := some (.ofInstructions [.push (.float x), .pop, .ret]) }

/-- The program as it is read. -/
def declared (x : Single) : Program :=
  ⟨[(Twins.a, { superclass := none, methods := [run x] }), (Twins.mixin, hooks)], by
    show List.Pairwise (· < ·) [Twins.a, Twins.mixin]
    decide⟩

/-- The mixins as they are read. -/
def mixins : List Mixin := [{ Twins.second with targets := [Twins.a] }]

/-- The program of the manifest. -/
def program (x : Single) : Program := (declared x).addSupport

/-- The first run of a weaver. -/
def result (x : Single) : WeaveResult := (Weaver.new {}).weave (program x) mixins

/-- The program that the run leads to. -/
def woven (x : Single) : Program := (result x).program

theorem wovenFrom_woven (x : Single) : WovenFrom (program x) (result x).weaver (woven x) :=
  .weave (.new {}) mixins

/-- A tenth as it is written, and as it is read. -/
def writtenTenth : NumberLiteral := .decimal false 1 [] (some (-1))

/-- The binary number next to a tenth. -/
def tenth : Single := .ofRatio false 1 10

theorem parse?_tenth :
    Manifest.parse? (manifestText writtenTenth) = some ⟨program tenth, mixins⟩ := by
  have hmanifest : Manifest.ofJson? (manifest writtenTenth) = some ⟨declared tenth, mixins⟩ := by
    decide +kernel
  exact Manifest.parse?_pretty (by decide +kernel) hmanifest

/-- A number of 40 digits as it is written, and as it is read: as an infinite one. -/
def writtenHuge : NumberLiteral := .decimal false 1 [] (some 39)

/-- What is read from the literal of 40 digits. -/
def huge : Single := .infinite false

theorem parse?_huge : Manifest.parse? (manifestText writtenHuge) = some ⟨program huge, mixins⟩ := by
  have hmanifest : Manifest.ofJson? (manifest writtenHuge) = some ⟨declared huge, mixins⟩ := by
    decide +kernel
  exact Manifest.parse?_pretty (by decide +kernel) hmanifest

theorem isSome_result_huge : (result huge).outcome.toOption.isSome = true := by decide +kernel

theorem labelsFit_woven_huge : (woven huge).LabelsFit := by decide +kernel

theorem not_pushesOnly_woven_huge : ¬ (woven huge).PushesOnly Constant.IsFinite := by
  decide +kernel

end Limit

/-- The hooked method pushes a tenth. -/
theorem woven_program_accepted_iff_tenth :
    Manifest.parse? (Limit.manifestText Limit.writtenTenth)
        = some ⟨Limit.program Limit.tenth, Limit.mixins⟩
      ∧ WovenFrom (Limit.program Limit.tenth) (Limit.result Limit.tenth).weaver
          (Limit.woven Limit.tenth)
      ∧ (Limit.woven Limit.tenth).LabelsFit
      ∧ Json.parse? (Limit.woven Limit.tenth).text = some (Limit.woven Limit.tenth).toJson
      ∧ (Program.ofJson? (Limit.woven Limit.tenth).toJson).isSome := by
  have hruns := Limit.wovenFrom_woven Limit.tenth
  have hlabels : (Limit.woven Limit.tenth).LabelsFit := by decide +kernel
  have hfinite : (Limit.program Limit.tenth).PushesOnly Constant.IsFinite := by decide +kernel
  obtain ⟨htext, -, haccepted⟩ := woven_program_accepted_iff Limit.parse?_tenth hruns hlabels
  exact ⟨Limit.parse?_tenth, hruns, hlabels, htext, haccepted hfinite⟩

/-- **A number beyond those of 32 bits is accepted in a manifest, but not as it is written.**  It is
read as an infinite number; the mixins are woven in, and `null` is what is written for it. -/
theorem infinite_constant_is_refused :
    Manifest.parse? (Limit.manifestText Limit.writtenHuge)
        = some ⟨Limit.program Limit.huge, Limit.mixins⟩
      ∧ (∃ report, (Limit.result Limit.huge).outcome = .ok report)
      ∧ Json.parse? (Limit.woven Limit.huge).text = some (Limit.woven Limit.huge).toJson
      ∧ Program.ofJson? (Limit.woven Limit.huge).toJson = none := by
  have hfits : (Limit.woven Limit.huge).PushesOnly Constant.Fits :=
    (Limit.wovenFrom_woven Limit.huge).pushesOnly_fits Limit.parse?_huge
  have hwritable := Program.writable_of_fits hfits Limit.labelsFit_woven_huge
  have hsucceeds := Limit.isSome_result_huge
  refine ⟨Limit.parse?_huge, ?_, hwritable.parse?_text, ?_⟩
  · cases houtcome : (Limit.result Limit.huge).outcome with
    | error e => simp [houtcome, Except.toOption] at hsucceeds
    | ok report => exact ⟨report, rfl⟩
  · rw [← Option.not_isSome_iff_eq_none, Program.isSome_ofJson?_iff hwritable hfits]
    exact Limit.not_pushesOnly_woven_huge

end PatchWeaver

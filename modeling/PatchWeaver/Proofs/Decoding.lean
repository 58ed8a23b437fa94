/-
  PatchWeaver.Proofs.Decoding
  ───────────────────────────
  **A PROGRAM IS DECODED FROM WHAT IT IS WRITTEN AS.**

  Every writer of a program has a reader that gives back what was written:

      ofJson? (toJson x) = some x

  The value between them is plain, so its text is read as that value
  (`parse?_pretty`), also where it cannot be decoded again (`Writable`).
  Three things bound what comes back:

      labels      have to be words of 64 bits
      constants   have to be other than binary fractions
      supplies    of labels are not written, so a body comes back without one

  A value is `Plain` for a number of levels, that of its containers; there
  are ten of them in a program.

  Main results:
    * `Instruction.ofJson?_toJson`, `Body.ofJson?_toJson` — code.
    * `Program.ofJson?_toJson` — a program.
    * `Program.Writable.parse?_text` — the text of a program.
-/
import PatchWeaver.Codec.Program
import PatchWeaver.Proofs.CanonicalForms
import PatchWeaver.Proofs.JsonText

namespace PatchWeaver

open Json

/-! ## §1. Plain values. -/

namespace Json

/-- A value is plain as soon as so many levels are left for it. -/
def Plain (depth : Nat) (j : Json) : Prop := ∀ levels, depth ≤ levels → isPlain levels j = true

theorem Plain.mono {depth depth' : Nat} {j : Json} (h : Plain depth j) (hle : depth ≤ depth') :
    Plain depth' j :=
  fun levels hlevels => h levels (Nat.le_trans hle hlevels)

theorem plain_null (depth : Nat) : Plain depth .null := fun _ _ => rfl

theorem plain_bool (depth : Nat) (value : Bool) : Plain depth (.bool value) := fun _ _ => rfl

theorem plain_string (depth : Nat) (value : String) : Plain depth (.string value) := fun _ _ => rfl

theorem plain_int (depth : Nat) {i : Int} (h : isWord i = true) : Plain depth (.int i) :=
  fun _ _ => h

theorem plain_nat (depth : Nat) {n : Nat} (h : isWord n = true) : Plain depth (.nat n) :=
  plain_int depth h

/-- Numbers of 16 bits are words. -/
theorem isWord_of_lt {n : Nat} (h : n < 0x10000) : isWord n = true := by
  simp only [isWord, Bool.and_eq_true, decide_eq_true_iff]
  omega

theorem plain_array {depth : Nat} {items : List Json} (h : ∀ j ∈ items, Plain depth j) :
    Plain (depth + 1) (.array items) := by
  intro levels hlevels
  have hitems : arePlain (levels - 1) items = true := by
    induction items with
    | nil => rfl
    | cons item items ih =>
      obtain ⟨hitem, hothers⟩ := List.forall_mem_cons.mp h
      simp only [arePlain, hitem (levels - 1) (by omega), ih hothers, Bool.and_self]
  have hpos : 0 < levels := by omega
  simp [isPlain, hpos, hitems]

theorem plain_object {depth : Nat} {members : List (String × Json)}
    (h : ∀ m ∈ members, Plain depth m.2) : Plain (depth + 1) (.object members) := by
  intro levels hlevels
  have hmembers : areMembersPlain (levels - 1) members = true := by
    induction members with
    | nil => rfl
    | cons member members ih =>
      obtain ⟨hmember, hothers⟩ := List.forall_mem_cons.mp h
      simp only [areMembersPlain, hmember (levels - 1) (by omega), ih hothers, Bool.and_self]
  have hpos : 0 < levels := by omega
  simp [isPlain, hpos, hmembers]

theorem plain_ofList {α : Type} {depth : Nat} {f : α → Json} {items : List α}
    (h : ∀ a ∈ items, Plain depth (f a)) : Plain (depth + 1) (ofList f items) :=
  plain_array fun _ hj => by
    obtain ⟨a, ha, rfl⟩ := List.mem_map.mp hj
    exact h a ha

theorem plain_ofOption {α : Type} {depth : Nat} {f : α → Json} {o : Option α}
    (h : ∀ a ∈ o, Plain depth (f a)) : Plain depth (ofOption f o) := by
  cases o with
  | none => exact plain_null depth
  | some a => exact h a rfl

theorem plain_chosen {depth : Nat} (name : String) {payload : Json} (h : Plain depth payload) :
    Plain (depth + 1) (chosen name payload) := by
  refine plain_object fun m hm => ?_
  rw [List.mem_singleton.mp hm]
  exact h

end Json

/-! ## §2. Numbers, alternatives and lists. -/

namespace Json

theorem intWithin?_int {least most i : Int} (hleast : least ≤ i) (hmost : i ≤ most) :
    intWithin? least most (.int i) = some i := by
  show Option.filter (fun i => decide (least ≤ i ∧ i ≤ most)) (some i) = some i
  rw [Option.filter_some, if_pos (by simp [hleast, hmost])]

theorem natOfBits?_nat {bits n : Nat} (h : n < Nat.pow 2 bits) :
    natOfBits? bits (.nat n) = some n := by
  have hmost : (n : Int) ≤ Nat.pow 2 bits - 1 := by omega
  show (intWithin? 0 (Nat.pow 2 bits - 1) (.int n)).map Int.toNat = some n
  rw [intWithin?_int (by omega) hmost]
  rfl

theorem word?_nat {n : Nat} (h : isWord n = true) : word? (.nat n) = some n := by
  refine natOfBits?_nat ?_
  simp only [isWord, Bool.and_eq_true, decide_eq_true_iff] at h
  show n < 0x10000000000000000
  omega

theorem int32?_int (value : Int32) : int32? (.int value.toInt) = some value := by
  have hleast := value.le_toInt
  have hmost := value.toInt_lt
  unfold int32?
  rw [intWithin?_int (by omega) (by omega), Option.map_some, Int32.ofInt_toInt]

theorem int64?_int (value : Int64) : int64? (.int value.toInt) = some value := by
  have hleast := value.le_toInt
  have hmost := value.toInt_lt
  unfold int64?
  rw [intWithin?_int (by omega) (by omega), Option.map_some, Int64.ofInt_toInt]

/-- An item is found by its name, if no item before it has that name. -/
theorem named?_name {α : Type} {items : List α} {name : α → String} {a : α}
    (h : items.find? (name · = name a) = some a) : named? items name (.string (name a)) = some a :=
  h

/-- What is written for each item is read item by item. -/
theorem list?_ofList {α β : Type} {decode : Json → Option β} {f : α → Json} {g : α → β}
    {items : List α} (h : ∀ a ∈ items, decode (f a) = some (g a)) :
    list? decode (ofList f items) = some (items.map g) :=
  mapM_map_of_forall h

/-- What may be missing is read, unless it is written as `null` itself. -/
theorem nullable?_ofOption {α β : Type} {decode : Json → Option β} {f : α → Json} {g : α → β}
    {o : Option α} (h : ∀ a ∈ o, decode (f a) = some (g a)) (hnull : decode .null = none) :
    nullable? decode (ofOption f o) = some (o.map g) := by
  cases o with
  | none => rfl
  | some a =>
    have hread := h a rfl
    show nullable? decode (f a) = _
    unfold nullable?
    split
    · next heq =>
      rw [heq, hnull] at hread
      contradiction
    · rw [hread]
      rfl

/-! ## §3. Records. -/

/-- A record with all its fields is the list of its members. -/
theorem record?_object {names : List String} {members : List (String × Json)}
    (hnames : members.map (·.1) = names) (hdistinct : names.Nodup) :
    record? names (.object members) = some members := by
  have hknown : members.filter (·.1 ∈ names) = members := by
    rw [List.filter_eq_self]
    intro m hm
    rw [decide_eq_true_iff, ← hnames]
    exact List.mem_map_of_mem hm
  show Record.ofMembers? names members = _
  unfold Record.ofMembers?
  simp only [hknown, hnames]
  rw [if_pos hdistinct]

namespace Record

@[simp]
theorem get?_cons_self (name : String) (j : Json) (r : Record) :
    get? ((name, j) :: r) name = some j := by
  simp [get?]

@[simp]
theorem get?_cons_of_ne {name other : String} (h : other ≠ name) (j : Json) (r : Record) :
    get? ((other, j) :: r) name = get? r name := by
  simp [get?, h]

end Record

end Json

/-! ## §4. Names, types and references. -/

theorem MemberName.ofJson?_toJson (n : MemberName) : MemberName.ofJson? n.toJson = some n := by
  show (MemberName.ofString n.text).toOption = _
  rw [MemberName.ofString_text]
  rfl

theorem ClassName.ofJson?_toJson (n : ClassName) : ClassName.ofJson? n.toJson = some n := by
  show (ClassName.ofString n.text).toOption = _
  rw [ClassName.ofString_text]
  rfl

theorem FieldType.ofJson?_toJson (t : FieldType) : FieldType.ofJson? t.toJson = some t := by
  have hparse : FieldType.parse t.render = .ok t :=
    (Inverses.of_read_iff FieldType.read_eq_ok_iff).accepted t
  show (FieldType.parse t.render).toOption = _
  rw [hparse]
  rfl

theorem MethodDescriptor.ofJson?_toJson (d : MethodDescriptor) :
    MethodDescriptor.ofJson? d.toJson = some d := by
  have hparse : MethodDescriptor.parse d.render = .ok d :=
    (Inverses.of_read_iff MethodDescriptor.read_eq_ok_iff).accepted d
  show (MethodDescriptor.parse d.render).toOption = _
  rw [hparse]
  rfl

theorem MethodRef.ofJson?_toJson (m : MethodRef) : MethodRef.ofJson? m.toJson = some m := by
  unfold ofJson? toJson
  rw [record?_object]
  · simp [Record.field?, Record.fieldD?, ClassName.ofJson?_toJson, MemberName.ofJson?_toJson,
      MethodDescriptor.ofJson?_toJson, bool?]
  · rfl
  · decide

theorem FieldRef.ofJson?_toJson (f : FieldRef) : FieldRef.ofJson? f.toJson = some f := by
  unfold ofJson? toJson
  rw [record?_object]
  · simp [Record.field?, Record.fieldD?, ClassName.ofJson?_toJson, MemberName.ofJson?_toJson,
      FieldType.ofJson?_toJson, bool?]
  · rfl
  · decide

theorem MethodRef.plain_toJson (m : MethodRef) : Plain 1 m.toJson := by
  refine plain_object ?_
  simp [plain_bool, plain_string, ClassName.toJson, MemberName.toJson, MethodDescriptor.toJson]

theorem FieldRef.plain_toJson (f : FieldRef) : Plain 1 f.toJson := by
  refine plain_object ?_
  simp [plain_bool, plain_string, ClassName.toJson, MemberName.toJson, FieldType.toJson]

/-! ## §5. Instructions. -/

/-- Whether a constant is a binary fraction. -/
def Constant.isFloating : Constant → Bool
  | .float _ | .double _ => true
  | _ => false

theorem Constant.ofJson?_toJson {c : Constant} (h : c.isFloating = false) :
    Constant.ofJson? c.toJson = some c := by
  cases c with
  | null => rfl
  | int value => simp [ofJson?, toJson, chosen, choice?, int32?_int]
  | long value => simp [ofJson?, toJson, chosen, choice?, int64?_int]
  | string value => rfl
  | float value => contradiction
  | double value => contradiction

theorem Constant.plain_toJson {c : Constant} (h : c.isFloating = false) : Plain 1 c.toJson := by
  -- a number of either width fits into the words that JSON holds
  cases c with
  | null => exact plain_string 1 "Null"
  | int value =>
    have hleast := value.le_toInt
    have hmost := value.toInt_lt
    refine plain_chosen "Int" (plain_int 0 ?_)
    simp only [isWord, Bool.and_eq_true, decide_eq_true_iff]
    omega
  | long value =>
    have hleast := value.le_toInt
    have hmost := value.toInt_lt
    refine plain_chosen "Long" (plain_int 0 ?_)
    simp only [isWord, Bool.and_eq_true, decide_eq_true_iff]
    omega
  | string value => exact plain_chosen "String" (plain_string 0 value)
  | float value => contradiction
  | double value => contradiction

/-- A label fits into a word of 64 bits. -/
def Label.Fits (l : Label) : Prop := isWord l.id = true

instance : DecidablePred Label.Fits := fun l => inferInstanceAs (Decidable (isWord l.id = true))

theorem Label.ofJson?_toJson {l : Label} (h : l.Fits) : Label.ofJson? l.toJson = some l := by
  unfold ofJson? toJson
  rw [word?_nat h]
  rfl

theorem slot?_slotToJson (s : Slot) : slot? (slotToJson s) = some s := by
  unfold slot? slotToJson
  rw [natOfBits?_nat s.toNat_lt]
  simp

theorem plain_slotToJson (s : Slot) : Plain 0 (slotToJson s) :=
  plain_nat 0 (isWord_of_lt s.toNat_lt)

theorem Comparison.ofJson?_toJson (c : Comparison) : Comparison.ofJson? c.toJson = some c :=
  named?_name (by cases c <;> decide)

theorem ArithmeticOp.ofJson?_name (op : ArithmeticOp) :
    ArithmeticOp.ofJson? (.string op.name) = some op :=
  named?_name (by cases op <;> decide)

theorem BaseType.ofJson?_name (b : BaseType) : BaseType.ofJson? (.string b.name) = some b :=
  named?_name (by cases b <;> decide)

theorem CallKind.ofJson?_name (k : CallKind) : CallKind.ofJson? (.string k.name) = some k :=
  named?_name (by cases k <;> decide)

theorem Origin.ofJson?_name (o : Origin) : Origin.ofJson? (.string o.name) = some o :=
  named?_name (by cases o <;> decide)

namespace Instruction

/-- An instruction that can be read back: its constant is no binary fraction, and its target fits
into a word. -/
structure Storable (i : Instruction) : Prop where
  constant : ∀ c, i = .push c → c.isFloating = false
  target : ∀ l, i.target? = some l → l.Fits

/-- An instruction with operands is the one of its name. -/
theorem ofJson?_chosen (name : String) {operands : Json} (h : operands.isNull = false) :
    ofJson? (chosen name operands) = withOperands? name operands := by
  cases operands with
  | null => contradiction
  | _ => rfl

/-- **Every instruction is decoded from what it is written as.** -/
theorem ofJson?_toJson {i : Instruction} (h : i.Storable) : ofJson? i.toJson = some i := by
  cases i with
  | nop | pop | dup | neg | ret | throw => rfl
  | push c =>
    have hnull : c.toJson.isNull = false := by cases c <;> rfl
    rw [toJson, ofJson?_chosen _ hnull]
    simp [withOperands?, Constant.ofJson?_toJson (h.constant c rfl)]
  | loadArg slot | storeArg slot | loadLocal slot | storeLocal slot =>
    rw [toJson, ofJson?_chosen _ rfl]
    simp [withOperands?, slot?_slotToJson]
  | arithmetic op =>
    rw [toJson, ofJson?_chosen _ rfl]
    simp [withOperands?, ArithmeticOp.ofJson?_name]
  | compare c =>
    rw [toJson, ofJson?_chosen _ rfl]
    simp [withOperands?, Comparison.ofJson?_toJson]
  | convert type =>
    rw [toJson, ofJson?_chosen _ rfl]
    simp [withOperands?, BaseType.ofJson?_name]
  | checkCast type =>
    rw [toJson, ofJson?_chosen _ rfl]
    simp [withOperands?, FieldType.ofJson?_toJson]
  | getField field | putField field =>
    rw [toJson, ofJson?_chosen _ rfl]
    simp [withOperands?, FieldRef.ofJson?_toJson]
  | new constructor =>
    rw [toJson, ofJson?_chosen _ rfl]
    simp [withOperands?, MethodRef.ofJson?_toJson]
  | invoke kind callee =>
    rw [toJson, ofJson?_chosen _ rfl]
    simp [withOperands?, pair?, CallKind.ofJson?_name, MethodRef.ofJson?_toJson]
  | branch target =>
    rw [toJson, ofJson?_chosen _ rfl]
    simp [withOperands?, Label.ofJson?_toJson (h.target target rfl)]
  | branchIf expected target =>
    rw [toJson, ofJson?_chosen _ rfl]
    simp [withOperands?, pair?, bool?, Label.ofJson?_toJson (h.target target rfl)]
  | branchCompare c target =>
    rw [toJson, ofJson?_chosen _ rfl]
    simp [withOperands?, pair?, Comparison.ofJson?_toJson,
      Label.ofJson?_toJson (h.target target rfl)]

/-- An instruction whose text can be read: its constant is written plainly, and its target fits
into a word. -/
structure Writable (i : Instruction) : Prop where
  constant : ∀ c, i = .push c → Plain 1 c.toJson
  target : ∀ l, i.target? = some l → l.Fits

theorem Storable.writable {i : Instruction} (h : i.Storable) : i.Writable where
  constant c hc := Constant.plain_toJson (h.constant c hc)
  target := h.target

theorem plain_toJson {i : Instruction} (h : i.Writable) : Plain 3 i.toJson := by
  have htarget (l : Label) (hl : i.target? = some l) : Plain 2 l.toJson :=
    plain_nat 2 (h.target l hl)
  have hslot (s : Slot) : Plain 2 (slotToJson s) := (plain_slotToJson s).mono (by omega)
  have hpair {a b : Json} (ha : Plain 1 a) (hb : Plain 1 b) : Plain 2 (.array [a, b]) :=
    plain_array (List.forall_mem_cons.mpr ⟨ha, List.forall_mem_singleton.mpr hb⟩)
  cases i with
  | nop | pop | dup | neg | ret | throw => exact plain_string 3 _
  | push c => exact plain_chosen _ ((h.constant c rfl).mono (by omega))
  | loadArg slot | storeArg slot | loadLocal slot | storeLocal slot =>
    exact plain_chosen _ (hslot slot)
  | arithmetic _ | compare _ | convert _ | checkCast _ => exact plain_chosen _ (plain_string 2 _)
  | getField field | putField field =>
    exact plain_chosen _ (field.plain_toJson.mono (by omega))
  | new constructor => exact plain_chosen _ (constructor.plain_toJson.mono (by omega))
  | invoke kind callee => exact plain_chosen _ (hpair (plain_string 1 _) callee.plain_toJson)
  | branch target => exact plain_chosen _ (htarget target rfl)
  | branchIf expected target =>
    exact plain_chosen _ (hpair (plain_bool 1 expected) (plain_nat 1 (h.target target rfl)))
  | branchCompare c target =>
    exact plain_chosen _ (hpair (plain_string 1 _) (plain_nat 1 (h.target target rfl)))

end Instruction

/-! ## §6. Bodies. -/

/-- An entry that can be read back. -/
structure Entry.Storable (e : Entry) : Prop where
  label : e.label.Fits
  instruction : e.instruction.Storable

theorem Entry.ofJson?_toJson {e : Entry} (h : e.Storable) : Entry.ofJson? e.toJson = some e := by
  unfold ofJson? toJson
  rw [record?_object]
  · simp [Record.field?, Record.fieldD?, Label.ofJson?_toJson h.label, Origin.ofJson?_name,
      Instruction.ofJson?_toJson h.instruction]
  · rfl
  · decide

/-- An entry whose text can be read. -/
structure Entry.Writable (e : Entry) : Prop where
  label : e.label.Fits
  instruction : e.instruction.Writable

theorem Entry.plain_toJson {e : Entry} (h : e.Writable) : Plain 4 e.toJson := by
  refine plain_object ?_
  have hlabel : Plain 3 e.label.toJson := plain_nat 3 h.label
  simp [hlabel, plain_string, Instruction.plain_toJson h.instruction]

namespace Body

/-- A body that can be read back. -/
def Storable (b : Body) : Prop := ∀ e ∈ b.entries, e.Storable

/-- A body without its supply of labels. -/
def withoutSupply (b : Body) : Body := { b with labels := none }

/-- **A body is decoded from what it is written as**, but for its supply of labels. -/
theorem ofJson?_toJson {b : Body} (h : b.Storable) : ofJson? b.toJson = some b.withoutSupply := by
  have hentries : list? Entry.ofJson? (ofList Entry.toJson b.entries) = some (b.entries.map id) :=
    list?_ofList fun e he => Entry.ofJson?_toJson (h e he)
  have hlocals : list? FieldType.ofJson? (ofList FieldType.toJson b.locals)
      = some (b.locals.map id) := list?_ofList fun t _ => t.ofJson?_toJson
  rw [List.map_id] at hentries hlocals
  unfold ofJson? toJson
  rw [record?_object]
  · simp [Record.field?, Record.listD?, Record.fieldD?, hentries, hlocals, withoutSupply]
  · rfl
  · decide

/-- A body whose text can be read. -/
def Writable (b : Body) : Prop := ∀ e ∈ b.entries, e.Writable

theorem plain_toJson {b : Body} (h : b.Writable) : Plain 6 b.toJson := by
  have hentries : Plain 5 (ofList Entry.toJson b.entries) :=
    plain_ofList fun e he => Entry.plain_toJson (h e he)
  have hlocals : Plain 5 (ofList FieldType.toJson b.locals) :=
    plain_ofList fun t _ => plain_string 4 t.render
  refine plain_object ?_
  simp [hentries, hlocals]

end Body

/-! ## §7. Classes. -/

theorem MethodFlags.toBits_lt (f : MethodFlags) : f.toBits < 0x10000 := by
  have hbit (b : Bool) : b.toNat ≤ 1 := by cases b <;> decide
  have hpublic := hbit f.isPublic
  have hprivate := hbit f.isPrivate
  have hstatic := hbit f.isStatic
  have hfinal := hbit f.isFinal
  have habstract := hbit f.isAbstract
  have hsynthetic := hbit f.isSynthetic
  unfold toBits
  omega

theorem MethodFlags.ofJson?_toJson (f : MethodFlags) : MethodFlags.ofJson? f.toJson = some f := by
  unfold ofJson? toJson
  rw [natOfBits?_nat f.toBits_lt, Option.bind_some, ofBits?_toBits]

namespace MethodDef

/-- A method whose body, if it has one, can be read back. -/
def Storable (m : MethodDef) : Prop := ∀ b ∈ m.body, b.Storable

/-- A method without the supply of labels of its body. -/
def withoutSupply (m : MethodDef) : MethodDef := { m with body := m.body.map Body.withoutSupply }

theorem ofJson?_toJson {m : MethodDef} (h : m.Storable) :
    ofJson? m.toJson = some m.withoutSupply := by
  have hbody : nullable? Body.ofJson? (ofOption Body.toJson m.body)
      = some (m.body.map Body.withoutSupply) :=
    nullable?_ofOption (fun b hb => Body.ofJson?_toJson (h b hb)) rfl
  unfold ofJson? toJson
  rw [record?_object]
  · simp [Record.field?, Record.optional?, Record.fieldD?, MemberName.ofJson?_toJson,
      MethodDescriptor.ofJson?_toJson, MethodFlags.ofJson?_toJson, hbody, withoutSupply]
  · rfl
  · decide

theorem plain_toJson {m : MethodDef} (h : ∀ b ∈ m.body, b.Writable) : Plain 7 m.toJson := by
  have hflags : Plain 6 m.flags.toJson := plain_nat 6 (isWord_of_lt m.flags.toBits_lt)
  have hbody : Plain 6 (ofOption Body.toJson m.body) :=
    plain_ofOption fun b hb => Body.plain_toJson (h b hb)
  refine plain_object ?_
  simp [hflags, hbody, plain_string, MemberName.toJson, MethodDescriptor.toJson]

end MethodDef

theorem FieldDef.ofJson?_toJson (f : FieldDef) : FieldDef.ofJson? f.toJson = some f := by
  unfold ofJson? toJson
  rw [record?_object]
  · simp [Record.field?, Record.fieldD?, MemberName.ofJson?_toJson, FieldType.ofJson?_toJson, bool?]
  · rfl
  · decide

theorem FieldDef.plain_toJson (f : FieldDef) : Plain 1 f.toJson := by
  refine plain_object ?_
  simp [plain_bool, plain_string, MemberName.toJson, FieldType.toJson]

namespace ClassDef

/-- A class whose bodies can be read back. -/
def Storable (c : ClassDef) : Prop := ∀ m ∈ c.methods, m.Storable

/-- A class without the supplies of labels of its bodies. -/
def withoutSupplies (c : ClassDef) : ClassDef :=
  { c with methods := c.methods.map MethodDef.withoutSupply }

theorem ofJson?_toJson {c : ClassDef} (h : c.Storable) :
    ofJson? c.toJson = some c.withoutSupplies := by
  have hsuperclass : nullable? ClassName.ofJson? (ofOption ClassName.toJson c.superclass)
      = some (c.superclass.map id) :=
    nullable?_ofOption (fun n _ => n.ofJson?_toJson) rfl
  have hmethods : list? MethodDef.ofJson? (ofList MethodDef.toJson c.methods)
      = some (c.methods.map MethodDef.withoutSupply) :=
    list?_ofList fun m hm => MethodDef.ofJson?_toJson (h m hm)
  have hfields : list? FieldDef.ofJson? (ofList FieldDef.toJson c.fields)
      = some (c.fields.map id) := list?_ofList fun f _ => f.ofJson?_toJson
  rw [Option.map_id_fun, id_eq] at hsuperclass
  rw [List.map_id] at hfields
  unfold ofJson? toJson
  rw [record?_object]
  · simp [Record.optional?, Record.listD?, Record.fieldD?, hsuperclass, hmethods, hfields,
      withoutSupplies]
  · rfl
  · decide

theorem plain_toJson {c : ClassDef} (h : ∀ m ∈ c.methods, ∀ b ∈ m.body, b.Writable) :
    Plain 9 c.toJson := by
  have hsuperclass : Plain 8 (ofOption ClassName.toJson c.superclass) :=
    plain_ofOption fun n _ => plain_string 8 n.text
  have hmethods : Plain 8 (ofList MethodDef.toJson c.methods) :=
    plain_ofList fun m hm => MethodDef.plain_toJson (h m hm)
  have hfields : Plain 8 (ofList FieldDef.toJson c.fields) :=
    plain_ofList fun f _ => f.plain_toJson.mono (by omega)
  refine plain_object ?_
  simp [hsuperclass, hmethods, hfields]

end ClassDef

/-! ## §8. Programs. -/

namespace ClassTable

/-- A class that comes after all others is put behind them. -/
theorem put_of_forall_lt {name : ClassName} {t : ClassTable} (h : ∀ x ∈ t, x.1 < name)
    (c : ClassDef) : put name c t = t ++ [(name, c)] := by
  induction t with
  | nil => rfl
  | cons x t ih =>
    obtain ⟨n, d⟩ := x
    obtain ⟨hlt, hothers⟩ := List.forall_mem_cons.mp h
    have hnot : ¬ name < n := fun hgt => String.lt_irrefl n.text (String.lt_trans hlt hgt)
    have hne : name ≠ n := by
      intro heq
      rw [heq] at hnot
      exact hnot (heq ▸ hlt)
    rw [put, if_neg hnot, if_neg hne, ih hothers]
    rfl

end ClassTable

namespace Program

/-- The classes of a program make up that program. -/
theorem ofList_classes (p : Program) : ofList p.classes = p := by
  -- what is still to be put in has names behind all those that are in
  have hfold : ∀ (rest : ClassTable) (q : Program), (q.classes ++ rest).Ordered →
      (rest.foldl (fun q (x : ClassName × ClassDef) => q.putClass x.1 x.2) q).classes
        = q.classes ++ rest := by
    intro rest
    induction rest with
    | nil =>
      intro q _
      exact (List.append_nil _).symm
    | cons x rest ih =>
      intro q hordered
      obtain ⟨name, c⟩ := x
      -- by the order of the table the next name is behind all so far
      have hlt : ∀ y ∈ q.classes, y.1 < name := by
        intro y hy
        unfold ClassTable.Ordered at hordered
        rw [List.map_append, List.pairwise_append] at hordered
        exact hordered.2.2 y.1 (List.mem_map_of_mem hy) name List.mem_cons_self
      have hput : (q.putClass name c).classes = q.classes ++ [(name, c)] :=
        ClassTable.put_of_forall_lt hlt c
      have hstep := ih (q.putClass name c) (by rwa [hput, List.append_assoc])
      rw [hput, List.append_assoc] at hstep
      exact hstep
  have hclasses : (ofList p.classes).classes = p.classes := hfold p.classes empty p.ordered
  cases p
  exact Program.mk.injEq .. ▸ hclasses

/-- A program without the supplies of labels of its bodies.  They are no part of what a program is:
two bodies that differ in nothing else are the same (`Body.same`). -/
def withoutSupplies (p : Program) : Program where
  classes := p.classes.map fun x => (x.1, x.2.withoutSupplies)
  ordered := by
    have hordered := p.ordered
    unfold ClassTable.Ordered at hordered ⊢
    rw [List.map_map]
    exact hordered

/-- The bodies of a program are those of the methods of its classes. -/
theorem forall_bodies_iff {p : Program} {kind : Body → Prop} :
    (∀ x ∈ p.bodies, kind x.2)
      ↔ ∀ x ∈ p.classes, ∀ m ∈ x.2.methods, ∀ b ∈ m.body, kind b := by
  unfold bodies
  constructor
  · intro h x hx m hm b hb
    refine h (m.ref x.1, b) (List.mem_flatMap.mpr ⟨x, hx, ?_⟩)
    refine List.mem_filterMap.mpr ⟨m, hm, ?_⟩
    rw [Option.mem_def.mp hb]
    rfl
  · intro h y hy
    obtain ⟨x, hx, hy⟩ := List.mem_flatMap.mp hy
    obtain ⟨m, hm, hy⟩ := List.mem_filterMap.mp hy
    obtain ⟨b, hb, rfl⟩ := Option.map_eq_some_iff.mp hy
    exact h x hx m hm b hb

/-- A program whose bodies can be read back. -/
def Storable (p : Program) : Prop := ∀ x ∈ p.bodies, x.2.Storable

theorem Storable.storable_class {p : Program} (h : p.Storable) {x : ClassName × ClassDef}
    (hx : x ∈ p.classes) : x.2.Storable :=
  forall_bodies_iff.mp h x hx

theorem ofMember?_toJson {x : ClassName × ClassDef} (h : x.2.Storable) :
    ofMember? (x.1.text, x.2.toJson) = some (x.1, x.2.withoutSupplies) := by
  unfold ofMember?
  rw [ClassName.ofString_text, ClassDef.ofJson?_toJson h]
  rfl

/-- **A program is decoded from what it is written as**, but for its supplies of labels. -/
theorem ofJson?_toJson {p : Program} (h : p.Storable) :
    ofJson? p.toJson = some p.withoutSupplies := by
  have hmembers : (p.classes.map fun x => (x.1.text, x.2.toJson)).mapM ofMember?
      = some p.withoutSupplies.classes :=
    mapM_map_of_forall fun x hx => ofMember?_toJson (h.storable_class hx)
  show Option.map ofList (List.mapM ofMember? (p.classes.map fun x => (x.1.text, x.2.toJson))) = _
  rw [hmembers]
  exact congrArg some (ofList_classes p.withoutSupplies)

/-- A program whose text can be read. -/
def Writable (p : Program) : Prop := ∀ x ∈ p.bodies, x.2.Writable

theorem Storable.writable {p : Program} (h : p.Storable) : p.Writable :=
  fun x hx e he => ⟨(h x hx e he).label, (h x hx e he).instruction.writable⟩

theorem plain_toJson {p : Program} (h : p.Writable) : Plain 10 p.toJson :=
  plain_object fun m hm => by
    obtain ⟨x, hx, rfl⟩ := List.mem_map.mp hm
    exact ClassDef.plain_toJson (forall_bodies_iff.mp h x hx)

/-- **The text of a program stands for what the program is written as.** -/
theorem Writable.parse?_text {p : Program} (h : p.Writable) :
    Json.parse? p.text = some p.toJson :=
  parse?_pretty (plain_toJson h maxLevels (by decide))

theorem parse?_text {p : Program} (h : p.Storable) : Json.parse? p.text = some p.toJson :=
  h.writable.parse?_text

end Program

end PatchWeaver

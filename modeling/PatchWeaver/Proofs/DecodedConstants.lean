/-
  PatchWeaver.Proofs.DecodedConstants
  ───────────────────────────────────
  **WHAT CONSTANTS A PROGRAM IS READ WITH.**

  The constants of a program that is read were read one by one, each from a
  value of its own.  So what holds of every constant that can be read
  (`EverRead`) holds of the constants of every program that is read, level
  by level:

      constant  →  instruction  →  entry  →  body  →  method  →  class  →  program

  A manifest adds the support classes to its program, whose methods have no
  bodies, and so no constants.

  Main results:
    * `Program.pushesOnly_of_ofJson?` — a program.
    * `Manifest.pushesOnly_of_parse?` — the program of a manifest.
-/
import PatchWeaver.Codec.Manifest
import PatchWeaver.Proofs.Constants
import PatchWeaver.Proofs.Decoding

namespace PatchWeaver

open Json

/-! ## §1. Values that are read. -/

namespace Json

/-- Every result was read from one of the items. -/
theorem exists_of_mem_mapM_some {α β : Type} {f : α → Option β} {as : List α} {bs : List β}
    (h : as.mapM f = some bs) {b : β} (hb : b ∈ bs) : ∃ a ∈ as, f a = some b := by
  induction as generalizing bs with
  | nil =>
    obtain rfl : [] = bs := by simpa using h
    contradiction
  | cons a as ih =>
    simp only [List.mapM_cons, Option.bind_eq_bind, Option.bind_eq_some_iff, Option.pure_def,
      Option.some.injEq] at h
    obtain ⟨first, hfirst, others, hothers, rfl⟩ := h
    rcases List.mem_cons.mp hb with rfl | hb
    · exact ⟨a, List.mem_cons_self, hfirst⟩
    · obtain ⟨a', ha', hread⟩ := ih hothers hb
      exact ⟨a', List.mem_cons_of_mem a ha', hread⟩

theorem exists_of_mem_list? {α : Type} {decode : Json → Option α} {j : Json} {as : List α}
    (h : list? decode j = some as) {a : α} (ha : a ∈ as) : ∃ item, decode item = some a := by
  cases j with
  | array items =>
    obtain ⟨item, -, hitem⟩ := exists_of_mem_mapM_some h ha
    exact ⟨item, hitem⟩
  | _ => contradiction

/-- What is there was read from a value. -/
theorem exists_of_mem_nullable? {α : Type} {decode : Json → Option α} {j : Json} {o : Option α}
    (h : nullable? decode j = some o) {a : α} (ha : a ∈ o) : ∃ item, decode item = some a := by
  unfold nullable? at h
  split at h
  · obtain rfl := Option.some_inj.mp h
    contradiction
  · obtain ⟨b, hb, rfl⟩ := Option.map_eq_some_iff.mp h
    obtain rfl := Option.some_inj.mp ha
    exact ⟨_, hb⟩

namespace Record

variable {α : Type} {r : Record} {name : String} {decode : Json → Option α}

theorem exists_of_field? {a : α} (h : r.field? name decode = some a) :
    ∃ item, decode item = some a := by
  obtain ⟨item, -, hitem⟩ := Option.bind_eq_some_iff.mp h
  exact ⟨item, hitem⟩

/-- A field that differs from its default was read from a value. -/
theorem exists_of_fieldD? {standard a : α} (h : r.fieldD? name decode standard = some a)
    (hne : a ≠ standard) : ∃ item, decode item = some a := by
  unfold fieldD? at h
  split at h
  · exact absurd (Option.some_inj.mp h).symm hne
  · exact ⟨_, h⟩

theorem exists_of_mem_listD? {as : List α} (h : r.listD? name decode = some as) {a : α}
    (ha : a ∈ as) : ∃ item, decode item = some a := by
  obtain ⟨j, hj⟩ := exists_of_fieldD? h (List.ne_nil_of_mem ha)
  exact exists_of_mem_list? hj ha

theorem exists_of_mem_optional? {o : Option α} (h : r.optional? name decode = some o) {a : α}
    (ha : a ∈ o) : ∃ item, decode item = some a := by
  have hne : o ≠ none := by
    intro hnone
    rw [hnone] at ha
    contradiction
  obtain ⟨j, hj⟩ := exists_of_fieldD? h hne
  exact exists_of_mem_nullable? hj ha

end Record

end Json

/-! ## §2. Code. -/

/-- What holds of every constant that can be read. -/
def EverRead (kind : Constant → Prop) : Prop := ∀ j c, Constant.ofJson? j = some c → kind c

section

variable {kind : Constant → Prop} (hkind : EverRead kind)

theorem Instruction.constant?_of_plain? {name : String} {i : Instruction}
    (h : plain? name = some i) : i.constant? = none := by
  unfold plain? at h
  split at h
  case h_7 => contradiction
  all_goals
    obtain rfl := Option.some_inj.mp h
    rfl

include hkind

theorem Instruction.pushesOnly_of_withOperands? {name : String} {j : Json} {i : Instruction}
    (h : withOperands? name j = some i) : i.PushesOnly kind := by
  intro c hc
  obtain rfl : i = .push c := by
    cases i with
    | push constant => exact congrArg push (Option.some_inj.mp hc)
    | _ => contradiction
  -- only one name stands for an instruction that pushes a constant
  unfold withOperands? at h
  split at h
  case h_1 =>
    simp only [Option.bind_eq_bind, Option.bind_eq_some_iff, Option.pure_def, Option.some.injEq,
      push.injEq] at h
    obtain ⟨c', hread, rfl⟩ := h
    exact hkind j c' hread
  all_goals simp [Option.bind_eq_some_iff] at h

/-- **The constant of an instruction that is read was read.** -/
theorem Instruction.pushesOnly_of_ofJson? {j : Json} {i : Instruction} (h : ofJson? j = some i) :
    i.PushesOnly kind := by
  unfold ofJson? at h
  obtain ⟨choice, -, h⟩ := Option.bind_eq_some_iff.mp h
  split at h
  · exact pushesOnly_silent (constant?_of_plain? h)
  · exact pushesOnly_silent (constant?_of_plain? h)
  · exact pushesOnly_of_withOperands? hkind h

theorem Entry.pushesOnly_of_ofJson? {j : Json} {e : Entry} (h : ofJson? j = some e) :
    e.instruction.PushesOnly kind := by
  unfold ofJson? at h
  simp only [Option.bind_eq_bind, Option.bind_eq_some_iff, Option.pure_def, Option.some.injEq] at h
  obtain ⟨r, -, label, -, origin, -, i, hi, rfl⟩ := h
  obtain ⟨item, hitem⟩ := Record.exists_of_field? hi
  exact Instruction.pushesOnly_of_ofJson? hkind hitem

/-- **The constants of a body that is read were read.** -/
theorem Body.pushesOnly_of_ofJson? {j : Json} {b : Body} (h : ofJson? j = some b) :
    b.PushesOnly kind := by
  unfold ofJson? at h
  simp only [Option.bind_eq_bind, Option.bind_eq_some_iff, Option.pure_def, Option.some.injEq] at h
  obtain ⟨r, -, entries, hentries, locals, -, rfl⟩ := h
  intro e he
  obtain ⟨list, hlist⟩ := Record.exists_of_field? hentries
  obtain ⟨item, hitem⟩ := exists_of_mem_list? hlist he
  exact Entry.pushesOnly_of_ofJson? hkind hitem

/-! ## §3. Classes and programs. -/

theorem MethodDef.pushesOnly_of_ofJson? {j : Json} {m : MethodDef} (h : ofJson? j = some m) :
    ∀ b ∈ m.body, b.PushesOnly kind := by
  unfold ofJson? at h
  simp only [Option.bind_eq_bind, Option.bind_eq_some_iff, Option.pure_def, Option.some.injEq] at h
  obtain ⟨r, -, name, -, descriptor, -, flags, -, body, hbody, rfl⟩ := h
  intro b hb
  obtain ⟨item, hitem⟩ := Record.exists_of_mem_optional? hbody hb
  exact Body.pushesOnly_of_ofJson? hkind hitem

theorem ClassDef.pushesOnly_of_ofJson? {j : Json} {c : ClassDef} (h : ofJson? j = some c) :
    ∀ m ∈ c.methods, ∀ b ∈ m.body, b.PushesOnly kind := by
  unfold ofJson? at h
  simp only [Option.bind_eq_bind, Option.bind_eq_some_iff, Option.pure_def, Option.some.injEq] at h
  obtain ⟨r, -, superclass, -, methods, hmethods, fields, -, rfl⟩ := h
  intro m hm
  obtain ⟨item, hitem⟩ := Record.exists_of_mem_listD? hmethods hm
  exact MethodDef.pushesOnly_of_ofJson? hkind hitem

end

/-- A class of a table is the one put in, or was there before. -/
theorem ClassTable.eq_or_mem_of_mem_put {name : ClassName} {c : ClassDef} {t : ClassTable}
    {x : ClassName × ClassDef} (h : x ∈ put name c t) : x = (name, c) ∨ x ∈ t := by
  induction t with
  | nil => exact .inl (List.mem_singleton.mp h)
  | cons y t ih =>
    unfold put at h
    split at h
    · exact List.mem_cons.mp h
    · split at h
      · exact (List.mem_cons.mp h).imp_right (List.mem_cons_of_mem y)
      · rcases List.mem_cons.mp h with rfl | h
        · exact .inr List.mem_cons_self
        · exact (ih h).imp_right (List.mem_cons_of_mem y)

namespace Program

/-- The classes of a program are among those that it is made of. -/
theorem mem_of_mem_ofList {classes : List (ClassName × ClassDef)} {x : ClassName × ClassDef}
    (h : x ∈ (ofList classes).classes) : x ∈ classes := by
  have hfold : ∀ (rest : List (ClassName × ClassDef)) (p : Program),
      x ∈ (rest.foldl (fun p (y : ClassName × ClassDef) => p.putClass y.1 y.2) p).classes →
        x ∈ p.classes ∨ x ∈ rest := by
    intro rest
    induction rest with
    | nil => exact fun p hx => .inl hx
    | cons y rest ih =>
      intro p hx
      rcases ih (p.putClass y.1 y.2) hx with hput | hrest
      · rcases ClassTable.eq_or_mem_of_mem_put hput with rfl | hold
        · exact .inr List.mem_cons_self
        · exact .inl hold
      · exact .inr (List.mem_cons_of_mem y hrest)
  exact (hfold classes empty h).resolve_left (List.not_mem_nil)

variable {kind : Constant → Prop}

/-- **The constants of a program that is read were read.** -/
theorem pushesOnly_of_ofJson? (hkind : EverRead kind) {j : Json} {p : Program}
    (h : ofJson? j = some p) : p.PushesOnly kind := by
  cases j with
  | object members =>
    obtain ⟨classes, hclasses, rfl⟩ := Option.map_eq_some_iff.mp h
    refine forall_bodies_iff.mpr fun x hx => ?_
    obtain ⟨member, -, hmember⟩ := exists_of_mem_mapM_some hclasses (mem_of_mem_ofList hx)
    unfold ofMember? at hmember
    simp only [Option.bind_eq_bind, Option.bind_eq_some_iff, Option.pure_def,
      Option.some.injEq] at hmember
    obtain ⟨name, -, c, hc, rfl⟩ := hmember
    exact ClassDef.pushesOnly_of_ofJson? hkind hc
  | _ => contradiction

/-! ## §4. Support classes. -/

/-- A class that is added has no methods. -/
theorem PushesOnly.addClass {p : Program} (h : p.PushesOnly kind) (name : ClassName)
    (superclass : Option ClassName) : (p.addClass name superclass).PushesOnly kind := by
  unfold Program.addClass
  split
  · exact h
  · refine forall_bodies_iff.mpr fun x hx => ?_
    rcases ClassTable.eq_or_mem_of_mem_put hx with rfl | hold
    · exact List.forall_mem_nil _
    · exact forall_bodies_iff.mp h x hold

/-- A support member that is declared has no body. -/
theorem PushesOnly.addSupportMember {p : Program} (h : p.PushesOnly kind) (m : MethodRef) :
    (p.addSupportMember m).PushesOnly kind := by
  unfold Program.addSupportMember
  cases hadd : p.addMethod m .exposed none with
  | error e => exact h
  | ok p' =>
    obtain ⟨-, -, rfl⟩ := addMethod_eq_ok_iff.mp hadd
    refine forall_bodies_iff.mpr fun x hx => ?_
    obtain ⟨⟨n, c⟩, hold, rfl⟩ := List.mem_map.mp hx
    have hmethods := forall_bodies_iff.mp h (n, c) hold
    dsimp only
    split
    · refine List.forall_mem_append.mpr ⟨hmethods, List.forall_mem_singleton.mpr fun b hb => ?_⟩
      contradiction
    · exact hmethods

/-- **Support classes bring no constants.** -/
theorem PushesOnly.addSupport {p : Program} (h : p.PushesOnly kind) :
    p.addSupport.PushesOnly kind := by
  have hmembers : ∀ (members : List MethodRef) (p : Program), p.PushesOnly kind →
      (members.foldl Program.addSupportMember p).PushesOnly kind := by
    intro members
    induction members with
    | nil => exact fun p hp => hp
    | cons m members ih => exact fun p hp => ih _ (hp.addSupportMember m)
  unfold Program.addSupport
  apply hmembers
  exact (((h.addClass .object none).addClass .string (some .object)).addClass .callbackInfo
    (some .object)).addClass .callbackInfoReturn (some .callbackInfo)

end Program

namespace Manifest

variable {kind : Constant → Prop} {m : Manifest}

theorem pushesOnly_of_ofJson? (hkind : EverRead kind) {j : Json} (h : ofJson? j = some m) :
    m.program.PushesOnly kind := by
  unfold ofJson? at h
  simp only [Option.bind_eq_bind, Option.bind_eq_some_iff, Option.pure_def, Option.some.injEq] at h
  obtain ⟨r, -, program, hprogram, mixins, -, rfl⟩ := h
  obtain ⟨item, hitem⟩ := Record.exists_of_field? hprogram
  exact Program.pushesOnly_of_ofJson? hkind hitem

/-- A manifest that is read was decoded, and its program was given the support classes. -/
theorem exists_ofJson?_of_parse? {text : String} (h : parse? text = some m) :
    ∃ j written, ofJson? j = some written ∧ m.program = written.program.addSupport := by
  unfold parse? at h
  simp only [Option.bind_eq_bind, Option.bind_eq_some_iff, Option.pure_def, Option.some.injEq] at h
  obtain ⟨j, -, written, hwritten, heq⟩ := h
  refine ⟨j, written, hwritten, ?_⟩
  rw [← heq]

/-- **The constants of the program of a manifest were read.** -/
theorem pushesOnly_of_parse? (hkind : EverRead kind) {text : String} (h : parse? text = some m) :
    m.program.PushesOnly kind := by
  obtain ⟨j, written, hwritten, hprogram⟩ := exists_ofJson?_of_parse? h
  rw [hprogram]
  exact Program.PushesOnly.addSupport (pushesOnly_of_ofJson? hkind hwritten)

end Manifest

end PatchWeaver

/-
  PatchWeaver.Proofs.CanonicalForms
  ─────────────────────────────────
  **EVERY DESCRIPTOR HAS ONE WRITTEN FORM.**

  A reader takes the written form of a value off the front of a text, and
  nothing else does it take:

      read cs = ok (v, rest)   ↔   cs = written form of v ++ rest

  So no text has two readings, with any rest, and the texts that are read
  as a whole are exactly the rendered values.

  What follows a written form may be anything, even a letter that stands
  for a type: a base type ends with its letter, the objects of a class with
  the first `;`, which no class name contains, an array with its element,
  and a method with its result.

  Main results:
    * `FieldType.read_eq_ok_iff`, `MethodDescriptor.read_eq_ok_iff` — what
      the readers accept.
    * `descriptors_read_as_written` — reading and writing are inverses.
-/
import PatchWeaver.Descriptor.Reader
import PatchWeaver.Proofs.Outcome

namespace PatchWeaver

/-! ## §1. Class names. -/

/-- No class name contains the character that ends its written form. -/
theorem ClassName.semicolon_not_mem (n : ClassName) : ';' ∉ n.text.toList := by
  intro hmem
  have hfree : ';' ∉ reservedChars := n.not_reserved_of_mem hmem (by decide)
  exact hfree (by decide)

/-- A text that goes on behind its first `;` is cut there. -/
theorem span_semicolon {front : List Char} (rest : List Char) (h : ';' ∉ front) :
    (front ++ ';' :: rest).takeWhile (· != ';') = front
      ∧ (front ++ ';' :: rest).dropWhile (· != ';') = ';' :: rest := by
  have hfront : ∀ c ∈ front, (c != ';') = true := by
    intro c hc
    simpa using fun heq : c = ';' => h (heq ▸ hc)
  constructor
  · rw [List.takeWhile_append_of_pos hfront, List.takeWhile_cons_of_neg (by decide),
      List.append_nil]
  · rw [List.dropWhile_append_of_pos hfront, List.dropWhile_cons_of_neg (by decide)]

/-- **A class name reaches up to the first `;`.** -/
theorem ClassName.readBody_eq_ok_iff {cs rest : List Char} {n : ClassName} :
    ClassName.readBody cs = .ok (n, rest) ↔ cs = n.text.toList ++ ';' :: rest := by
  constructor
  · intro h
    unfold readBody at h
    split at h
    · contradiction
    · next c rest' hdrop =>
      -- what is left where the reading stops starts with the character that stops it
      have hc : c = ';' := by
        have hhead := List.head_dropWhile_not (· != ';') (l := cs) (by simp [hdrop])
        simpa [hdrop] using hhead
      subst hc
      split at h
      · next name hname =>
        obtain ⟨rfl, rfl⟩ := Prod.mk.inj (Except.ok.inj h)
        have htext := congrArg String.toList (ClassName.text_of_ofString hname)
        rw [String.toList_ofList] at htext
        rw [htext, ← hdrop, List.takeWhile_append_dropWhile]
      · contradiction
  · rintro rfl
    -- a name has no `;`, so the reading does not stop before its end
    obtain ⟨htake, hdrop⟩ := span_semicolon rest n.semicolon_not_mem
    unfold readBody
    simp only [hdrop, htake, String.ofList_toList, n.ofString_text]

theorem ClassName.read_eq_ok_iff {cs rest : List Char} {n : ClassName} :
    ClassName.read cs = .ok (n, rest) ↔ cs = n.descriptor ++ rest := by
  have hwritten : n.descriptor ++ rest = 'L' :: (n.text.toList ++ ';' :: rest) := by
    simp [descriptor]
  rw [hwritten]
  constructor
  · intro h
    unfold read at h
    split at h
    · next cs' => rw [ClassName.readBody_eq_ok_iff.mp h]
    · contradiction
  · rintro rfl
    exact ClassName.readBody_eq_ok_iff.mpr rfl

/-! ## §2. Types. -/

/-- Reading takes the written form of a type off the text. -/
theorem FieldType.eq_of_read {cs rest : List Char} {t : FieldType}
    (h : FieldType.read cs = .ok (t, rest)) : cs = t.chars ++ rest := by
  -- the cases are those of the reader: an array, a class and a base type, each with its failure
  induction cs using FieldType.read.induct generalizing t rest with
  | case1 => contradiction
  | case2 cs element rest' hread ih =>
    rw [FieldType.read, hread] at h
    obtain ⟨rfl, rfl⟩ := Prod.mk.inj (Except.ok.inj h)
    exact congrArg _ (ih hread)
  | case3 cs error hread _ =>
    rw [FieldType.read, hread] at h
    contradiction
  | case4 cs name rest' hread =>
    rw [FieldType.read, hread] at h
    obtain ⟨rfl, rfl⟩ := Prod.mk.inj (Except.ok.inj h)
    exact ClassName.read_eq_ok_iff.mp hread
  | case5 cs error hread =>
    rw [FieldType.read, hread] at h
    contradiction
  | case6 c cs harray hobject type htype =>
    rw [FieldType.read, htype] at h
    · obtain ⟨rfl, rfl⟩ := Prod.mk.inj (Except.ok.inj h)
      rw [← BaseType.letter_of_ofLetter? htype]
      rfl
    · exact harray
    · exact hobject
  | case7 c cs harray hobject htype =>
    rw [FieldType.read, htype] at h
    · contradiction
    · exact harray
    · exact hobject

/-- A letter of a base type starts no other type. -/
theorem BaseType.letter_ne (b : BaseType) : b.letter ≠ '[' ∧ b.letter ≠ 'L' := by
  cases b <;> decide

/-- The written form of a type is read, whatever follows. -/
theorem FieldType.read_chars (t : FieldType) (rest : List Char) :
    FieldType.read (t.chars ++ rest) = .ok (t, rest) := by
  induction t with
  | base b =>
    -- the letter of a base type opens neither an array nor a class
    have hletter := b.letter_ne
    show FieldType.read (b.letter :: rest) = _
    rw [FieldType.read, BaseType.ofLetter?_letter]
    · exact hletter.1
    · exact hletter.2
  | object n =>
    show FieldType.read ('L' :: n.text.toList ++ [';'] ++ rest) = _
    rw [List.cons_append, List.cons_append, FieldType.read,
      ClassName.readBody_eq_ok_iff.mpr (List.append_assoc _ _ _)]
    rfl
  | array element ih =>
    show FieldType.read ('[' :: (element.chars ++ rest)) = _
    rw [FieldType.read, ih]

/-- **A type is read exactly from its written form.** -/
theorem FieldType.read_eq_ok_iff {cs rest : List Char} {t : FieldType} :
    FieldType.read cs = .ok (t, rest) ↔ cs = t.chars ++ rest :=
  ⟨FieldType.eq_of_read, fun h => h ▸ t.read_chars rest⟩

/-- **A reference type is read exactly from its written form**, which no base type has. -/
theorem RefType.read_eq_ok_iff {cs rest : List Char} {t : RefType} :
    RefType.read cs = .ok (t, rest) ↔ cs = t.chars ++ rest := by
  constructor
  · intro h
    unfold RefType.read at h
    split at h
    · contradiction
    · split at h
      · next element rest' hread =>
        obtain ⟨rfl, rfl⟩ := Prod.mk.inj (Except.ok.inj h)
        exact congrArg _ (FieldType.eq_of_read hread)
      · contradiction
    · split at h
      · next name rest' hread =>
        obtain ⟨rfl, rfl⟩ := Prod.mk.inj (Except.ok.inj h)
        exact ClassName.read_eq_ok_iff.mp hread
      · contradiction
    · contradiction
  · rintro rfl
    -- the first character tells the two forms apart
    cases t with
    | object n =>
      have hread : ClassName.readBody (n.text.toList ++ ';' :: rest) = .ok (n, rest) :=
        ClassName.readBody_eq_ok_iff.mpr rfl
      simp [RefType.chars, RefType.toFieldType, FieldType.chars, ClassName.descriptor, RefType.read,
        hread]
    | array element =>
      simp [RefType.chars, RefType.toFieldType, FieldType.chars, RefType.read,
        FieldType.read_chars]

/-! ## §3. Methods. -/

/-- No written form of a type starts with what ends the parameters or stands for no result. -/
theorem FieldType.exists_chars_eq (t : FieldType) :
    ∃ c cs, t.chars = c :: cs ∧ c ≠ ')' ∧ c ≠ 'V' := by
  cases t with
  | base b => exact ⟨b.letter, [], rfl, by cases b <;> decide⟩
  | object n => exact ⟨'L', n.text.toList ++ [';'], rfl, by decide⟩
  | array element => exact ⟨'[', element.chars, rfl, by decide⟩

/-- Where the parameters are not over, the next one is read first. -/
theorem readParameters_of_read {cs rest : List Char} {t : FieldType}
    (h : FieldType.read cs = .ok (t, rest)) :
    readParameters cs = (readParameters rest).map fun (types, rest) => (t :: types, rest) := by
  -- a type starts with a character that closes no parameter list
  obtain ⟨c, cs', hchars, hclosing, -⟩ := t.exists_chars_eq
  have hcs : cs = c :: (cs' ++ rest) := by rw [FieldType.eq_of_read h, hchars, List.cons_append]
  rw [readParameters]
  · split
    · next error hread =>
      rw [h] at hread
      contradiction
    · next type rest' hread =>
      rw [h] at hread
      obtain ⟨rfl, rfl⟩ := Prod.mk.inj (Except.ok.inj hread)
      cases readParameters rest <;> rfl
  · rintro rfl
    contradiction
  · rintro rest' rfl
    exact hclosing (List.cons.inj hcs).1.symm

/-- Reading takes the written forms of parameters off the text. -/
theorem eq_of_readParameters {cs rest : List Char} {types : List FieldType}
    (h : readParameters cs = .ok (types, rest)) : cs = types.flatMap FieldType.chars ++ rest := by
  -- the list is over at the end of the text or at a `)`; otherwise a type is read first
  induction cs using readParameters.induct generalizing types rest with
  | case1 =>
    rw [readParameters] at h
    obtain ⟨rfl, rfl⟩ := Prod.mk.inj (Except.ok.inj h)
    rfl
  | case2 cs =>
    rw [readParameters] at h
    obtain ⟨rfl, rfl⟩ := Prod.mk.inj (Except.ok.inj h)
    rfl
  | case3 cs hnil hclosing error hread =>
    rw [readParameters] at h
    · split at h
      · contradiction
      · next hread' =>
        rw [hread] at hread'
        contradiction
    · exact hnil
    · exact hclosing
  | case4 cs _ _ type rest' hread error hrest _ =>
    rw [readParameters_of_read hread, hrest] at h
    contradiction
  | case5 cs _ _ type rest' hread types' rest'' hrest ih =>
    rw [readParameters_of_read hread, hrest] at h
    obtain ⟨rfl, rfl⟩ := Prod.mk.inj (Except.ok.inj h)
    rw [FieldType.eq_of_read hread, ih hrest, List.flatMap_cons, List.append_assoc]

/-- Parameters are read up to the parenthesis that closes them. -/
theorem readParameters_chars (types : List FieldType) (rest : List Char) :
    readParameters (types.flatMap FieldType.chars ++ ')' :: rest) = .ok (types, ')' :: rest) := by
  induction types with
  | nil => rw [List.flatMap_nil, List.nil_append, readParameters]
  | cons t types ih =>
    rw [List.flatMap_cons, List.append_assoc, readParameters_of_read (t.read_chars _), ih]
    rfl

/-- Written form of a result type. -/
def resultChars : Option FieldType → List Char
  | none => ['V']
  | some type => type.chars

theorem readResult_eq_ok_iff {cs rest : List Char} {returns : Option FieldType} :
    readResult cs = .ok (returns, rest) ↔ cs = resultChars returns ++ rest := by
  constructor
  · intro h
    unfold readResult at h
    split at h
    · obtain ⟨rfl, rfl⟩ := Prod.mk.inj (Except.ok.inj h)
      rfl
    · split at h
      · next type rest' hread =>
        obtain ⟨rfl, rfl⟩ := Prod.mk.inj (Except.ok.inj h)
        exact FieldType.eq_of_read hread
      · contradiction
  · rintro rfl
    cases returns with
    | none => rfl
    | some t =>
      -- no type starts as the sign for no result does
      obtain ⟨c, cs, hchars, -, hvoid⟩ := t.exists_chars_eq
      have hread := t.read_chars rest
      rw [hchars] at hread
      show readResult (t.chars ++ rest) = _
      rw [hchars, List.cons_append, readResult, ← List.cons_append, hread]
      rintro rest' heq
      exact hvoid (List.cons.inj heq).1

/-- The written form of a method: its parameters in parentheses, then its result. -/
theorem MethodDescriptor.chars_append (d : MethodDescriptor) (rest : List Char) :
    d.chars ++ rest
      = '(' :: (d.parameters.flatMap FieldType.chars
        ++ ')' :: (resultChars d.returns ++ rest)) := by
  unfold chars resultChars
  cases d.returns <;> simp

/-- **A method descriptor is read exactly from its written form.** -/
theorem MethodDescriptor.read_eq_ok_iff {cs rest : List Char} {d : MethodDescriptor} :
    MethodDescriptor.read cs = .ok (d, rest) ↔ cs = d.chars ++ rest := by
  rw [MethodDescriptor.chars_append]
  constructor
  · intro h
    unfold MethodDescriptor.read at h
    split at h
    · next cs =>
      -- the parameters, the `)` behind them and the result take the text off piece by piece
      obtain ⟨⟨parameters, behind⟩, hparameters, h⟩ := bind_eq_ok_iff.mp h
      dsimp only at h
      split at h
      · next behind =>
        obtain ⟨⟨returns, rest'⟩, hresult, h⟩ := bind_eq_ok_iff.mp h
        obtain ⟨rfl, rfl⟩ := Prod.mk.inj (Except.ok.inj h)
        rw [eq_of_readParameters hparameters, readResult_eq_ok_iff.mp hresult]
      · contradiction
    · contradiction
  · rintro rfl
    have hresult := readResult_eq_ok_iff.mpr (rfl : resultChars d.returns ++ rest = _)
    simp [MethodDescriptor.read, readParameters_chars, hresult, bind, Except.bind]

/-! ## §4. Reading and writing. -/

/-- Reading and writing are inverses of each other. -/
structure Inverses {α : Type} (read : List Char → Reading α) (chars : α → List Char)
    (parse : String → Except DescriptorError α) (render : α → String) : Prop where
  /-- A value is read from its written form and from no other, and whatever follows is left. -/
  read_iff : ∀ cs v rest, read cs = .ok (v, rest) ↔ cs = chars v ++ rest
  /-- A whole text is read as a value exactly if it is that value rendered. -/
  parse_iff : ∀ s v, parse s = .ok v ↔ s = render v
  /-- Every accepted text is what its value is rendered as. -/
  canonical : ∀ s v, parse s = .ok v → render v = s
  /-- Every rendered value is accepted. -/
  accepted : ∀ v, parse (render v) = .ok v
  /-- No text has two readings. -/
  unambiguous : ∀ v v' rest rest', chars v ++ rest = chars v' ++ rest' → v = v' ∧ rest = rest'

/-- A whole text is read if nothing is left over. -/
theorem readWhole_eq_ok_iff {α : Type} {reader : List Char → Reading α} {text : String} {v : α} :
    readWhole reader text = .ok v ↔ reader text.toList = .ok (v, []) := by
  unfold readWhole
  rw [bind_eq_ok_iff]
  constructor
  · rintro ⟨⟨value, rest⟩, hread, hwhole⟩
    cases rest with
    | nil =>
      obtain rfl := Except.ok.inj hwhole
      exact hread
    | cons c rest => contradiction
  · intro hread
    exact ⟨(v, []), hread, rfl⟩

/-- What a reader accepts determines all the rest. -/
theorem Inverses.of_read_iff {α : Type} {read : List Char → Reading α} {chars : α → List Char}
    (h : ∀ {cs rest v}, read cs = .ok (v, rest) ↔ cs = chars v ++ rest) :
    Inverses read chars (readWhole read) (String.ofList ∘ chars) := by
  have hparse : ∀ s v, readWhole read s = .ok v ↔ s = String.ofList (chars v) := by
    intro s v
    rw [readWhole_eq_ok_iff, h, List.append_nil, ← String.toList_inj, String.toList_ofList]
  refine ⟨fun _ _ _ => h, hparse, fun s v hs => ((hparse s v).mp hs).symm,
    fun v => (hparse _ v).mpr rfl, fun v v' rest rest' heq => ?_⟩
  -- the same text is read as both values
  have hread := h.mpr heq
  rw [h.mpr rfl] at hread
  obtain ⟨rfl, rfl⟩ := Prod.mk.inj (Except.ok.inj hread)
  exact ⟨rfl, rfl⟩

/-- Written form of the objects of a class, as a text. -/
def ClassName.renderDescriptor (n : ClassName) : String := String.ofList n.descriptor

/-- **Descriptors are read as they are written**: those of classes, of reference types, of types and
of methods, in front of any other text and as a whole. -/
theorem descriptors_read_as_written :
    Inverses ClassName.read ClassName.descriptor ClassName.parseDescriptor
        ClassName.renderDescriptor
      ∧ Inverses RefType.read RefType.chars RefType.parse RefType.render
      ∧ Inverses FieldType.read FieldType.chars FieldType.parse FieldType.render
      ∧ Inverses MethodDescriptor.read MethodDescriptor.chars MethodDescriptor.parse
        MethodDescriptor.render :=
  ⟨.of_read_iff ClassName.read_eq_ok_iff, .of_read_iff RefType.read_eq_ok_iff,
    .of_read_iff FieldType.read_eq_ok_iff, .of_read_iff MethodDescriptor.read_eq_ok_iff⟩

end PatchWeaver

/-
  PatchWeaver.Descriptor.Reader
  ─────────────────────────────
  **READING DESCRIPTORS.**

  Each reader takes one written form off the front of a list of characters
  and returns what it stands for together with the characters that follow.
  `parse` reads a whole text and refuses anything left over.

  A type takes at least one character (`FieldType.read_length`), which is
  why the list of a method's parameters ends.
-/
import PatchWeaver.Descriptor.Basic

namespace PatchWeaver

/-! ## §1. What can go wrong. -/

/-- Why a text is not a descriptor. -/
inductive DescriptorError where
  | badBase (found : Char)
  | missingBase
  /-- An object type does not start with `L`. -/
  | notAnObject
  /-- An object type ends before its `;`; the characters read so far. -/
  | unterminatedObject (read : List Char)
  | badClass (error : NameError)
  | badReference (found : Char)
  | badField (found : Char)
  | missingField
  | missingOpening
  | missingClosing
  | leftover (found : Char)
  deriving Repr, DecidableEq

namespace DescriptorError

/-- The wording of a descriptor error. -/
def message : DescriptorError → String
  | .badBase found => s!"Invalid base type character '{found}'"
  | .missingBase => "Missing base type character"
  | .notAnObject => "Expected object type to start with `L`"
  | .unterminatedObject read => "Missing terminator for 'L" ++ String.ofList read ++ "'"
  | .badClass error => error.message
  | .badReference found => s!"Invalid reference type character '{found}'"
  | .badField found => s!"Invalid field type character '{found}'"
  | .missingField => "Missing field type"
  | .missingOpening => "Expected '(' for method"
  | .missingClosing => "Expected ')' for method"
  | .leftover found => s!"Unexpected leftover input '{found}'"

/-- Whether the text ended too early, rather than holding something wrong. -/
def isTruncated : DescriptorError → Bool
  | .missingBase | .unterminatedObject _ | .missingField | .missingClosing => true
  | _ => false

end DescriptorError

/-- What a reader returns: the value and the unread characters. -/
abbrev Reading (α : Type) : Type := Except DescriptorError (α × List Char)

/-! ## §2. Readers. -/

/-- Read a base type. -/
def BaseType.read : List Char → Reading BaseType
  | [] => .error .missingBase
  | c :: rest =>
    match BaseType.ofLetter? c with
    | some type => .ok (type, rest)
    | none => .error (.badBase c)

/-- Read a class name up to its `;`. The opening `L` has been read. -/
def ClassName.readBody (cs : List Char) : Reading ClassName :=
  match cs.dropWhile (· != ';') with
  | [] => .error (.unterminatedObject cs)
  | _ :: rest =>
    match ClassName.ofString (String.ofList (cs.takeWhile (· != ';'))) with
    | .ok name => .ok (name, rest)
    | .error error => .error (.badClass error)

/-- Read the written form of the objects of a class. -/
def ClassName.read : List Char → Reading ClassName
  | 'L' :: rest => ClassName.readBody rest
  | _ => .error .notAnObject

/-- Read a type. -/
def FieldType.read : List Char → Reading FieldType
  | [] => .error .missingField
  | '[' :: rest =>
    match FieldType.read rest with
    | .ok (element, rest) => .ok (.array element, rest)
    | .error error => .error error
  | 'L' :: rest =>
    match ClassName.readBody rest with
    | .ok (name, rest) => .ok (.object name, rest)
    | .error error => .error error
  | c :: rest =>
    match BaseType.ofLetter? c with
    | some type => .ok (.base type, rest)
    | none => .error (.badField c)

/-- Read a reference type. -/
def RefType.read : List Char → Reading RefType
  | [] => .error .missingField
  | '[' :: rest =>
    match FieldType.read rest with
    | .ok (element, rest) => .ok (.array element, rest)
    | .error error => .error error
  | 'L' :: rest =>
    match ClassName.readBody rest with
    | .ok (name, rest) => .ok (.object name, rest)
    | .error error => .error error
  | c :: _ => .error (.badReference c)

/-- A class name takes its `;` off the text. -/
theorem ClassName.readBody_length {cs rest : List Char} {n : ClassName}
    (h : ClassName.readBody cs = .ok (n, rest)) : rest.length < cs.length := by
  unfold ClassName.readBody at h
  have hlen : (cs.dropWhile (· != ';')).length ≤ cs.length :=
    (List.dropWhile_suffix _).length_le
  split at h
  · simp at h
  · next heq =>
    split at h
    · injection h with h
      injection h with _ h
      rw [heq, List.length_cons] at hlen
      rw [← h]
      omega
    · simp at h

/-- A type takes at least one character off the text. -/
theorem FieldType.read_length : ∀ {cs rest : List Char} {t : FieldType},
    FieldType.read cs = .ok (t, rest) → rest.length < cs.length := by
  intro cs
  induction cs with
  | nil => intro rest t h; simp [FieldType.read] at h
  | cons c cs ih =>
    intro rest t h
    rw [FieldType.read.eq_def] at h
    split at h
    · contradiction
    · next heq =>
      injection heq with _ heq
      subst heq
      split at h
      · next hr =>
        injection h with h
        injection h with _ h
        subst h
        exact Nat.lt_trans (ih hr) (Nat.lt_succ_self _)
      · contradiction
    · next heq =>
      injection heq with _ heq
      subst heq
      split at h
      · next hr =>
        injection h with h
        injection h with _ h
        subst h
        exact Nat.lt_trans (ClassName.readBody_length hr) (Nat.lt_succ_self _)
      · contradiction
    · next heq =>
      injection heq with _ heq
      subst heq
      split at h
      · injection h with h
        injection h with _ h
        subst h
        exact Nat.lt_succ_self _
      · contradiction

/-- Read parameter types up to the closing parenthesis or the end of the text. -/
def readParameters (cs : List Char) : Reading (List FieldType) :=
  match cs with
  | [] => .ok ([], [])
  | ')' :: rest => .ok ([], ')' :: rest)
  | cs =>
    match _h : FieldType.read cs with
    | .error error => .error error
    | .ok (type, rest) =>
      match readParameters rest with
      | .error error => .error error
      | .ok (types, rest) => .ok (type :: types, rest)
termination_by cs.length
decreasing_by exact FieldType.read_length _h

/-- Read the result type of a method, `V` for none. -/
def readResult : List Char → Reading (Option FieldType)
  | 'V' :: rest => .ok (none, rest)
  | cs =>
    match FieldType.read cs with
    | .ok (type, rest) => .ok (some type, rest)
    | .error error => .error error

/-- Read a method descriptor. -/
def MethodDescriptor.read : List Char → Except DescriptorError (MethodDescriptor × List Char)
  | '(' :: cs => do
    let (parameters, cs) ← readParameters cs
    match cs with
    | ')' :: cs =>
      let (returns, cs) ← readResult cs
      .ok (⟨parameters, returns⟩, cs)
    | _ => .error .missingClosing
  | _ => .error .missingOpening

/-! ## §3. Whole texts. -/

/-- Use a reader on a whole text. -/
def readWhole {α : Type} (reader : List Char → Reading α) (text : String) :
    Except DescriptorError α := do
  match ← reader text.toList with
  | (value, []) => .ok value
  | (_, c :: _) => .error (.leftover c)

/-- A whole text as a base type. -/
def BaseType.parse : String → Except DescriptorError BaseType := readWhole BaseType.read

/-- A whole text as the name of a class in the form that it has in descriptors. -/
def ClassName.parseDescriptor : String → Except DescriptorError ClassName :=
  readWhole ClassName.read

/-- A whole text as a reference type. -/
def RefType.parse : String → Except DescriptorError RefType := readWhole RefType.read

/-- A whole text as a type. -/
def FieldType.parse : String → Except DescriptorError FieldType := readWhole FieldType.read

/-- A whole text as the descriptor of a method. -/
def MethodDescriptor.parse : String → Except DescriptorError MethodDescriptor :=
  readWhole MethodDescriptor.read

end PatchWeaver

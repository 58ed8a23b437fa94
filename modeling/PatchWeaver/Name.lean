/-
  PatchWeaver.Name
  ────────────────
  **NAMES OF MEMBERS AND CLASSES.**

  A member (method or field) is named by one nonempty segment; a class is
  named by a path of such segments, written `pkg/sub/Klass`.  The four
  characters `. ; [ /` are reserved: descriptors and paths need them as
  punctuation.

      MemberName.ofString s = ok n    only for    Segment s
      ClassName.ofString  s = ok n    only for    every segment of s legal

  A name carries the proof that its text is legal, so a name that has been
  built anywhere — read, declared below, or mangled for a copied method —
  is accepted again when its text is read back (`MemberName.ofString_text`,
  `ClassName.ofString_text`).
-/

namespace PatchWeaver

/-! ## §1. Segments. -/

/-- The characters that no segment of a name may contain. -/
def reservedChars : List Char := ['.', ';', '[', '/']

/-- Why a text is not a name. -/
inductive NameError where
  /-- The segment contains a reserved character. -/
  | illegalCharacter (segment : String)
  /-- A segment is empty. -/
  | emptySegment
  /-- The whole class name is empty. -/
  | emptyClass
  deriving Repr, DecidableEq

/-- The wording of a name error. -/
def NameError.message : NameError → String
  | .illegalCharacter segment => s!"Unqualified name '{segment}' contains an illegal character"
  | .emptySegment => "Unqualified name '' is empty"
  | .emptyClass => "Binary name '' is empty"

/-- A legal segment: not empty, and free of reserved characters. -/
def Segment (cs : List Char) : Prop :=
  cs ≠ [] ∧ ∀ c ∈ cs, c ∉ reservedChars

/-- The first thing wrong with a segment: a reserved character is reported before emptiness. -/
def segmentFault? (cs : List Char) : Option NameError :=
  if cs.any (· ∈ reservedChars) then some (.illegalCharacter (String.ofList cs))
  else if cs.isEmpty then some .emptySegment
  else none

/-- A segment has no fault exactly when it is legal. -/
theorem segmentFault?_eq_none_iff {cs : List Char} : segmentFault? cs = none ↔ Segment cs := by
  unfold segmentFault? Segment
  cases cs with
  | nil => simp
  | cons c cs => simp [List.any_eq_true, not_or]

instance (cs : List Char) : Decidable (Segment cs) :=
  decidable_of_iff _ segmentFault?_eq_none_iff

/-- The `/`-separated segments of a text, empty ones included. -/
def segments : List Char → List (List Char)
  | [] => [[]]
  | c :: cs =>
    if c = '/' then [] :: segments cs
    else match segments cs with
      | [] => [[c]]
      | s :: rest => (c :: s) :: rest

/-- A character of a text other than the separator stands in one of its segments. -/
theorem mem_segments_of_mem {c : Char} (hc : c ≠ '/') :
    ∀ {cs : List Char}, c ∈ cs → ∃ s ∈ segments cs, c ∈ s
  | [], h => by simp at h
  | d :: cs, h => by
    unfold segments
    rcases List.mem_cons.mp h with rfl | h
    · rw [if_neg hc]
      split <;> exact ⟨_, List.mem_cons_self, List.mem_cons_self⟩
    · obtain ⟨s, hs, hcs⟩ := mem_segments_of_mem hc h
      split
      · exact ⟨s, List.mem_cons_of_mem _ hs, hcs⟩
      · split
        · next heq => rw [heq] at hs; simp at hs
        · next s' rest heq =>
          rw [heq] at hs
          rcases List.mem_cons.mp hs with rfl | hs
          · exact ⟨_, List.mem_cons_self, List.mem_cons_of_mem _ hcs⟩
          · exact ⟨s, List.mem_cons_of_mem _ hs, hcs⟩

/-! ## §2. Member names. -/

/-- Name of a method or a field. -/
structure MemberName where
  text : String
  legal : Segment text.toList
  deriving Repr, DecidableEq

namespace MemberName

instance : ToString MemberName := ⟨text⟩

/-- Read a member name. -/
def ofString (text : String) : Except NameError MemberName :=
  match h : segmentFault? text.toList with
  | some fault => .error fault
  | none => .ok ⟨text, segmentFault?_eq_none_iff.mp h⟩

/-- The text of a name reads back as that name. -/
theorem ofString_text (n : MemberName) : ofString n.text = .ok n := by
  unfold ofString
  split
  · next h => rw [segmentFault?_eq_none_iff.mpr n.legal] at h; simp at h
  · rfl

/-- Only the text of a name reads as that name. -/
theorem text_of_ofString {s : String} {n : MemberName} (h : ofString s = .ok n) : n.text = s := by
  unfold ofString at h
  split at h
  · simp at h
  · injection h with h; rw [← h]

end MemberName

/-! ## §3. Class names. -/

/-- Name of a class, written `pkg/sub/Klass`. -/
structure ClassName where
  text : String
  legal : ∀ s ∈ segments text.toList, Segment s
  deriving Repr, DecidableEq

namespace ClassName

instance : ToString ClassName := ⟨text⟩

/-- Class names are ordered by their text. -/
instance : LT ClassName := ⟨fun a b => a.text < b.text⟩

instance (a b : ClassName) : Decidable (a < b) :=
  inferInstanceAs (Decidable (a.text < b.text))

/-- All segments of a text are legal if none has a fault. -/
theorem legal_of_no_fault {text : String}
    (h : (segments text.toList).findSome? segmentFault? = none) :
    ∀ s ∈ segments text.toList, Segment s :=
  fun s hs => segmentFault?_eq_none_iff.mp (List.findSome?_eq_none_iff.mp h s hs)

/-- Read a class name; of several faulty segments the first is reported. -/
def ofString (text : String) : Except NameError ClassName :=
  if text.isEmpty then .error .emptyClass
  else match h : (segments text.toList).findSome? segmentFault? with
    | some fault => .error fault
    | none => .ok ⟨text, legal_of_no_fault h⟩

/-- No class has the empty name. -/
theorem text_ne_empty (n : ClassName) : n.text ≠ "" := by
  intro h
  have := n.legal [] (by rw [h]; decide)
  exact this.1 rfl

/-- The text of a class name reads back as that name. -/
theorem ofString_text (n : ClassName) : ofString n.text = .ok n := by
  unfold ofString
  rw [if_neg (by simpa using n.text_ne_empty)]
  split
  · next h =>
    have legal := fun s hs => segmentFault?_eq_none_iff.mpr (n.legal s hs)
    rw [List.findSome?_eq_none_iff.mpr legal] at h
    simp at h
  · rfl

/-- Only the text of a class name reads as that name. -/
theorem text_of_ofString {s : String} {n : ClassName} (h : ofString s = .ok n) : n.text = s := by
  unfold ofString at h
  split at h
  · simp at h
  · split at h
    · simp at h
    · injection h with h; rw [← h]

/-- No character of a class name is `.`, `;` or `[`. -/
theorem not_reserved_of_mem (n : ClassName) {c : Char} (h : c ∈ n.text.toList) (hc : c ≠ '/') :
    c ∉ reservedChars := by
  obtain ⟨s, hs, hcs⟩ := mem_segments_of_mem hc h
  exact (n.legal s hs).2 c hcs

/-! ### The classes that woven code relies on. -/

/-- Root of the class hierarchy. -/
def object : ClassName := ⟨"mixweave/Object", legal_of_no_fault rfl⟩

/-- Class of string constants. -/
def string : ClassName := ⟨"mixweave/String", legal_of_no_fault rfl⟩

/-- Callback handed to patches of a method that returns nothing. -/
def callbackInfo : ClassName := ⟨"mixweave/CallbackInfo", legal_of_no_fault rfl⟩

/-- Callback handed to patches of a method that returns a value. -/
def callbackInfoReturn : ClassName := ⟨"mixweave/CallbackInfoReturn", legal_of_no_fault rfl⟩

end ClassName

/-! ## §4. Mangled names. -/

namespace MemberName

/-- Name of the copy of `method` from class `mixin`: `mixin$pkg_Klass$method`.

Two mixins may share a mangled name (`demo/a_B` and `demo_a/B`), so whoever
declares copies has to look for collisions. -/
def mangled (mixin : ClassName) (method : MemberName) : MemberName where
  text := "mixin$" ++ String.ofList (mixin.text.toList.map fun c => if c = '/' then '_' else c)
    ++ "$" ++ method.text
  legal := by
    constructor
    · simp
    · intro c hc
      simp only [String.toList_append, String.toList_ofList, List.mem_append, List.mem_map] at hc
      have opening : Segment "mixin$".toList := segmentFault?_eq_none_iff.mp rfl
      have separator : Segment "$".toList := segmentFault?_eq_none_iff.mp rfl
      rcases hc with ((hc | ⟨d, hd, rfl⟩) | hc) | hc
      · exact opening.2 c hc
      · split
        · decide
        · next hd' => exact mixin.not_reserved_of_mem hd hd'
      · exact separator.2 c hc
      · exact method.legal.2 c hc

/-- Name of constructors. -/
def init : MemberName := ⟨"<init>", segmentFault?_eq_none_iff.mp rfl⟩

/-- Name of the method that cancels. -/
def cancel : MemberName := ⟨"cancel", segmentFault?_eq_none_iff.mp rfl⟩

/-- Name of the method that gives the value to return. -/
def getReturnValue : MemberName := ⟨"getReturnValue", segmentFault?_eq_none_iff.mp rfl⟩

/-- Name of the method that tells whether there was a cancellation. -/
def isCancelled : MemberName := ⟨"isCancelled", segmentFault?_eq_none_iff.mp rfl⟩

/-- Name of the method that tells whether a patch may cancel. -/
def isCancellable : MemberName := ⟨"isCancellable", segmentFault?_eq_none_iff.mp rfl⟩

end MemberName

end PatchWeaver

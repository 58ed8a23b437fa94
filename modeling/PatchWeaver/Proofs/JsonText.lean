/-
  PatchWeaver.Proofs.JsonText
  ───────────────────────────
  **WRITTEN JSON IS READ BACK.**

  What is written for a value over several lines reads as that value, if the
  value is plain: its numbers are, nothing in it is unreadable, and its
  containers lie in one another no deeper than a reader goes.

  Behind every value, and so behind every number, the text goes on with a
  comma or with a line break, or it ends (`Closed`).  In front of every item
  there are only blanks, which the reader skips.  Each step of a reader takes
  a character at least, so a text is given steps enough by its length.

  Main results:
    * `readChars?_escaped` — strings.
    * `readValue?_prettyAt` — any plain value, in front of any closed text.
    * `parse?_pretty` — a whole text.
-/
import PatchWeaver.Proofs.NumberText

namespace PatchWeaver

namespace Json

/-! ## §1. Plain values. -/

mutual

/-- Whether a value reads back as it is written, when so many levels are left for it. -/
def isPlain (levels : Nat) : Json → Bool
  | .number literal => literal.isPlain
  | .array items => 0 < levels && arePlain (levels - 1) items
  | .object members => 0 < levels && areMembersPlain (levels - 1) members
  | .unreadable => false
  | _ => true

/-- Whether all items read back. -/
def arePlain (levels : Nat) : List Json → Bool
  | [] => true
  | item :: rest => isPlain levels item && arePlain levels rest

/-- Whether the values of all members read back. -/
def areMembersPlain (levels : Nat) : List (String × Json) → Bool
  | [] => true
  | (_, value) :: rest => isPlain levels value && areMembersPlain levels rest

end

/-! ## §2. Strings. -/

theorem hexDigit?_hexDigitChar (n : Nat) : hexDigit? (hexDigitChar n) = some (n % 16) := by
  have hall : ∀ k : Fin 16, hexDigit? (Nat.digitChar k) = some k.val := by decide
  exact hall ⟨n % 16, Nat.mod_lt n (by decide)⟩

/-- Four hexadecimal digits, the first two of which are zero, stand for a control character. -/
theorem readEscapedUnit?_hexDigitChar {c : Char} (hc : c.toNat < 0x20) (rest : List Char) :
    readEscapedUnit? ('0' :: '0' :: hexDigitChar (c.toNat / 16) :: hexDigitChar c.toNat :: rest)
      = some (some c, rest) := by
  have hzero : hexDigit? '0' = some 0 := by decide
  have hunit : ((0 * 16 + 0) * 16 + c.toNat / 16 % 16) * 16 + c.toNat % 16 = c.toNat := by omega
  unfold readEscapedUnit? readUnit?
  simp only [hzero, hexDigit?_hexDigitChar, Option.bind_eq_bind, Option.bind_some, Option.pure_def,
    hunit]
  rw [if_pos (by omega), Char.ofNat_toNat]

/-- **One character of a string** is read in one step. -/
theorem readChars?_escapedChar (c : Char) (steps : Nat) (rest : List Char)
    (read : List (Option Char)) :
    readChars? (steps + 1) ((escapedChar c).toList ++ rest) read
      = readChars? steps rest (some c :: read) := by
  unfold escapedChar
  split
  case h_8 hquote hbackslash _ _ _ _ _ =>
    split
    · next hcontrol =>
      have hescape : readEscape? ('u' :: '0' :: '0' :: hexDigitChar (c.toNat / 16)
          :: hexDigitChar c.toNat :: rest) = some (some c, rest) :=
        readEscapedUnit?_hexDigitChar hcontrol rest
      have hchars : ("\\u00" ++ String.ofList [hexDigitChar (c.toNat / 16),
          hexDigitChar c.toNat]).toList ++ rest
            = '\\' :: 'u' :: '0' :: '0' :: hexDigitChar (c.toNat / 16)
              :: hexDigitChar c.toNat :: rest := by
        simp only [String.toList_append, String.toList_ofList]
        rfl
      rw [hchars, readChars?, if_neg (by decide), if_pos rfl, hescape]
    · next hprintable =>
      rw [Char.toString_eq_singleton, String.toList_singleton]
      show (if c = '"' then _ else if c = '\\' then _ else if c.toNat < 0x20 then _ else _) = _
      rw [if_neg hquote, if_neg hbackslash, if_neg hprintable]
      rfl
  all_goals rfl

/-- The text between the quotes of a string. -/
def escapedChars (cs : List Char) : List Char := cs.flatMap fun c => (escapedChar c).toList

theorem toList_stringText (s : String) :
    (stringText s).toList = '"' :: (escapedChars s.toList ++ ['"']) := by
  have hfold (cs : List Char) (text : String) :
      (cs.foldl (fun text c => text ++ escapedChar c) text).toList
        = text.toList ++ escapedChars cs := by
    induction cs generalizing text with
    | nil => simp [escapedChars]
    | cons c cs ih =>
      rw [List.foldl_cons, ih]
      simp [escapedChars]
  unfold stringText
  rw [String.foldl_eq_foldl_toList, String.toList_append, String.toList_append, hfold]
  rfl

/-- What can be read of every item is read of all of them. -/
theorem mapM_map_of_forall {α β γ : Type} {f : β → Option γ} {g : α → β} {k : α → γ} {as : List α}
    (h : ∀ a ∈ as, f (g a) = some (k a)) : (as.map g).mapM f = some (as.map k) := by
  induction as with
  | nil => rfl
  | cons a as ih =>
    obtain ⟨hfirst, hothers⟩ := List.forall_mem_cons.mp h
    rw [List.map_cons, List.mapM_cons, hfirst, ih hothers]
    rfl

theorem ofChars?_map_some (cs : List Char) : ofChars? (cs.map some) = some (String.ofList cs) := by
  have hall : (cs.map some).mapM id = some (cs.map id) := mapM_map_of_forall fun _ _ => rfl
  unfold ofChars?
  rw [hall, List.map_id]
  rfl

/-- **A string is read up to its closing quote.** -/
theorem readChars?_escaped (cs : List Char) {steps : Nat} (hsteps : cs.length < steps)
    (rest : List Char) (read : List Char) :
    readChars? steps (escapedChars cs ++ '"' :: rest) (read.map some)
      = some (some (String.ofList (read.reverse ++ cs)), rest) := by
  induction cs generalizing steps read with
  | nil =>
    obtain ⟨steps, rfl⟩ : ∃ k, steps = k + 1 := ⟨steps - 1, by simp at hsteps; omega⟩
    show some (ofChars? (read.map some).reverse, rest) = _
    rw [← List.map_reverse, ofChars?_map_some, List.append_nil]
  | cons c cs ih =>
    obtain ⟨steps, rfl⟩ : ∃ k, steps = k + 1 := ⟨steps - 1, by simp at hsteps; omega⟩
    have hchars : escapedChars (c :: cs) ++ '"' :: rest
        = (escapedChar c).toList ++ (escapedChars cs ++ '"' :: rest) := by
      simp [escapedChars]
    have hread := ih (Nat.lt_of_succ_lt_succ hsteps) (c :: read)
    rw [hchars, readChars?_escapedChar, ← List.map_cons, hread, List.reverse_cons,
      List.append_assoc]
    rfl

theorem length_le_escapedChars (cs : List Char) : cs.length ≤ (escapedChars cs).length := by
  have hpos (c : Char) : 0 < (escapedChar c).toList.length := by
    unfold escapedChar
    split
    case h_8 =>
      split
      · simp
      · simp
    all_goals decide
  induction cs with
  | nil => simp [escapedChars]
  | cons c cs ih =>
    have := hpos c
    unfold escapedChars at ih ⊢
    rw [List.flatMap_cons, List.length_append, List.length_cons]
    omega

theorem length_lt_stringText (s : String) : s.length + 1 < (stringText s).toList.length := by
  have := length_le_escapedChars s.toList
  rw [String.length_toList] at this
  rw [toList_stringText, List.length_cons, List.length_append, List.length_singleton]
  omega

/-- A string is read behind its opening quote. -/
theorem readChars?_stringText (s : String) {steps : Nat} (hsteps : s.length < steps)
    (rest : List Char) :
    readChars? steps (escapedChars s.toList ++ '"' :: rest) [] = some (some s, rest) := by
  have hlength : s.toList.length < steps := by rwa [String.length_toList]
  have hread := readChars?_escaped s.toList hlength rest []
  rw [List.reverse_nil, List.nil_append, String.ofList_toList] at hread
  exact hread

/-! ## §3. Blanks. -/

theorem toList_newLine (level : Nat) :
    (newLine level).toList = '\n' :: List.replicate (2 * level) ' ' := by
  simp [newLine]

/-- A line break and its indentation are skipped. -/
theorem skipBlanks_newLine (level : Nat) (cs : List Char) :
    skipBlanks ((newLine level).toList ++ cs) = skipBlanks cs := by
  rw [toList_newLine]
  show List.dropWhile isBlank (List.replicate (2 * level) ' ' ++ cs) = _
  rw [List.dropWhile_append_of_pos]
  · rfl
  · intro c hc
    rw [List.eq_of_mem_replicate hc]
    rfl

/-- The characters that a written value can begin with. -/
def opensValue (c : Char) : Bool := !isBlank c && c != ']' && c != '\x7d'

theorem opensValue_of_opensNumber {c : Char} (h : opensNumber c = true) : opensValue c = true := by
  have hne (d : Char) (hd : opensNumber d = false) : c ≠ d := ne_of_opensNumber h hd
  simp [opensValue, isBlank, hne ' ' (by decide), hne '\n' (by decide), hne '\t' (by decide),
    hne '\r' (by decide), hne ']' (by decide), hne '\x7d' (by decide)]

theorem skipBlanks_of_opensValue {c : Char} (h : opensValue c = true) (cs : List Char) :
    skipBlanks (c :: cs) = c :: cs := by
  have hblank : isBlank c = false := by
    simp only [opensValue, Bool.and_eq_true, Bool.not_eq_true'] at h
    exact h.1.1
  show List.dropWhile isBlank (c :: cs) = _
  rw [List.dropWhile_cons_of_neg (by simp [hblank])]

/-! ## §4. Values. -/

/-- Some items, with what stands between them. -/
def itemChars (level : Nat) (item : Json) (rest : List Json) : List Char :=
  (prettyAt level item).toList ++ (prettyItems level rest).toList

/-- Some members, with what stands between them. -/
def memberChars (level : Nat) (key : String) (value : Json) (rest : List (String × Json)) :
    List Char :=
  (stringText key).toList ++ ':' :: ' ' :: ((prettyAt level value).toList
    ++ (prettyMembers level rest).toList)

theorem toList_prettyAt_array (level : Nat) (item : Json) (rest : List Json) :
    (prettyAt level (.array (item :: rest))).toList
      = '[' :: ((newLine (level + 1)).toList
        ++ (itemChars (level + 1) item rest ++ ((newLine level).toList ++ [']']))) := by
  simp [prettyAt, itemChars]

theorem toList_prettyAt_object (level : Nat) (key : String) (value : Json)
    (rest : List (String × Json)) :
    (prettyAt level (.object ((key, value) :: rest))).toList
      = '\x7b' :: ((newLine (level + 1)).toList
        ++ (memberChars (level + 1) key value rest ++ ((newLine level).toList ++ ['\x7d']))) := by
  simp [prettyAt, memberChars]

theorem toList_prettyItems (level : Nat) (item : Json) (rest : List Json) :
    (prettyItems level (item :: rest)).toList
      = ',' :: ((newLine level).toList ++ itemChars level item rest) := by
  simp [prettyItems, itemChars]

theorem toList_prettyMembers (level : Nat) (key : String) (value : Json)
    (rest : List (String × Json)) :
    (prettyMembers level ((key, value) :: rest)).toList
      = ',' :: ((newLine level).toList ++ memberChars level key value rest) := by
  simp [prettyMembers, memberChars]

theorem prettyAt_number (level : Nat) (literal : NumberLiteral) :
    prettyAt level (.number literal) = numberText literal := by
  simp [prettyAt]

/-- No value begins with a blank or with the end of a container. -/
theorem exists_opensValue {levels : Nat} {j : Json} (h : isPlain levels j = true) (level : Nat) :
    ∃ c cs, (prettyAt level j).toList = c :: cs ∧ opensValue c = true := by
  cases j with
  | null => exact ⟨'n', ['u', 'l', 'l'], by simp [prettyAt], by decide⟩
  | bool value =>
    cases value with
    | true => exact ⟨'t', ['r', 'u', 'e'], by simp [prettyAt], by decide⟩
    | false => exact ⟨'f', ['a', 'l', 's', 'e'], by simp [prettyAt], by decide⟩
  | string value =>
    rw [prettyAt, toList_stringText]
    exact ⟨_, _, rfl, by decide⟩
  | array items =>
    cases items with
    | nil => exact ⟨'[', [']'], by simp [prettyAt], by decide⟩
    | cons item rest =>
      rw [toList_prettyAt_array]
      exact ⟨_, _, rfl, by decide⟩
  | object members =>
    cases members with
    | nil => exact ⟨'\x7b', ['\x7d'], by simp [prettyAt], by decide⟩
    | cons member rest =>
      rw [toList_prettyAt_object]
      exact ⟨_, _, rfl, by decide⟩
  | number literal =>
    obtain ⟨c, cs, hchars, hopens⟩ := exists_opensNumber literal
    rw [prettyAt_number, hchars]
    exact ⟨c, cs, rfl, opensValue_of_opensNumber hopens⟩
  | unreadable => simp [isPlain] at h

theorem skipBlanks_prettyAt {levels : Nat} {j : Json} (h : isPlain levels j = true) (level : Nat)
    (cs : List Char) :
    skipBlanks ((prettyAt level j).toList ++ cs) = (prettyAt level j).toList ++ cs := by
  obtain ⟨c, rest, hchars, hopens⟩ := exists_opensValue h level
  rw [hchars, List.cons_append, skipBlanks_of_opensValue hopens]

/-- What closes a container stands behind blanks. -/
theorem skipBlanks_closing (level : Nat) {c : Char} (hc : isBlank c = false) (cs : List Char) :
    skipBlanks ((newLine level).toList ++ c :: cs) = c :: cs := by
  rw [skipBlanks_newLine]
  exact List.dropWhile_cons_of_neg (by simp [hc])

/-- An item stands behind blanks. -/
theorem skipBlanks_itemChars {levels : Nat} {item : Json} (h : isPlain levels item = true)
    (level : Nat) (items : List Json) (cs : List Char) :
    skipBlanks ((newLine level).toList ++ (itemChars level item items ++ cs))
      = itemChars level item items ++ cs := by
  rw [skipBlanks_newLine]
  unfold itemChars
  rw [List.append_assoc, skipBlanks_prettyAt h]

/-- A member stands behind blanks. -/
theorem skipBlanks_memberChars (level : Nat) (key : String) (value : Json)
    (members : List (String × Json)) (cs : List Char) :
    skipBlanks ((newLine level).toList ++ (memberChars level key value members ++ cs))
      = memberChars level key value members ++ cs := by
  rw [skipBlanks_newLine]
  unfold memberChars
  rw [toList_stringText, List.cons_append, List.cons_append,
    skipBlanks_of_opensValue (by decide)]

theorem arePlain_cons {levels : Nat} {item : Json} {items : List Json} :
    arePlain levels (item :: items) = true
      ↔ isPlain levels item = true ∧ arePlain levels items = true := by
  rw [arePlain, Bool.and_eq_true]

theorem areMembersPlain_cons {levels : Nat} {key : String} {value : Json}
    {members : List (String × Json)} :
    areMembersPlain levels ((key, value) :: members) = true
      ↔ isPlain levels value = true ∧ areMembersPlain levels members = true := by
  rw [areMembersPlain, Bool.and_eq_true]

/-! ### Reading what was written. -/

theorem length_newLine (level : Nat) : (newLine level).toList.length = 2 * level + 1 := by
  rw [toList_newLine, List.length_cons, List.length_replicate]

theorem readValue?_string (s : String) {steps : Nat} (levels : Nat) (rest : List Char)
    (hsteps : (stringText s).toList.length < steps) :
    readValue? steps levels ((stringText s).toList ++ rest) = some (.string s, rest) := by
  rw [toList_stringText, List.length_cons, List.length_append, List.length_singleton] at hsteps
  obtain ⟨steps, rfl⟩ : ∃ k, steps = k + 1 := ⟨steps - 1, by omega⟩
  have hlength := length_le_escapedChars s.toList
  rw [String.length_toList] at hlength
  rw [toList_stringText, List.cons_append, List.append_assoc, List.singleton_append]
  show (readChars? steps (escapedChars s.toList ++ '"' :: rest) []).map _ = _
  rw [readChars?_stringText s (by omega)]
  rfl

/-- An array is read item by item, unless it ends at once. -/
theorem readValue?_array (steps levels : Nat) {c : Char} {cs rest : List Char}
    (hcs : skipBlanks cs = c :: rest) (hc : opensValue c = true) :
    readValue? (steps + 1) levels ('[' :: cs) = readItems? steps levels (c :: rest) [] := by
  rw [readValue?, if_neg (by decide), if_pos rfl, hcs]
  split
  · next heq =>
    rw [(List.cons.inj heq).1] at hc
    contradiction
  · rfl

/-- An object is read member by member, unless it ends at once. -/
theorem readValue?_object (steps levels : Nat) {cs rest : List Char}
    (hcs : skipBlanks cs = '"' :: rest) :
    readValue? (steps + 1) levels ('\x7b' :: cs) = readMembers? steps levels ('"' :: rest) [] := by
  rw [readValue?, if_neg (by decide), if_neg (by decide), if_pos rfl, hcs]
  rfl

theorem readValue?_number {literal : NumberLiteral} (hplain : literal.isPlain = true)
    (steps levels : Nat) {rest : List Char} (hrest : Closed rest) :
    readValue? (steps + 1) levels ((numberText literal).toList ++ rest)
      = some (.number literal, rest) := by
  have hread := readNumber?_numberText hplain hrest
  have hliteral : ofLiteral literal = .number literal := by
    unfold ofLiteral
    rw [if_pos (NumberLiteral.isSome_toDouble?_of_isPlain hplain)]
  obtain ⟨c, cs, hchars, hopens⟩ := exists_opensNumber literal
  have hne (d : Char) (hd : opensNumber d = false) : c ≠ d := ne_of_opensNumber hopens hd
  rw [hchars, List.cons_append] at hread ⊢
  unfold readValue?
  rw [if_neg (hne '"' (by decide)), if_neg (hne '[' (by decide)), if_neg (hne '\x7b' (by decide)),
    if_neg (hne 't' (by decide)), if_neg (hne 'f' (by decide)), if_neg (hne 'n' (by decide)),
    hread, Option.map_some]
  show some (ofLiteral literal, rest) = _
  rw [hliteral]

/-- A value is read as it was written, if it is plain. -/
def Reads (j : Json) : Prop :=
  ∀ (level levels steps : Nat) (rest : List Char), isPlain levels j = true → Closed rest →
    (prettyAt level j).toList.length < steps →
      readValue? steps levels ((prettyAt level j).toList ++ rest) = some (j, rest)

/-- What stands behind an item: another one, or the end of the array. -/
theorem closed_itemEnd (items : List Json) (level closing : Nat) (rest : List Char) :
    Closed ((prettyItems level items).toList ++ ((newLine closing).toList ++ ']' :: rest)) := by
  cases items with
  | nil =>
    rw [toList_newLine]
    exact .line _
  | cons next items =>
    rw [toList_prettyItems]
    exact .comma _

/-- Behind the last item the array is closed. -/
theorem skipBlanks_behind_items (level closing : Nat) (rest : List Char) :
    skipBlanks ((prettyItems level []).toList ++ ((newLine closing).toList ++ ']' :: rest))
      = ']' :: rest := by
  rw [show (prettyItems level []).toList = [] by simp [prettyItems], List.nil_append,
    skipBlanks_closing closing (by decide)]

/-- Behind any other item a comma announces the next one. -/
theorem skipBlanks_before_item (level : Nat) (next : Json) (items : List Json)
    (cs : List Char) :
    skipBlanks ((prettyItems level (next :: items)).toList ++ cs)
      = ',' :: ((newLine level).toList ++ (itemChars level next items ++ cs)) := by
  rw [toList_prettyItems, List.cons_append, skipBlanks_of_opensValue (by decide),
    List.append_assoc]

theorem readItems?_of_last {steps levels : Nat} {cs cs' rest : List Char} {item : Json}
    (hvalue : readValue? steps (levels - 1) cs = some (item, cs'))
    (hend : skipBlanks cs' = ']' :: rest) (read : List Json) :
    readItems? (steps + 1) levels cs read = some (ofItems levels (item :: read).reverse, rest) := by
  unfold readItems?
  simp only [hvalue, Option.bind_eq_bind, Option.bind_some, hend]
  rfl

theorem readItems?_of_comma {steps levels : Nat} {cs cs' rest : List Char} {item : Json}
    (hvalue : readValue? steps (levels - 1) cs = some (item, cs'))
    (hcomma : skipBlanks cs' = ',' :: rest) (read : List Json) :
    readItems? (steps + 1) levels cs read
      = readItems? steps levels (skipBlanks rest) (item :: read) := by
  rw [readItems?]
  simp only [hvalue, Option.bind_eq_bind, Option.bind_some, hcomma]

/-- **Items are read one after the other.** -/
theorem readItems?_itemChars (items : List Json) :
    ∀ (item : Json) (level closing levels steps : Nat) (rest : List Char) (read : List Json),
      (∀ j ∈ item :: items, j.Reads) → arePlain (levels - 1) (item :: items) = true →
      (itemChars level item items).length + 1 < steps →
        readItems? steps levels
            (itemChars level item items ++ ((newLine closing).toList ++ ']' :: rest)) read
          = some (ofItems levels (read.reverse ++ item :: items), rest) := by
  -- over the items behind the first one: what is read so far grows, so it stays general
  induction items with
  | nil =>
    intro item level closing levels steps rest read hreads hplain hsteps
    obtain ⟨steps, rfl⟩ : ∃ k, steps = k + 1 := ⟨steps - 1, by omega⟩
    have hitem : isPlain (levels - 1) item = true := (arePlain_cons.mp hplain).1
    unfold itemChars at hsteps ⊢
    rw [List.length_append] at hsteps
    rw [List.append_assoc]
    have hvalue := hreads item List.mem_cons_self level (levels - 1) steps _ hitem
      (closed_itemEnd [] level closing rest) (by omega)
    rw [readItems?_of_last hvalue (skipBlanks_behind_items level closing rest), List.reverse_cons]
  | cons next items ih =>
    intro item level closing levels steps rest read hreads hplain hsteps
    obtain ⟨steps, rfl⟩ : ∃ k, steps = k + 1 := ⟨steps - 1, by omega⟩
    obtain ⟨hitem, hnext⟩ := arePlain_cons.mp hplain
    obtain ⟨hfirst, hothers⟩ := List.forall_mem_cons.mp hreads
    unfold itemChars at hsteps ⊢
    rw [List.length_append] at hsteps
    rw [List.append_assoc]
    have hvalue := hfirst level (levels - 1) steps _ hitem
      (closed_itemEnd (next :: items) level closing rest) (by omega)
    rw [toList_prettyItems, List.length_cons, List.length_append, length_newLine] at hsteps
    rw [readItems?_of_comma hvalue (skipBlanks_before_item level next items _),
      skipBlanks_itemChars (arePlain_cons.mp hnext).1,
      ih next level closing levels steps rest (item :: read) hothers hnext (by omega),
      List.reverse_cons, List.append_assoc]
    rfl

/-! ### Objects. -/

/-- What stands behind a member: another one, or the end of the object. -/
theorem closed_memberEnd (members : List (String × Json)) (level closing : Nat)
    (rest : List Char) :
    Closed ((prettyMembers level members).toList
      ++ ((newLine closing).toList ++ '\x7d' :: rest)) := by
  cases members with
  | nil =>
    rw [toList_newLine]
    exact .line _
  | cons next members =>
    rw [toList_prettyMembers]
    exact .comma _

/-- Behind the last member the object is closed. -/
theorem skipBlanks_behind_members (level closing : Nat) (rest : List Char) :
    skipBlanks ((prettyMembers level []).toList ++ ((newLine closing).toList ++ '\x7d' :: rest))
      = '\x7d' :: rest := by
  rw [show (prettyMembers level []).toList = [] by simp [prettyMembers], List.nil_append,
    skipBlanks_closing closing (by decide)]

/-- Behind any other member a comma announces the next one. -/
theorem skipBlanks_before_member (level : Nat) (key : String) (value : Json)
    (members : List (String × Json)) (cs : List Char) :
    skipBlanks ((prettyMembers level ((key, value) :: members)).toList ++ cs)
      = ',' :: ((newLine level).toList ++ (memberChars level key value members ++ cs)) := by
  rw [toList_prettyMembers, List.cons_append, skipBlanks_of_opensValue (by decide),
    List.append_assoc]

/-- A member is read up to behind its value. -/
theorem readMembers?_of_value {steps levels : Nat} {key : String} {value : Json}
    {cs cs' : List Char} (hkey : key.length < steps)
    (hvalue : readValue? steps (levels - 1) (skipBlanks cs) = some (value, cs'))
    (read : List (Option String × Json)) :
    readMembers? (steps + 1) levels ((stringText key).toList ++ ':' :: ' ' :: cs) read
      = match skipBlanks cs' with
        | ',' :: cs => readMembers? steps levels (skipBlanks cs) ((some key, value) :: read)
        | '\x7d' :: cs => some (ofMembers levels ((some key, value) :: read).reverse, cs)
        | _ => none := by
  rw [toList_stringText, List.cons_append, List.append_assoc, List.singleton_append, readMembers?]
  have hcolon : skipBlanks (':' :: ' ' :: cs) = ':' :: ' ' :: cs := rfl
  have hblank : skipBlanks (' ' :: cs) = skipBlanks cs := rfl
  simp only [readChars?_stringText key hkey, Option.bind_eq_bind, Option.bind_some, hcolon, hblank,
    hvalue]
  rfl

/-- A member as it is read: its key is a string. -/
def keyed (member : String × Json) : Option String × Json := (some member.1, member.2)

theorem ofMembers_map_keyed {levels : Nat} (hlevels : 0 < levels) (members : List (String × Json)) :
    ofMembers levels (members.map keyed) = .object members := by
  obtain ⟨levels, rfl⟩ : ∃ k, levels = k + 1 := ⟨levels - 1, by omega⟩
  unfold ofMembers
  rw [mapM_map_of_forall (k := id), List.map_id]
  exact fun _ _ => rfl

/-- **Members are read one after the other.** -/
theorem readMembers?_memberChars (members : List (String × Json)) :
    ∀ (key : String) (value : Json) (level closing levels steps : Nat) (rest : List Char)
      (read : List (String × Json)),
      (∀ m ∈ (key, value) :: members, m.2.Reads) →
      areMembersPlain (levels - 1) ((key, value) :: members) = true →
      (memberChars level key value members).length + 1 < steps →
        readMembers? steps levels
            (memberChars level key value members ++ ((newLine closing).toList ++ '\x7d' :: rest))
            (read.map keyed)
          = some (ofMembers levels ((read.reverse ++ (key, value) :: members).map keyed),
              rest) := by
  -- as for items; the blank behind the colon is skipped before the value is read
  induction members with
  | nil =>
    intro key value level closing levels steps rest read hreads hplain hsteps
    obtain ⟨steps, rfl⟩ : ∃ k, steps = k + 1 := ⟨steps - 1, by omega⟩
    have hitem : isPlain (levels - 1) value = true := (areMembersPlain_cons.mp hplain).1
    have hfirst : value.Reads := hreads (key, value) List.mem_cons_self
    have hkey := length_lt_stringText key
    unfold memberChars at hsteps ⊢
    simp only [List.length_append, List.length_cons] at hsteps
    simp only [List.append_assoc, List.cons_append]
    have hvalue := hfirst level (levels - 1) steps _ hitem
      (closed_memberEnd [] level closing rest) (by omega)
    rw [← skipBlanks_prettyAt hitem] at hvalue
    rw [readMembers?_of_value (by omega) hvalue, skipBlanks_behind_members]
    simp [keyed]
  | cons next members ih =>
    intro key value level closing levels steps rest read hreads hplain hsteps
    obtain ⟨steps, rfl⟩ : ∃ k, steps = k + 1 := ⟨steps - 1, by omega⟩
    obtain ⟨nextKey, nextValue⟩ := next
    obtain ⟨hitem, hnext⟩ := areMembersPlain_cons.mp hplain
    have hfirst : value.Reads := hreads (key, value) List.mem_cons_self
    have hothers : ∀ m ∈ (nextKey, nextValue) :: members, m.2.Reads :=
      fun m hm => hreads m (List.mem_cons_of_mem _ hm)
    have hkey := length_lt_stringText key
    unfold memberChars at hsteps ⊢
    simp only [List.length_append, List.length_cons] at hsteps
    simp only [List.append_assoc, List.cons_append]
    have hvalue := hfirst level (levels - 1) steps _ hitem
      (closed_memberEnd ((nextKey, nextValue) :: members) level closing rest) (by omega)
    rw [← skipBlanks_prettyAt hitem] at hvalue
    rw [toList_prettyMembers, List.length_cons, List.length_append, length_newLine] at hsteps
    have hread := ih nextKey nextValue level closing levels steps rest ((key, value) :: read)
      hothers hnext (by omega)
    rw [List.map_cons, List.reverse_cons, List.append_assoc] at hread
    rw [readMembers?_of_value (by omega) hvalue, skipBlanks_before_member]
    show readMembers? steps levels (skipBlanks _) (keyed (key, value) :: read.map keyed) = _
    rw [skipBlanks_memberChars, hread]
    rfl

/-! ## §5. All values. -/

theorem reads_array {items : List Json} (hreads : ∀ j ∈ items, j.Reads) :
    (array items).Reads := by
  intro level levels steps rest h hrest hsteps
  obtain ⟨steps, rfl⟩ : ∃ k, steps = k + 1 := ⟨steps - 1, by omega⟩
  obtain ⟨hlevels, hplain⟩ : 0 < levels ∧ arePlain (levels - 1) items = true := by
    simpa [isPlain] using h
  have hlevels : levels ≠ 0 := by omega
  cases items with
  | nil =>
    rw [show (prettyAt level (.array [])).toList = ['[', ']'] by simp [prettyAt]]
    show some (ofItems levels [], rest) = _
    rw [ofItems, if_neg hlevels]
  | cons item items =>
    have hitem : isPlain (levels - 1) item = true := (arePlain_cons.mp hplain).1
    rw [toList_prettyAt_array] at hsteps ⊢
    simp only [List.length_cons, List.length_append, length_newLine] at hsteps
    simp only [List.cons_append, List.append_assoc, List.nil_append]
    -- the first item stands behind the blanks
    obtain ⟨c, cs, hchars, hopens⟩ := exists_opensValue hitem (level + 1)
    have hfirst : itemChars (level + 1) item items ++ ((newLine level).toList ++ ']' :: rest)
        = c :: (cs ++ (prettyItems (level + 1) items).toList
          ++ ((newLine level).toList ++ ']' :: rest)) := by
      unfold itemChars
      rw [hchars, List.cons_append, List.cons_append]
    rw [readValue?_array steps levels ((skipBlanks_itemChars hitem _ _ _).trans hfirst) hopens,
      ← hfirst,
      readItems?_itemChars items item (level + 1) level levels steps rest [] hreads hplain
        (by omega),
      ofItems, if_neg hlevels]
    rfl

theorem reads_object {members : List (String × Json)} (hreads : ∀ m ∈ members, m.2.Reads) :
    (object members).Reads := by
  intro level levels steps rest h hrest hsteps
  obtain ⟨steps, rfl⟩ : ∃ k, steps = k + 1 := ⟨steps - 1, by omega⟩
  obtain ⟨hlevels, hplain⟩ : 0 < levels ∧ areMembersPlain (levels - 1) members = true := by
    simpa [isPlain] using h
  cases members with
  | nil =>
    rw [show (prettyAt level (.object [])).toList = ['\x7b', '\x7d'] by simp [prettyAt]]
    show some (ofMembers levels ([].map keyed), rest) = _
    rw [ofMembers_map_keyed hlevels]
  | cons member members =>
    obtain ⟨key, value⟩ := member
    rw [toList_prettyAt_object] at hsteps ⊢
    simp only [List.length_cons, List.length_append, length_newLine] at hsteps
    simp only [List.cons_append, List.append_assoc, List.nil_append]
    -- the first key stands behind the blanks
    have hfirst : memberChars (level + 1) key value members
        ++ ((newLine level).toList ++ '\x7d' :: rest)
          = '"' :: (escapedChars key.toList ++ ['"'] ++ ':' :: ' ' ::
            ((prettyAt (level + 1) value).toList ++ (prettyMembers (level + 1) members).toList)
            ++ ((newLine level).toList ++ '\x7d' :: rest)) := by
      unfold memberChars
      rw [toList_stringText, List.cons_append, List.cons_append]
    have hread := readMembers?_memberChars members key value (level + 1) level levels steps rest []
      hreads hplain (by omega)
    rw [ofMembers_map_keyed hlevels] at hread
    rw [readValue?_object steps levels ((skipBlanks_memberChars _ _ _ _ _).trans hfirst),
      ← hfirst]
    exact hread

/-- What holds no other value is read as it was written. -/
theorem reads_null : null.Reads := by
  intro level levels steps rest _ _ hsteps
  obtain ⟨steps, rfl⟩ : ∃ k, steps = k + 1 := ⟨steps - 1, by omega⟩
  rw [show (prettyAt level .null).toList = ['n', 'u', 'l', 'l'] by simp [prettyAt]]
  rfl

theorem reads_bool (value : Bool) : (bool value).Reads := by
  intro level levels steps rest _ _ hsteps
  obtain ⟨steps, rfl⟩ : ∃ k, steps = k + 1 := ⟨steps - 1, by omega⟩
  cases value with
  | true =>
    rw [show (prettyAt level (.bool true)).toList = ['t', 'r', 'u', 'e'] by simp [prettyAt]]
    rfl
  | false =>
    rw [show (prettyAt level (.bool false)).toList = ['f', 'a', 'l', 's', 'e'] by simp [prettyAt]]
    rfl

theorem reads_number (literal : NumberLiteral) : (number literal).Reads := by
  intro level levels steps rest h hrest hsteps
  obtain ⟨steps, rfl⟩ : ∃ k, steps = k + 1 := ⟨steps - 1, by omega⟩
  rw [prettyAt_number]
  exact readValue?_number (by simpa [isPlain] using h) steps levels hrest

theorem reads_string (value : String) : (string value).Reads := by
  intro level levels steps rest _ _ hsteps
  rw [prettyAt] at hsteps ⊢
  exact readValue?_string value levels rest hsteps

/-- **A plain value is read as it was written.** -/
theorem reads : ∀ j : Json, j.Reads
  | .null => reads_null
  | .bool value => reads_bool value
  | .number literal => reads_number literal
  | .string value => reads_string value
  | .array items => reads_array fun j _ => reads j
  | .object members => reads_object fun m _ => reads m.2
  | .unreadable => fun _ _ _ _ h => by simp [isPlain] at h
termination_by j => sizeOf j
decreasing_by
  · have := List.sizeOf_lt_of_mem ‹_›
    simp only [array.sizeOf_spec]
    omega
  · have := List.sizeOf_lt_of_mem ‹m ∈ members›
    have hpair : sizeOf m.2 < sizeOf m := by
      cases m
      simp only [Prod.mk.sizeOf_spec]
      omega
    simp only [object.sizeOf_spec]
    omega

/-- **A text that is written for a plain value stands for that value.** -/
theorem parse?_pretty {j : Json} (h : isPlain maxLevels j = true) :
    parse? (j.pretty ++ "\n") = some j := by
  have hchars : (j.pretty ++ "\n").toList = (prettyAt 0 j).toList ++ ['\n'] :=
    String.toList_append
  have hread : readValue? (((prettyAt 0 j).toList ++ ['\n']).length + 1) maxLevels
      ((prettyAt 0 j).toList ++ ['\n']) = some (j, ['\n']) := by
    refine reads j 0 maxLevels _ ['\n'] h (.line []) ?_
    rw [List.length_append]
    omega
  unfold parse?
  simp only [hchars, skipBlanks_prettyAt h, hread, Option.bind_eq_bind, Option.bind_some]
  rfl

end Json

end PatchWeaver

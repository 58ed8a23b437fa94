/-
  PatchWeaver.Proofs.FreshLabels
  ──────────────────────────────
  **LABELS DRAWN FROM A BODY.**

  A supply that is ahead of all labels of its body stays ahead of them, and
  yields every label once:

      labels of the body  <  nextId  ≤  labels drawn from now on

  When a block is finished, each entry that brought a label keeps it, and
  the others get fresh ones in order.  If the labels brought are distinct
  and come before the supply, then all labels of the result are distinct.

  Main results:
    * `Drawn.append` — labels drawn one after another are distinct.
    * `realizes_assignLabels` — finishing keeps origins and instructions.
    * `nodup_assignLabels` — finishing yields distinct labels.
-/
import PatchWeaver.Machine.Block

namespace PatchWeaver

/-! ## §1. The supply of a body. -/

namespace LabelSource

/-- Labels that are drawn count up from the next one of the supply. -/
theorem fst_drawMany (source : LabelSource) (count : Nat) :
    (source.drawMany count).1 = (List.range' source.next.id count).map Label.mk := by
  induction count generalizing source with
  | zero => rfl
  | succ count ih =>
    rw [List.range'_succ, List.map_cons]
    exact congrArg (source.next :: ·) (ih source.draw.2)

theorem pairwise_drawMany (source : LabelSource) (count : Nat) :
    (source.drawMany count).1.Pairwise (·.id < ·.id) := by
  rw [fst_drawMany, List.pairwise_map]
  exact List.pairwise_lt_range'

theorem le_of_mem_drawMany {source : LabelSource} {count : Nat} {l : Label}
    (h : l ∈ (source.drawMany count).1) : source.next.id ≤ l.id := by
  rw [fst_drawMany] at h
  obtain ⟨id, hid, rfl⟩ := List.mem_map.mp h
  exact (List.mem_range'_1.mp hid).1

end LabelSource

namespace Body

/-- Number of the label that is drawn next. -/
def nextId (b : Body) : Nat := b.labelSource.next.id

/-- The supply comes after every label of the body. -/
def Ahead (b : Body) : Prop := ∀ e ∈ b.entries, e.label.id < b.nextId

/-- What making code does to the body that it is made for: locals are added, labels drawn. -/
structure Extends (b c : Body) : Prop where
  entries_eq : c.entries = b.entries
  locals_le : b.locals <+: c.locals
  nextId_le : b.nextId ≤ c.nextId

/-- A supply that has not been started yet will be ahead. -/
theorem ahead_of_unseeded {b : Body} (h : b.labels = none) : b.Ahead := by
  intro e he
  have hmem : e.label ∈ b.entries.map (·.label) := List.mem_map_of_mem he
  have := LabelSource.id_lt_after hmem
  simpa [nextId, labelSource, h] using this

theorem fst_freshLabel (b : Body) : b.freshLabel.1 = ⟨b.nextId⟩ := rfl

@[simp]
theorem nextId_freshLabel (b : Body) : b.freshLabel.2.nextId = b.nextId + 1 := rfl

/-- Once a label has been drawn, the supply depends on the entries no longer. -/
theorem nextId_with_entries {b : Body} (h : b.labels.isSome) (entries : List Entry) :
    nextId { b with entries } = b.nextId := by
  obtain ⟨source, hs⟩ := Option.isSome_iff_exists.mp h
  simp [nextId, labelSource, hs]

@[simp]
theorem Extends.refl (b : Body) : b.Extends b := ⟨rfl, List.prefix_refl _, Nat.le_refl _⟩

theorem Extends.trans {b c d : Body} (h : b.Extends c) (h' : c.Extends d) : b.Extends d where
  entries_eq := h'.entries_eq.trans h.entries_eq
  locals_le := h.locals_le.trans h'.locals_le
  nextId_le := Nat.le_trans h.nextId_le h'.nextId_le

theorem extends_freshLabel (b : Body) : b.Extends b.freshLabel.2 where
  entries_eq := rfl
  locals_le := List.prefix_refl _
  nextId_le := Nat.le_succ _

theorem extends_allocate (b : Body) (type : FieldType) : b.Extends (b.allocate type).2 where
  entries_eq := rfl
  locals_le := List.prefix_append _ _
  nextId_le := Nat.le_refl _

end Body

/-! ## §2. Runs of fresh labels. -/

/-- Distinct labels that were drawn while the supply went from `lo` to `hi`. -/
structure Drawn (lo hi : Nat) (labels : List Label) : Prop where
  nodup : labels.Nodup
  range : ∀ l ∈ labels, lo ≤ l.id ∧ l.id < hi

theorem Drawn.nil (lo hi : Nat) : Drawn lo hi [] := ⟨List.nodup_nil, by simp⟩

/-- Labels drawn one after another are distinct. -/
theorem Drawn.append {lo mid hi : Nat} {labels labels' : List Label} (h : Drawn lo mid labels)
    (h' : Drawn mid hi labels') (hlo : lo ≤ mid) (hhi : mid ≤ hi) :
    Drawn lo hi (labels ++ labels') where
  nodup := by
    refine List.nodup_append.mpr ⟨h.nodup, h'.nodup, fun l hl l' hl' heq => ?_⟩
    have hbelow := (h.range l hl).2
    have habove := (h'.range l' hl').1
    rw [heq] at hbelow
    omega
  range l hl := by
    rcases List.mem_append.mp hl with hl | hl
    · have := h.range l hl
      omega
    · have := h'.range l hl
      omega

/-! ## §3. Finishing a block. -/

/-- The labels that entries of a block bring along. -/
def placedLabels (pending : List PendingEntry) : List Label := pending.filterMap (·.label)

/-- Instructions without labels of their own. -/
def unlabelled (origin : Origin) (code : List Instruction) : List PendingEntry :=
  code.map fun i => ⟨none, origin, i⟩

/-- An entry is one of a block, with a label if it brought none. -/
structure PendingEntry.RealizedBy (p : PendingEntry) (e : Entry) : Prop where
  label : ∀ l, p.label = some l → e.label = l
  origin : e.origin = p.origin
  instruction : e.instruction = p.instruction

/-- Entries are those of a block. -/
inductive Realizes : List PendingEntry → List Entry → Prop where
  | nil : Realizes [] []
  | cons {p : PendingEntry} {e : Entry} {pending : List PendingEntry} {entries : List Entry}
      (first : p.RealizedBy e) (rest : Realizes pending entries) :
      Realizes (p :: pending) (e :: entries)

@[simp]
theorem placedLabels_append (pending pending' : List PendingEntry) :
    placedLabels (pending ++ pending') = placedLabels pending ++ placedLabels pending' := by
  simp [placedLabels]

@[simp]
theorem placedLabels_nil : placedLabels [] = [] := rfl

@[simp]
theorem placedLabels_cons (p : PendingEntry) (pending : List PendingEntry) :
    placedLabels (p :: pending) = p.label.toList ++ placedLabels pending := by
  obtain ⟨label, origin, instruction⟩ := p
  cases label <;> rfl

theorem map_instruction_unlabelled (origin : Origin) (code : List Instruction) :
    (unlabelled origin code).map (·.instruction) = code := by
  unfold unlabelled
  rw [List.map_map]
  exact List.map_id code

@[simp]
theorem placedLabels_unlabelled (origin : Origin) (code : List Instruction) :
    placedLabels (unlabelled origin code) = [] := by
  simp [placedLabels, unlabelled]

theorem Realizes.length_eq {pending : List PendingEntry} {entries : List Entry}
    (h : Realizes pending entries) : entries.length = pending.length := by
  induction h with
  | nil => rfl
  | cons _ _ ih => simp [ih]

/-- Entries of a block put together fall into those of its parts. -/
theorem Realizes.of_append {pending pending' : List PendingEntry} {entries : List Entry}
    (h : Realizes (pending ++ pending') entries) :
    ∃ es es', entries = es ++ es' ∧ Realizes pending es ∧ Realizes pending' es' := by
  induction pending generalizing entries with
  | nil => exact ⟨[], entries, rfl, .nil, h⟩
  | cons p pending ih =>
    rw [List.cons_append] at h
    cases h with
    | cons first rest =>
      obtain ⟨es, es', rfl, hes, hes'⟩ := ih rest
      exact ⟨_ :: es, es', rfl, .cons first hes, hes'⟩

theorem Realizes.append {pending pending' : List PendingEntry} {entries entries' : List Entry}
    (h : Realizes pending entries) (h' : Realizes pending' entries') :
    Realizes (pending ++ pending') (entries ++ entries') := by
  induction h with
  | nil => exact h'
  | cons first _ ih => exact .cons first ih

/-- The entry that a pending one becomes stands at the same place. -/
theorem Realizes.exists_getElem? {pending : List PendingEntry} {entries : List Entry}
    (h : Realizes pending entries) {k : Nat} {p : PendingEntry} (hp : pending[k]? = some p) :
    ∃ e, entries[k]? = some e ∧ p.RealizedBy e := by
  induction h generalizing k with
  | nil => simp at hp
  | @cons p' e _ _ first _ ih =>
    cases k with
    | zero =>
      obtain rfl : p' = p := by simpa using hp
      exact ⟨e, rfl, first⟩
    | succ k =>
      obtain ⟨e', he', hreal⟩ := ih (k := k) (by simpa using hp)
      exact ⟨e', by simpa using he', hreal⟩

/-- Every entry was a pending one. -/
theorem Realizes.exists_mem {pending : List PendingEntry} {entries : List Entry}
    (h : Realizes pending entries) {e : Entry} (he : e ∈ entries) :
    ∃ p ∈ pending, p.RealizedBy e := by
  induction h with
  | nil => simp at he
  | @cons p _ _ _ first _ ih =>
    rcases List.mem_cons.mp he with rfl | he
    · exact ⟨p, List.mem_cons_self, first⟩
    · obtain ⟨p', hp', hreal⟩ := ih he
      exact ⟨p', List.mem_cons_of_mem _ hp', hreal⟩

/-- Entries differ from pending ones in their labels only. -/
theorem Realizes.map_eq {pending : List PendingEntry} {entries : List Entry}
    (h : Realizes pending entries) :
    entries.map (fun e => (e.origin, e.instruction))
      = pending.map fun p => (p.origin, p.instruction) := by
  induction h with
  | nil => rfl
  | cons first _ ih => simp [first.origin, first.instruction, ih]

theorem Realizes.map_instruction {pending : List PendingEntry} {entries : List Entry}
    (h : Realizes pending entries) : entries.map (·.instruction) = pending.map (·.instruction) := by
  have hpairs := congrArg (List.map Prod.snd) h.map_eq
  rwa [List.map_map, List.map_map] at hpairs

/-- An entry with all that belongs to it stays what it is. -/
theorem Realizes.eq_singleton {e : Entry} {entries : List Entry}
    (h : Realizes [⟨some e.label, e.origin, e.instruction⟩] entries) : entries = [e] := by
  cases h with
  | @cons _ e' _ _ first rest =>
    cases rest
    obtain ⟨label, origin, instruction⟩ := e'
    have hlabel : label = e.label := first.label e.label rfl
    have horigin : origin = e.origin := first.origin
    have hinstruction : instruction = e.instruction := first.instruction
    rw [hlabel, horigin, hinstruction]

namespace Block

/-- Finishing keeps labels brought along, origins and instructions. -/
theorem realizes_assignLabels (pending : List PendingEntry) (b : Body) :
    Realizes pending (assignLabels pending b).1 := by
  induction pending generalizing b with
  | nil => exact .nil
  | cons p rest ih =>
    obtain ⟨label, origin, instruction⟩ := p
    cases label with
    | some l => exact .cons ⟨fun l' h => by simpa using h, rfl, rfl⟩ (ih b)
    | none => exact .cons ⟨fun l' h => by simp at h, rfl, rfl⟩ (ih b.freshLabel.2)

/-- Finishing draws labels, and does nothing else to the body. -/
theorem extends_assignLabels (pending : List PendingEntry) (b : Body) :
    b.Extends (assignLabels pending b).2 := by
  induction pending generalizing b with
  | nil => exact .refl b
  | cons p rest ih =>
    obtain ⟨label, origin, instruction⟩ := p
    cases label with
    | some l => exact ih b
    | none => exact b.extends_freshLabel.trans (ih b.freshLabel.2)

theorem isSome_labels_assignLabels {pending : List PendingEntry} {b : Body}
    (h : b.labels.isSome ∨ ∃ p ∈ pending, p.label = none) :
    (assignLabels pending b).2.labels.isSome := by
  induction pending generalizing b with
  | nil => simpa [assignLabels] using h
  | cons p rest ih =>
    obtain ⟨label, origin, instruction⟩ := p
    cases label with
    | some l => exact ih (by simpa using h)
    | none => exact ih (.inl rfl)

/-- A label of the result was brought along or drawn. -/
theorem label_assignLabels {pending : List PendingEntry} {b : Body} {e : Entry}
    (h : e ∈ (assignLabels pending b).1) :
    e.label ∈ placedLabels pending
      ∨ (b.nextId ≤ e.label.id ∧ e.label.id < (assignLabels pending b).2.nextId) := by
  induction pending generalizing b with
  | nil => simp [assignLabels] at h
  | cons p rest ih =>
    obtain ⟨label, origin, instruction⟩ := p
    cases label with
    | some l =>
      rcases List.mem_cons.mp h with rfl | h
      · exact .inl (by simp [placedLabels])
      · exact (ih h).imp_left (List.mem_cons_of_mem l)
    | none =>
      have hext := extends_assignLabels rest b.freshLabel.2
      have hle := hext.nextId_le
      rw [Body.nextId_freshLabel] at hle
      rcases List.mem_cons.mp h with rfl | h
      · exact .inr ⟨Nat.le_refl _, hle⟩
      · rcases ih (b := b.freshLabel.2) h with hl | ⟨hlo, hhi⟩
        · exact .inl hl
        · rw [Body.nextId_freshLabel] at hlo
          exact .inr ⟨by omega, hhi⟩

/-- **Finishing yields distinct labels**, if those brought along are distinct and come before the
supply. -/
theorem nodup_assignLabels {pending : List PendingEntry} {b : Body}
    (hnodup : (placedLabels pending).Nodup) (hbelow : ∀ l ∈ placedLabels pending, l.id < b.nextId) :
    ((assignLabels pending b).1.map (·.label)).Nodup := by
  induction pending generalizing b with
  | nil => exact List.nodup_nil
  | cons p rest ih =>
    obtain ⟨label, origin, instruction⟩ := p
    cases label with
    | some l =>
      have hplaced :
          placedLabels (⟨some l, origin, instruction⟩ :: rest) = l :: placedLabels rest := rfl
      rw [hplaced] at hnodup hbelow
      obtain ⟨hl, hrest⟩ := List.nodup_cons.mp hnodup
      refine List.nodup_cons.mpr ⟨fun hmem => ?_, ih hrest fun l' h => hbelow l' (.tail _ h)⟩
      -- behind a label that was brought along there is none drawn that equals it
      obtain ⟨e, he, rfl⟩ := List.mem_map.mp hmem
      rcases label_assignLabels he with hp | ⟨hlo, -⟩
      · exact hl hp
      · have := hbelow e.label List.mem_cons_self
        omega
    | none =>
      have hplaced : placedLabels (⟨none, origin, instruction⟩ :: rest) = placedLabels rest := rfl
      rw [hplaced] at hnodup hbelow
      refine List.nodup_cons.mpr ⟨fun hmem => ?_,
        ih hnodup fun l' h => Nat.lt_succ_of_lt (hbelow l' h)⟩
      obtain ⟨e, he, heq⟩ := List.mem_map.mp hmem
      -- labels brought along come before the one drawn, later ones behind it
      have hid : e.label.id = b.nextId := congrArg Label.id heq
      rcases label_assignLabels (b := b.freshLabel.2) he with hp | ⟨hlo, -⟩
      · have := hbelow _ hp
        omega
      · rw [Body.nextId_freshLabel] at hlo
        omega

end Block

end PatchWeaver

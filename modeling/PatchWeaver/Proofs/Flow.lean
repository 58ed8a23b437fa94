/-
  PatchWeaver.Proofs.Flow
  ───────────────────────
  **PATHS OF CONTROL FLOW.**

  Control goes from an instruction to the one behind it, to the target of
  its jump, or to both:

      edge i (i + 1)   if i falls through and is not the last instruction
      edge i j         if i jumps to l, and j is the last place of l

  A walk is a run of instructions along edges.  What it does to the stack is
  the sum of what its instructions do, whether or not the stack ever holds
  that many values (`balance`, an integer); a position is reached at a depth
  if some walk from the first instruction has that balance.

  Main results:
    * `position?_eq_some_iff` — a jump goes to the last place of its label.
    * `position?_eq_none_iff` — it goes nowhere if no entry carries the label.
    * `lastPlace_of_nodup` — with distinct labels, the only place is the last.
-/
import PatchWeaver.Machine.Depth

namespace PatchWeaver

/-! ## §1. Edges. -/

/-- Whether control may go on with the instruction behind this one. -/
def Instruction.fallsThrough (i : Instruction) : Bool :=
  match i.flow with
  | .next | .conditional _ => true
  | .jump _ | .ret | .throw => false

/-- Whether the method ends with an instruction. -/
def Instruction.Ends (i : Instruction) : Prop := i = .ret ∨ i = .throw

namespace Instruction

theorem Ends.flow_ne {i : Instruction} (h : i.Ends) : i.flow ≠ .next := by
  rcases h with rfl | rfl <;> simp [flow]

/-- Only a jump has a target. -/
theorem flow_ne_of_target? {i : Instruction} {l : Label} (h : i.target? = some l) :
    i.flow ≠ .next := by
  intro hflow
  simp [target?, hflow] at h

theorem Ends.target?_eq_none {i : Instruction} (h : i.Ends) : i.target? = none := by
  rcases h with rfl | rfl <;> rfl

end Instruction

namespace Body

/-- Position `j` is the last one that carries a label. -/
def LastPlace (b : Body) (l : Label) (j : Nat) : Prop :=
  (∃ e, b.entries[j]? = some e ∧ e.label = l)
    ∧ ∀ k e, j < k → b.entries[k]? = some e → e.label ≠ l

/-- Control may go from one position to another. Behind the last instruction there is nothing to
go to. -/
inductive Edge (b : Body) (i j : Nat) : Prop where
  | next {ins : Instruction} (at_i : b.instruction? i = some ins) (falls : ins.fallsThrough = true)
      (behind : j = i + 1) (inside : j < b.length)
  | jump {ins : Instruction} {l : Label} (at_i : b.instruction? i = some ins)
      (target : ins.target? = some l) (lands : b.LastPlace l j)

/-- Where control may go, be it off the end of the body: an edge, or the step behind the last
instruction. -/
inductive Step (b : Body) (i j : Nat) : Prop where
  | next {ins : Instruction} (at_i : b.instruction? i = some ins) (falls : ins.fallsThrough = true)
      (behind : j = i + 1)
  | jump {ins : Instruction} {l : Label} (at_i : b.instruction? i = some ins)
      (target : ins.target? = some l) (lands : b.LastPlace l j)

/-! ## §2. Walks. -/

/-- A walk along edges: the positions that are run, in order, and where control is then. -/
inductive Walk (b : Body) : Nat → List Nat → Nat → Prop where
  | stay (i : Nat) : Walk b i [] i
  | step {i j k : Nat} {run : List Nat} (walk : Walk b i run j) (edge : b.Edge j k) :
      Walk b i (run ++ [j]) k

end Body

/-- How many more values are on the stack behind an instruction than before it. -/
def Instruction.gain (i : Instruction) : Int := i.effect.push - i.effect.pop

namespace Body

/-- The gain of the instruction at a position. -/
def gainAt (b : Body) (i : Nat) : Int :=
  match b.instruction? i with
  | some ins => ins.gain
  | none => 0

/-- What running the instructions at the given positions does to the number of values on the
stack. -/
def balance (b : Body) : List Nat → Int
  | [] => 0
  | i :: run => b.gainAt i + b.balance run

/-- Some walk from the first instruction leads to a position with so many values on the stack. -/
def Reaches (b : Body) (i : Nat) (depth : Int) : Prop :=
  ∃ run, b.Walk 0 run i ∧ b.balance run = depth

/-! ### Small facts. -/

theorem instruction?_eq_some_iff {b : Body} {i : Nat} {ins : Instruction} :
    b.instruction? i = some ins ↔ ∃ e, b.entries[i]? = some e ∧ e.instruction = ins := by
  simp [instruction?]

theorem lt_length_of_instruction? {b : Body} {i : Nat} {ins : Instruction}
    (h : b.instruction? i = some ins) : i < b.length := by
  obtain ⟨e, he, -⟩ := instruction?_eq_some_iff.mp h
  exact (List.getElem?_eq_some_iff.mp he).1

theorem LastPlace.lt_length {b : Body} {l : Label} {j : Nat} (h : b.LastPlace l j) :
    j < b.length := by
  obtain ⟨⟨e, he, -⟩, -⟩ := h
  exact (List.getElem?_eq_some_iff.mp he).1

/-- A label has one last place. -/
theorem LastPlace.unique {b : Body} {l : Label} {j k : Nat} (hj : b.LastPlace l j)
    (hk : b.LastPlace l k) : j = k := by
  obtain ⟨⟨e, he, hel⟩, hjlast⟩ := hj
  obtain ⟨⟨e', he', hel'⟩, hklast⟩ := hk
  rcases Nat.lt_trichotomy j k with h | h | h
  · exact absurd hel' (hjlast k e' h he')
  · exact h
  · exact absurd hel (hklast j e h he)

theorem Edge.lt_length {b : Body} {i j : Nat} (h : b.Edge i j) : j < b.length := by
  cases h with
  | next _ _ _ inside => exact inside
  | jump _ _ lands => exact lands.lt_length

theorem Edge.step {b : Body} {i j : Nat} (h : b.Edge i j) : b.Step i j := by
  cases h with
  | next at_i falls behind _ => exact .next at_i falls behind
  | jump at_i target lands => exact .jump at_i target lands

/-- A step that stays in the body is an edge. -/
theorem Step.edge {b : Body} {i j : Nat} (h : b.Step i j) (hj : j < b.length) : b.Edge i j := by
  cases h with
  | next at_i falls behind => exact .next at_i falls behind hj
  | jump at_i target lands => exact .jump at_i target lands

theorem Step.le_length {b : Body} {i j : Nat} (h : b.Step i j) : j ≤ b.length := by
  cases h with
  | next at_i falls behind =>
    have := lt_length_of_instruction? at_i
    omega
  | jump at_i target lands => exact Nat.le_of_lt lands.lt_length

/-- Control goes on behind an instruction that does not end the method, if its jump leads
somewhere. -/
theorem exists_step {b : Body} {i : Nat} {ins : Instruction} (h : b.instruction? i = some ins)
    (known : ∀ l, ins.target? = some l → ∃ j, b.LastPlace l j) :
    ins.Ends ∨ ∃ j, b.Step i j := by
  cases htarget : ins.target? with
  | some l =>
    obtain ⟨j, hj⟩ := known l htarget
    exact .inr ⟨j, .jump h htarget hj⟩
  | none =>
    cases ins with
    | ret => exact .inl (.inl rfl)
    | throw => exact .inl (.inr rfl)
    | branch target => contradiction
    | branchIf expected target => contradiction
    | branchCompare comparison target => contradiction
    | _ => exact .inr ⟨i + 1, .next h rfl rfl⟩

/-- Where the edges of an instruction lead, by its flow. -/
theorem edge_iff {b : Body} {i j : Nat} {ins : Instruction} (h : b.instruction? i = some ins) :
    b.Edge i j ↔ match ins.flow with
      | .next => j = i + 1 ∧ j < b.length
      | .jump l => b.LastPlace l j
      | .conditional l => b.LastPlace l j ∨ (j = i + 1 ∧ j < b.length)
      | .ret | .throw => False := by
  have key : b.Edge i j ↔ (ins.fallsThrough = true ∧ j = i + 1 ∧ j < b.length)
      ∨ ∃ l, ins.target? = some l ∧ b.LastPlace l j := by
    constructor
    · intro hedge
      cases hedge with
      | next at_i falls behind inside =>
        obtain rfl : ins = _ := Option.some_inj.mp (h.symm.trans at_i)
        exact .inl ⟨falls, behind, inside⟩
      | jump at_i target lands =>
        obtain rfl : ins = _ := Option.some_inj.mp (h.symm.trans at_i)
        exact .inr ⟨_, target, lands⟩
    · rintro (⟨falls, behind, inside⟩ | ⟨l, target, lands⟩)
      · exact .next h falls behind inside
      · exact .jump h target lands
  rw [key]
  unfold Instruction.fallsThrough Instruction.target?
  cases ins.flow <;> simp [or_comm]

/-- An edge starts at an instruction. -/
theorem Edge.exists_instruction {b : Body} {i j : Nat} (h : b.Edge i j) :
    ∃ ins, b.instruction? i = some ins := by
  cases h with
  | next at_i _ _ _ => exact ⟨_, at_i⟩
  | jump at_i _ _ => exact ⟨_, at_i⟩

theorem balance_append (b : Body) (run run' : List Nat) :
    b.balance (run ++ run') = b.balance run + b.balance run' := by
  induction run with
  | nil => simp [balance]
  | cons i run ih =>
    simp only [List.cons_append, balance, ih]
    omega

theorem balance_singleton {b : Body} {i : Nat} {ins : Instruction}
    (h : b.instruction? i = some ins) : b.balance [i] = ins.gain := by
  simp [balance, gainAt, h]

/-- A walk leads out of the body only if it never sets off. -/
theorem Walk.eq_nil_of_not_lt {b : Body} {i j : Nat} {run : List Nat} (h : b.Walk i run j)
    (hj : ¬ j < b.length) : run = [] := by
  cases h with
  | stay => rfl
  | step _ edge => exact absurd edge.lt_length hj

/-- Walks can be put together. -/
theorem Walk.append {b : Body} {i j k : Nat} {run run' : List Nat} (h : b.Walk i run j)
    (h' : b.Walk j run' k) : b.Walk i (run ++ run') k := by
  induction h' with
  | stay => simpa using h
  | step _ edge ih =>
    rw [← List.append_assoc]
    exact .step ih edge

/-- A walk that runs nothing stays where it is. -/
theorem Walk.eq_of_nil {b : Body} {i j : Nat} {run : List Nat} (h : b.Walk i run j)
    (hrun : run = []) : i = j := by
  cases h with
  | stay => rfl
  | step walk edge => simp at hrun

theorem Walk.single {b : Body} {i j : Nat} (h : b.Edge i j) : b.Walk i [i] j := .step (.stay i) h

/-- One more instruction, if the stack holds what it takes. -/
theorem Reaches.step {b : Body} {i j depth : Nat} {ins : Instruction} (h : b.Reaches i depth)
    (hi : b.instruction? i = some ins) (hpop : ins.effect.pop ≤ depth) (hedge : b.Edge i j) :
    b.Reaches j (ins.depthAfter depth) := by
  obtain ⟨run, hwalk, hbalance⟩ := h
  refine ⟨run ++ [i], .step hwalk hedge, ?_⟩
  rw [balance_append, balance_singleton hi, hbalance]
  simp only [Instruction.gain, Instruction.depthAfter]
  omega

end Body

/-! ## §3. Where jumps go. -/

namespace Body

theorem le_of_lastPosition? {l : Label} {entries : List Entry} {index position : Nat}
    (h : lastPosition? l entries index = some position) : index ≤ position := by
  induction entries generalizing index with
  | nil => simp [lastPosition?] at h
  | cons e rest ih =>
    simp only [lastPosition?] at h
    split at h
    · next p hp =>
      have hpos : p = position := by simpa using h
      have := ih (hpos ▸ hp)
      omega
    · split at h
      · have : index = position := by simpa using h
        omega
      · simp at h

theorem lastPosition?_eq_none_iff {l : Label} {entries : List Entry} {index : Nat} :
    lastPosition? l entries index = none ↔ ∀ e ∈ entries, e.label ≠ l := by
  induction entries generalizing index with
  | nil => simp [lastPosition?]
  | cons e rest ih =>
    simp only [lastPosition?, List.forall_mem_cons, ← @ih (index + 1)]
    cases lastPosition? l rest (index + 1) with
    | some p => simp
    | none => by_cases h : e.label = l <;> simp [h]

theorem lastPosition?_eq_some_iff {l : Label} {entries : List Entry} {index offset : Nat} :
    lastPosition? l entries index = some (index + offset) ↔
      (∃ e, entries[offset]? = some e ∧ e.label = l)
        ∧ ∀ k e, offset < k → entries[k]? = some e → e.label ≠ l := by
  induction entries generalizing index offset with
  | nil => simp [lastPosition?]
  | cons e rest ih =>
    cases offset with
    | zero =>
      -- the head is the last place if the label does not occur behind it
      have hrest : (∀ k e', 0 < k → (e :: rest)[k]? = some e' → e'.label ≠ l)
          ↔ lastPosition? l rest (index + 1) = none := by
        rw [lastPosition?_eq_none_iff]
        constructor
        · intro h e' he'
          obtain ⟨k, hk, rfl⟩ := List.mem_iff_getElem.mp he'
          exact h (k + 1) _ (Nat.succ_pos k) (by simp [hk])
        · intro h k e' hk he'
          obtain ⟨k, rfl⟩ : ∃ m, k = m + 1 := ⟨k - 1, by omega⟩
          exact h e' (List.mem_of_getElem? (by simpa using he'))
      rw [hrest]
      simp only [lastPosition?, Nat.add_zero]
      cases hp : lastPosition? l rest (index + 1) with
      | some p =>
        have := le_of_lastPosition? hp
        simp
        omega
      | none => by_cases h : e.label = l <;> simp [h]
    | succ offset =>
      have hih := @ih (index + 1) offset
      rw [show index + 1 + offset = index + (offset + 1) by omega] at hih
      -- behind a place of the rest is behind the place one further on in the whole
      have hshift : (∀ k e', offset + 1 < k → (e :: rest)[k]? = some e' → e'.label ≠ l)
          ↔ ∀ k e', offset < k → rest[k]? = some e' → e'.label ≠ l := by
        constructor
        · intro h k e' hk he'
          exact h (k + 1) e' (by omega) (by simpa using he')
        · intro h k e' hk he'
          obtain ⟨k, rfl⟩ : ∃ m, k = m + 1 := ⟨k - 1, by omega⟩
          exact h k e' (by omega) (by simpa using he')
      rw [hshift, List.getElem?_cons_succ, ← hih]
      simp only [lastPosition?]
      cases lastPosition? l rest (index + 1) with
      | some p => simp
      | none => by_cases h : e.label = l <;> simp [h]

/-- **A jump goes to the last place of its label.** -/
theorem position?_eq_some_iff {b : Body} {l : Label} {j : Nat} :
    b.position? l = some j ↔ b.LastPlace l j := by
  rw [← Nat.zero_add j]
  show lastPosition? l b.entries 0 = some (0 + j) ↔ _
  rw [lastPosition?_eq_some_iff, Nat.zero_add]
  rfl

/-- A jump to a label that no entry carries goes nowhere. -/
theorem position?_eq_none_iff {b : Body} {l : Label} :
    b.position? l = none ↔ ∀ e ∈ b.entries, e.label ≠ l := lastPosition?_eq_none_iff

/-- The labels of a body, in order. -/
def labelList (b : Body) : List Label := b.entries.map (·.label)

/-- Where labels are distinct, an entry stands at the last place of its label. -/
theorem lastPlace_of_nodup {b : Body} (hb : b.labelList.Nodup) {i : Nat} {e : Entry}
    (h : b.entries[i]? = some e) : b.LastPlace e.label i := by
  refine ⟨⟨e, h, rfl⟩, fun k e' hk he' heq => ?_⟩
  have hi : b.labelList[i]? = some e.label := by simp [labelList, h]
  have hk' : b.labelList[k]? = some e.label := by simp [labelList, he', heq]
  have hlt : i < b.labelList.length := (List.getElem?_eq_some_iff.mp hi).1
  -- a later place of the label would be the same place
  have := (List.getElem?_inj hlt hb).mp (hi.trans hk'.symm)
  omega

end Body

/-- Where labels are distinct, no other entry has the label of an entry. -/
theorem label_ne_of_nodup {front rest : List Entry} {kept : Entry}
    (hnodup : ((front ++ kept :: rest).map (·.label)).Nodup) :
    ∀ e ∈ front ++ rest, e.label ≠ kept.label := by
  have hperm : (front ++ kept :: rest).Perm (kept :: (front ++ rest)) := List.perm_middle
  have hcons := (hperm.map (·.label)).nodup_iff.mp hnodup
  rw [List.map_cons, List.nodup_cons] at hcons
  exact fun e he heq => hcons.1 (List.mem_map.mpr ⟨e, he, heq⟩)

end PatchWeaver

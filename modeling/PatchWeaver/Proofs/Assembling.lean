/-
  PatchWeaver.Proofs.Assembling
  ─────────────────────────────
  **WHAT BECOMES OF LABELS IN BLOCKS.**

  Several blocks are put together side by side, operation by operation, and
  now and then one takes in another one.  What was put into a block is told
  by its record, which speaks of no entries and of no waiting label:

      placed l, pushed i     ↦   instruction i with label l
      pushed i               ↦   instruction i with the next label drawn
      brought e              ↦   entry e

  Between two operations a block lists what its record tells, but for a
  label that was placed last; that one waits.  An operation that would take
  the waiting label away from its instruction fails.  Whether a failure
  leaves traces is a question about writes, so operations are carried out in
  place here, write by write, and compared with the functions on blocks.

  Main results:
    * `Block.Operation.build_eq` — in place, operations do what the functions
      do, and a failure leaves the block as it was.
    * `Block.Draft.Sound.after` — one operation keeps blocks to their records.
    * `Block.Assembly.Reached.sound` — so do any operations on any blocks.
    * `Block.Lists.exists_finishes` — finishing follows the record.
    * `Block.Finishes.labels_apart` — which labels of the result can be equal.
    * `Block.finish_follows_record` — what assembled blocks are finished to.
-/
import Mathlib.Data.List.Nodup
import Mathlib.Logic.Function.Basic
import PatchWeaver.Proofs.Flow
import PatchWeaver.Proofs.FreshLabels

namespace PatchWeaver

namespace Block

/-! ## §1. Operations. -/

/-- One thing that was put into a block. -/
inductive Item where
  /-- A label was placed. -/
  | placed (l : Label)
  /-- An instruction was pushed onto a block of this origin. -/
  | pushed (origin : Origin) (i : Instruction)
  /-- An entry was pushed that has its label already. -/
  | brought (e : Entry)
  deriving Repr, DecidableEq

/-- A block together with the record of what was put into it. -/
structure Draft where
  block : Block
  record : List Item := []
  deriving Repr, DecidableEq

/-- What can be done with a block. -/
inductive Operation where
  | push (i : Instruction)
  | pushAll (instructions : List Instruction)
  | pushEntry (e : Entry)
  | place (l : Label)
  | extend (other : Draft)

/-- Work on a block in place: what has been written stays when a later step fails. -/
abbrev Building := EStateM MachineError Block

namespace Building

/-- Take the waiting label away. -/
def takeLabel : Building (Option Label) :=
  modifyGet fun b => (b.waiting, { b with waiting := none })

/-- Write entries behind those that there are. -/
def write (more : List PendingEntry) : Building Unit :=
  modify fun b => { b with entries := b.entries ++ more }

/-- Fail if a label waits. -/
def refuseWaiting : Building Unit := do
  match (← get).waiting with
  | some l => throw (.labelAlreadyPlaced l)
  | none => pure ()

/-- Push an instruction, which takes the waiting label if there is one. -/
def push (i : Instruction) : Building Unit := do
  let label ← takeLabel
  write [⟨label, (← get).origin, i⟩]

/-- Push instructions one after another. -/
def pushAll : List Instruction → Building Unit
  | [] => pure ()
  | i :: rest => do
    push i
    pushAll rest

end Building

namespace Operation

/-- An operation carried out in place. -/
def build : Operation → Building Unit
  | push i => Building.push i
  | pushAll instructions => Building.pushAll instructions
  | pushEntry e => do
    Building.refuseWaiting
    Building.write [⟨some e.label, e.origin, e.instruction⟩]
  | place l => do
    Building.refuseWaiting
    modify fun b => { b with waiting := some l }
  | extend other => do
    match other.block.waiting with
    | some l => throw (.unplacedLabel l)
    | none => pure ()
    unless other.block.entries.isEmpty do Building.refuseWaiting
    Building.write other.block.entries

/-- What an operation makes of a block. -/
def apply (b : Block) : Operation → Except MachineError Block
  | push i => .ok (b.push i)
  | pushAll instructions => .ok (b.pushAll instructions)
  | pushEntry e => b.pushEntry e
  | place l => b.place l
  | extend other => b.extend other.block

/-- What an operation puts into a block of an origin, if it succeeds. -/
def items (origin : Origin) : Operation → List Item
  | push i => [.pushed origin i]
  | pushAll instructions => instructions.map (.pushed origin)
  | pushEntry e => [.brought e]
  | place l => [.placed l]
  | extend other => other.record

end Operation

/-- Work that came to this, or failed without a trace. -/
def settle (b : Block) : Except MachineError Block → EStateM.Result MachineError Block Unit
  | .ok c => .ok () c
  | .error e => .error e b

theorem build_pushAll (instructions : List Instruction) (b : Block) :
    Building.pushAll instructions b = .ok () (b.pushAll instructions) := by
  induction instructions generalizing b with
  | nil => rfl
  | cons i rest ih => exact ih (b.push i)

/-- **In place, operations do what the functions on blocks do**, and those that fail leave the
block as it was. -/
theorem Operation.build_eq (op : Operation) (b : Block) :
    op.build b = b.settle (op.apply b) := by
  obtain ⟨origin, entries, waiting⟩ := b
  cases op with
  | push i => rfl
  | pushAll instructions => exact build_pushAll instructions _
  | pushEntry e => cases waiting <;> rfl
  | place l => cases waiting <;> rfl
  | extend other =>
    obtain ⟨⟨_, more, waits⟩, _⟩ := other
    cases waits with
    | some l => rfl
    | none =>
      cases waiting with
      | none => cases more <;> rfl
      | some l =>
        cases more with
        -- nothing is appended, so the waiting label goes on waiting
        | nil =>
          exact congrArg (fun es => EStateM.Result.ok () (⟨origin, es, some l⟩ : Block))
            (List.append_nil entries)
        | cons e more => rfl

/-! ## §2. Records. -/

/-- The label that was placed. -/
def Item.placed? : Item → Option Label
  | .placed l => some l
  | _ => none

/-- The entry that was brought along. -/
def Item.brought? : Item → Option Entry
  | .brought e => some e
  | _ => none

/-- The labels placed in a block, in order. -/
def placedIn (record : List Item) : List Label := record.filterMap Item.placed?

/-- The entries brought along into a block, in order. -/
def broughtIn (record : List Item) : List Entry := record.filterMap Item.brought?

/-- A label was placed last. -/
def Waits (record : List Item) : Prop := ∃ l, record.getLast? = some (.placed l)

theorem Waits.of_cons {item : Item} {record : List Item} (h : Waits (item :: record)) :
    Waits record ∨ (record = [] ∧ ∃ l, item = .placed l) := by
  obtain ⟨l, hl⟩ := h
  cases record with
  | nil => exact .inr ⟨rfl, l, Option.some_inj.mp hl⟩
  | cons next record => exact .inl ⟨l, hl⟩

/-- A block with this record has these entries, and no label waits. -/
inductive Lists : List Item → List PendingEntry → Prop where
  | nil : Lists [] []
  | marked {record : List Item} {entries : List PendingEntry} (l : Label) (origin : Origin)
      (i : Instruction) (rest : Lists record entries) :
      Lists (.placed l :: .pushed origin i :: record) (⟨some l, origin, i⟩ :: entries)
  | unmarked {record : List Item} {entries : List PendingEntry} (origin : Origin) (i : Instruction)
      (rest : Lists record entries) :
      Lists (.pushed origin i :: record) (⟨none, origin, i⟩ :: entries)
  | brought {record : List Item} {entries : List PendingEntry} (e : Entry)
      (rest : Lists record entries) :
      Lists (.brought e :: record) (⟨some e.label, e.origin, e.instruction⟩ :: entries)

namespace Lists

variable {record record' : List Item} {entries entries' : List PendingEntry}

theorem append (h : Lists record entries) (h' : Lists record' entries') :
    Lists (record ++ record') (entries ++ entries') := by
  induction h with
  | nil => exact h'
  | marked l origin i _ ih => exact .marked l origin i ih
  | unmarked origin i _ ih => exact .unmarked origin i ih
  | brought e _ ih => exact .brought e ih

theorem not_waits (h : Lists record entries) : ¬ Waits record := by
  induction h with
  | nil =>
    rintro ⟨l, hl⟩
    contradiction
  | marked l origin i _ ih =>
    intro hwaits
    rcases hwaits.of_cons with hwaits | ⟨hnil, -⟩
    · rcases hwaits.of_cons with hwaits | ⟨-, l', hl'⟩
      · exact ih hwaits
      · contradiction
    · contradiction
  | unmarked origin i _ ih | brought e _ ih =>
    intro hwaits
    rcases hwaits.of_cons with hwaits | ⟨-, l', hl'⟩
    · exact ih hwaits
    · contradiction

theorem record_eq_nil_iff (h : Lists record entries) : record = [] ↔ entries = [] := by
  cases h <;> simp

end Lists

namespace Draft

/-- The draft after an operation on its block, which was recorded if it succeeded. -/
def after (d : Draft) (op : Operation) : Draft :=
  match op.build d.block with
  | .ok _ block => ⟨block, d.record ++ op.items d.block.origin⟩
  | .error _ block => ⟨block, d.record⟩

/-- The block lists what its record tells, up to a label placed last, which waits. -/
def Sound (d : Draft) : Prop :=
  ∃ record, Lists record d.block.entries
    ∧ d.record = record ++ d.block.waiting.toList.map Item.placed

variable {d : Draft}

theorem after_of_ok {op : Operation} {b : Block} (h : op.apply d.block = .ok b) :
    d.after op = ⟨b, d.record ++ op.items d.block.origin⟩ := by
  unfold after
  rw [op.build_eq, h]
  rfl

theorem after_of_error {op : Operation} {e : MachineError} (h : op.apply d.block = .error e) :
    d.after op = d := by
  unfold after
  rw [op.build_eq, h]
  rfl

theorem sound_empty (origin : Origin) : Sound ⟨.empty origin, []⟩ := ⟨[], .nil, rfl⟩

namespace Sound

theorem lists (h : d.Sound) (hwaiting : d.block.waiting = none) :
    Lists d.record d.block.entries := by
  obtain ⟨record, hlists, hrecord⟩ := h
  rw [hwaiting] at hrecord
  rwa [hrecord, Option.toList_none, List.map_nil, List.append_nil]

theorem waits_iff (h : d.Sound) : Waits d.record ↔ ∃ l, d.block.waiting = some l := by
  cases hwaiting : d.block.waiting with
  | none => exact iff_of_false (h.lists hwaiting).not_waits nofun
  | some l =>
    obtain ⟨record, -, hrecord⟩ := h
    refine iff_of_true ⟨l, ?_⟩ ⟨l, rfl⟩
    rw [hrecord, hwaiting]
    exact List.getLast?_concat

/-- **An instruction takes the waiting label.** -/
theorem push (h : d.Sound) (i : Instruction) :
    Sound ⟨d.block.push i, d.record ++ [.pushed d.block.origin i]⟩ := by
  obtain ⟨record, hlists, hrecord⟩ := h
  cases hwaiting : d.block.waiting with
  | none =>
    refine ⟨record ++ [.pushed d.block.origin i], ?_, by simp [hrecord, hwaiting, Block.push]⟩
    simpa [Block.push, hwaiting] using hlists.append (.unmarked d.block.origin i .nil)
  | some l =>
    refine ⟨record ++ [.placed l, .pushed d.block.origin i], ?_,
      by simp [hrecord, hwaiting, Block.push]⟩
    simpa [Block.push, hwaiting] using hlists.append (.marked l d.block.origin i .nil)

theorem pushAll (h : d.Sound) (instructions : List Instruction) :
    Sound ⟨d.block.pushAll instructions,
      d.record ++ instructions.map (.pushed d.block.origin)⟩ := by
  induction instructions generalizing d with
  | nil => simpa [Block.pushAll] using h
  | cons i rest ih => simpa [Block.pushAll, Block.push] using ih (h.push i)

theorem pushEntry (h : d.Sound) {e : Entry} {b : Block} (hok : d.block.pushEntry e = .ok b) :
    Sound ⟨b, d.record ++ [.brought e]⟩ := by
  unfold Block.pushEntry at hok
  split at hok
  · contradiction
  · next hwaiting =>
    obtain rfl := Except.ok.inj hok
    exact ⟨_, (h.lists hwaiting).append (.brought e .nil), by simp [hwaiting]⟩

theorem place (h : d.Sound) {l : Label} {b : Block} (hok : d.block.place l = .ok b) :
    Sound ⟨b, d.record ++ [.placed l]⟩ := by
  unfold Block.place at hok
  split at hok
  · contradiction
  · next hwaiting =>
    obtain rfl := Except.ok.inj hok
    exact ⟨d.record, h.lists hwaiting, rfl⟩

/-- **Taking in a block takes in its record.** -/
theorem extend (h : d.Sound) {other : Draft} (hother : other.Sound) {b : Block}
    (hok : d.block.extend other.block = .ok b) : Sound ⟨b, d.record ++ other.record⟩ := by
  unfold Block.extend at hok
  split at hok
  · contradiction
  · next hdone _ =>
    split at hok
    · next hempty =>
      -- nothing is appended, so the waiting label goes on waiting
      obtain rfl := Except.ok.inj hok
      have hnil := (hother.lists hdone).record_eq_nil_iff.mpr (List.isEmpty_iff.mp hempty)
      rwa [hnil, List.append_nil]
    · contradiction
  · next hdone hwaiting =>
    obtain rfl := Except.ok.inj hok
    exact ⟨_, (h.lists hwaiting).append (hother.lists hdone), by simp [hwaiting]⟩

/-- **One operation keeps a block to its record**, whether it succeeds or fails. -/
theorem after (h : d.Sound) (op : Operation)
    (hother : ∀ other, op = .extend other → other.Sound) : (d.after op).Sound := by
  cases hok : op.apply d.block with
  | error e => rwa [after_of_error hok]
  | ok b =>
    rw [after_of_ok hok]
    cases op with
    | push i =>
      obtain rfl := Except.ok.inj hok
      exact h.push i
    | pushAll instructions =>
      obtain rfl := Except.ok.inj hok
      exact h.pushAll instructions
    | pushEntry e => exact h.pushEntry hok
    | place l => exact h.place hok
    | extend other => exact h.extend (hother other rfl) hok

end Sound

end Draft

/-- An operation would take a waiting label away from the instruction that it is waiting for. -/
def Operation.Displaces (record : List Item) : Operation → Prop
  | push _ | pushAll _ => False
  | pushEntry _ | place _ => Waits record
  | extend other => Waits other.record ∨ (Waits record ∧ other.record ≠ [])

/-- **Exactly the operations fail that would displace a waiting label.** -/
theorem Draft.Sound.fails_iff {d : Draft} (h : d.Sound) {op : Operation}
    (hother : ∀ other, op = .extend other → other.Sound) :
    (∃ e, op.apply d.block = .error e) ↔ op.Displaces d.record := by
  cases op with
  | push i | pushAll instructions => exact iff_of_false nofun id
  | pushEntry e =>
    refine Iff.trans ?_ h.waits_iff.symm
    cases hwaiting : d.block.waiting <;> simp [Operation.apply, Block.pushEntry, hwaiting]
  | place l =>
    refine Iff.trans ?_ h.waits_iff.symm
    cases hwaiting : d.block.waiting <;> simp [Operation.apply, Block.place, hwaiting]
  | extend other =>
    have hsound := hother other rfl
    change _ ↔ (Waits other.record ∨ (Waits d.record ∧ other.record ≠ []))
    rw [hsound.waits_iff, h.waits_iff]
    cases hdone : other.block.waiting with
    | some l => simp [Operation.apply, Block.extend, hdone]
    | none =>
      -- a label that waits goes on waiting if there is nothing to append
      have hnil := (hsound.lists hdone).record_eq_nil_iff
      cases hwaiting : d.block.waiting with
      | none => simp [Operation.apply, Block.extend, hdone, hwaiting]
      | some l =>
        by_cases hempty : other.block.entries = [] <;>
          simp [Operation.apply, Block.extend, hdone, hwaiting, hnil, hempty]

/-! ## §4. Assemblies. -/

/-- Blocks that are put together side by side, by number, and the body that they are made for. -/
structure Assembly where
  body : Body
  /-- The labels drawn from the body so far, to be placed in blocks. -/
  drawn : List Label := []
  drafts : Nat → Option Draft := fun _ => none

namespace Assembly

/-- Put a draft in the place of the one with this number, or take that away. -/
def put (a : Assembly) (n : Nat) (d : Option Draft) : Assembly :=
  { a with drafts := Function.update a.drafts n d }

/-- What can be done next. -/
inductive Step (a : Assembly) : Assembly → Prop where
  | start (n : Nat) (origin : Origin) (free : a.drafts n = none) :
      Step a (a.put n (some ⟨.empty origin, []⟩))
  | operate (n : Nat) {d : Draft} (op : Operation) (present : a.drafts n = some d)
      (alone : ∀ other, op ≠ .extend other) : Step a (a.put n (some (d.after op)))
  /-- One block takes in another one, which is used up. -/
  | extend (n m : Nat) {d other : Draft} (present : a.drafts n = some d)
      (given : a.drafts m = some other) (apart : m ≠ n) :
      Step a ((a.put m none).put n (some (d.after (.extend other))))
  | draw : Step a { a with
      body := a.body.freshLabel.2
      drawn := a.drawn ++ [a.body.freshLabel.1] }
  /-- Other work for the body, such as finishing a block, adds locals and draws labels. -/
  | work {body : Body} (extends_body : a.body.Extends body) : Step a { a with body }

/-- Steps that begin without blocks have led to this assembly. -/
inductive Reached (start : Body) : Assembly → Prop where
  | start : Reached start { body := start }
  | step {a a' : Assembly} (before : Reached start a) (step : a.Step a') : Reached start a'

/-- Operations that block `n` is open for: it can take in any other block. -/
def Offers (a : Assembly) (n : Nat) (op : Operation) : Prop :=
  ∀ other, op = .extend other → ∃ m ≠ n, a.drafts m = some other

/-- Every block is kept to its record, and labels that were drawn lie between those of the body
and those still to come. -/
structure Sound (start : Body) (a : Assembly) : Prop where
  drafts : ∀ n d, a.drafts n = some d → d.Sound
  grows : start.Extends a.body
  drawn : ∀ l ∈ a.drawn, start.nextId ≤ l.id ∧ l.id < a.body.nextId

variable {start : Body} {a a' : Assembly}

theorem Sound.put (h : a.Sound start) {n : Nat} {d : Option Draft} (hd : ∀ d' ∈ d, d'.Sound) :
    (a.put n d).Sound start where
  drafts m d' hd' := by
    have hcases : (if m = n then d else a.drafts m) = some d' := by
      rw [← hd']
      exact (Function.update_apply a.drafts n d m).symm
    split at hcases
    · exact hd d' hcases
    · exact h.drafts m d' hcases
  grows := h.grows
  drawn := h.drawn

theorem Sound.work (h : a.Sound start) {body : Body} (hext : a.body.Extends body) :
    Sound start { a with body } where
  drafts := h.drafts
  grows := h.grows.trans hext
  drawn l hl := ⟨(h.drawn l hl).1, Nat.lt_of_lt_of_le (h.drawn l hl).2 hext.nextId_le⟩

/-- **One step keeps all blocks to their records.** -/
theorem Sound.step (h : a.Sound start) (hstep : a.Step a') : a'.Sound start := by
  cases hstep with
  | start n origin _ =>
    refine h.put fun d hd => ?_
    obtain rfl := Option.some_inj.mp hd
    exact Draft.sound_empty origin
  | operate n op present alone =>
    refine h.put fun d hd => ?_
    obtain rfl := Option.some_inj.mp hd
    exact (h.drafts _ _ present).after op fun other hop => absurd hop (alone other)
  | extend n m present given apart =>
    have htaken : (a.put m none).Sound start := h.put fun d hd => nomatch hd
    refine htaken.put fun d hd => ?_
    obtain rfl := Option.some_inj.mp hd
    refine (h.drafts _ _ present).after _ fun other hop => ?_
    obtain rfl := Operation.extend.inj hop
    exact h.drafts _ _ given
  | draw =>
    have hdrawn := h.work a.body.extends_freshLabel
    refine ⟨hdrawn.drafts, hdrawn.grows, List.forall_mem_append.mpr ⟨hdrawn.drawn, ?_⟩⟩
    exact List.forall_mem_singleton.mpr ⟨h.grows.nextId_le, Nat.lt_succ_self _⟩
  | work extends_body => exact h.work extends_body

/-- **So does every sequence of steps.** -/
theorem Reached.sound (h : a.Reached start) : a.Sound start := by
  induction h with
  | start => exact ⟨nofun, .refl start, List.forall_mem_nil _⟩
  | step _ hstep ih => exact ih.step hstep

end Assembly

/-! ## §5. Finishing. -/

/-- What a block with this record is finished to, if these labels are drawn for it. -/
inductive Finishes : List Item → List Label → List Entry → Prop where
  | nil : Finishes [] [] []
  /-- A label that was placed sits on the instruction pushed next. -/
  | marked {record : List Item} {fresh : List Label} {entries : List Entry} (l : Label)
      (origin : Origin) (i : Instruction) (rest : Finishes record fresh entries) :
      Finishes (.placed l :: .pushed origin i :: record) fresh (⟨l, origin, i⟩ :: entries)
  /-- Without one, the instruction gets the next label drawn. -/
  | unmarked {record : List Item} {fresh : List Label} {entries : List Entry} (l : Label)
      (origin : Origin) (i : Instruction) (rest : Finishes record fresh entries) :
      Finishes (.pushed origin i :: record) (l :: fresh) (⟨l, origin, i⟩ :: entries)
  /-- An entry that was brought along stays what it is. -/
  | brought {record : List Item} {fresh : List Label} {entries : List Entry} (e : Entry)
      (rest : Finishes record fresh entries) :
      Finishes (.brought e :: record) fresh (e :: entries)

/-- **A block is finished to what its record says.** -/
theorem Lists.exists_finishes {record : List Item} {pending : List PendingEntry}
    (h : Lists record pending) (b : Body) :
    ∃ fresh, Finishes record fresh (assignLabels pending b).1
      ∧ b.labelSource.drawMany fresh.length = (fresh, (assignLabels pending b).2.labelSource) := by
  induction h generalizing b with
  | nil => exact ⟨[], .nil, rfl⟩
  | marked l origin i _ ih =>
    obtain ⟨fresh, hfinishes, hdrawn⟩ := ih b
    exact ⟨fresh, .marked l origin i hfinishes, hdrawn⟩
  | unmarked origin i _ ih =>
    obtain ⟨fresh, hfinishes, hdrawn⟩ := ih b.freshLabel.2
    refine ⟨b.freshLabel.1 :: fresh, .unmarked _ origin i hfinishes, ?_⟩
    exact congrArg (fun drawn => (b.freshLabel.1 :: drawn.1, drawn.2)) hdrawn
  | brought e _ ih =>
    obtain ⟨fresh, hfinishes, hdrawn⟩ := ih b
    exact ⟨fresh, .brought e hfinishes, hdrawn⟩

/-- **Every label of a finished block was placed, brought along or drawn for it**, and no two of
its entries have theirs from the same source. -/
theorem Finishes.perm {record : List Item} {fresh : List Label} {entries : List Entry}
    (h : Finishes record fresh entries) :
    (entries.map (·.label)).Perm
      (placedIn record ++ ((broughtIn record).map (·.label) ++ fresh)) := by
  induction h with
  | nil => exact .refl _
  | marked l origin i _ ih => exact ih.cons l
  | unmarked l origin i _ ih =>
    refine (ih.cons l).trans ?_
    rw [← List.append_assoc, ← List.append_assoc]
    exact List.perm_middle.symm
  | brought e _ ih => exact (ih.cons e.label).trans List.perm_middle.symm

/-- Where the labels of a body are distinct, entries of it are as distinct as their labels. -/
theorem nodup_labels_iff {b : Body} (hb : b.labelList.Nodup) {es : List Entry}
    (hes : ∀ e ∈ es, e ∈ b.entries) : (es.map (·.label)).Nodup ↔ es.Nodup := by
  refine ⟨List.Nodup.of_map _, fun hnodup => hnodup.map_on fun e he e' he' hlabel => ?_⟩
  exact List.inj_on_of_nodup_map hb (hes e he) (hes e' he') hlabel

/-- **Labels drawn for a body are apart from all others**: those of a finished block are distinct
if those brought along are, which in a body with distinct labels only asks for distinct entries, and
no other one occurs in the body. -/
theorem Finishes.labels_apart {start : Body} {a : Assembly} (ha : a.Sound start)
    {record : List Item} {fresh : List Label} {entries : List Entry}
    (h : Finishes record fresh entries)
    (hfresh : (a.body.labelSource.drawMany fresh.length).1 = fresh) (hahead : start.Ahead)
    (hplaced : ∀ l ∈ placedIn record, l ∈ a.drawn) (honce : (placedIn record).Nodup)
    (hbrought : ∀ e ∈ broughtIn record, e ∈ a.body.entries) :
    ((entries.map (·.label)).Nodup ↔ ((broughtIn record).map (·.label)).Nodup)
      ∧ (a.body.labelList.Nodup → ((entries.map (·.label)).Nodup ↔ (broughtIn record).Nodup))
      ∧ ∀ l ∈ entries.map (·.label), l ∈ a.body.labelList →
        l ∈ (broughtIn record).map (·.label) := by
  -- labels of the body, then labels placed, then labels drawn when the block is finished
  have hbody : ∀ l ∈ a.body.labelList, l.id < start.nextId := by
    intro l hl
    obtain ⟨e, he, rfl⟩ := List.mem_map.mp hl
    rw [ha.grows.entries_eq] at he
    exact hahead e he
  have hold : ∀ l ∈ (broughtIn record).map (·.label), l.id < start.nextId := by
    intro l hl
    obtain ⟨e, he, rfl⟩ := List.mem_map.mp hl
    exact hbody _ (List.mem_map_of_mem (hbrought e he))
  have hmid : ∀ l ∈ placedIn record, start.nextId ≤ l.id ∧ l.id < a.body.nextId :=
    fun l hl => ha.drawn l (hplaced l hl)
  have hnew : ∀ l ∈ fresh, a.body.nextId ≤ l.id := by
    intro l hl
    rw [← hfresh] at hl
    exact LabelSource.le_of_mem_drawMany hl
  have hnodup : fresh.Nodup := by
    rw [← hfresh]
    exact (LabelSource.pairwise_drawMany _ _).imp fun hlt heq => by simp [heq] at hlt
  have hle := ha.grows.nextId_le
  have hiff : (entries.map (·.label)).Nodup ↔ ((broughtIn record).map (·.label)).Nodup := by
    rw [h.perm.nodup_iff, List.nodup_append', List.nodup_append']
    refine ⟨fun hall => hall.2.1.1, fun hdistinct => ⟨honce, ⟨hdistinct, hnodup, ?_⟩, ?_⟩⟩
    · intro l hl hl'
      have := hold l hl
      have := hnew l hl'
      omega
    · intro l hl hl'
      have := hmid l hl
      rcases List.mem_append.mp hl' with hl' | hl'
      · have := hold l hl'
        omega
      · have := hnew l hl'
        omega
  refine ⟨hiff, fun hdistinct => hiff.trans (nodup_labels_iff hdistinct hbrought), ?_⟩
  intro l hl hin
  have := hbody l hin
  rcases List.mem_append.mp (h.perm.mem_iff.mp hl) with hl | hl
  · have := hmid l hl
    omega
  · rcases List.mem_append.mp hl with hl | hl
    · exact hl
    · have := hnew l hl
      omega

/-! ## §6. Assembled blocks. -/

theorem Operation.build_eq_error_iff {op : Operation} {b c : Block} {e : MachineError} :
    op.build b = .error e c ↔ op.apply b = .error e ∧ c = b := by
  rw [op.build_eq]
  cases op.apply b <;> simp [settle, eq_comm]

namespace Draft.Sound

variable {d : Draft} {b c : Body} {entries : List Entry}

/-- A block cannot be finished exactly if a label waits. -/
theorem finish_fails_iff (h : d.Sound) (b : Body) :
    (∃ e, d.block.finish b = .error e) ↔ Waits d.record := by
  rw [h.waits_iff]
  cases hwaiting : d.block.waiting <;> simp [finish, hwaiting]

theorem exists_finishes (h : d.Sound) (hok : d.block.finish b = .ok (entries, c)) :
    ∃ fresh, Finishes d.record fresh entries
      ∧ b.labelSource.drawMany fresh.length = (fresh, c.labelSource) := by
  unfold finish at hok
  split at hok
  · contradiction
  · next hwaiting =>
    have hfinishes := (h.lists hwaiting).exists_finishes b
    rwa [Except.ok.inj hok] at hfinishes

end Draft.Sound

/-- **Assembled blocks are finished to what their records say.**

Blocks are put together by any operations on any of them, in any order, while labels are drawn from
the body that they are made for. Then for every block: an operation fails exactly if it would
displace a waiting label, and carried out in place, it leaves the block as it was then; and the
block cannot be finished exactly if a label waits. Finished for a body, it lists what was put in, in
order and with origins; every label placed sits on the instruction pushed next, entries that were
brought along stay what they are, and all other instructions have the labels that are drawn from the
body then, in order. If the supply of the body that labels were drawn from was ahead of all its
labels, if those placed were drawn from it and placed once, and if the entries brought along are
some of the body, then the labels of the result are distinct exactly if the labels of those entries
are, and no other label of the result occurs in the body. In a body whose labels are distinct, this
comes to the entries themselves being distinct: none of them is brought along twice. -/
theorem finish_follows_record {start : Body} {a : Assembly} (h : a.Reached start) {n : Nat}
    {d : Draft} (hd : a.drafts n = some d) :
    (∀ op, a.Offers n op → ((∃ e, op.apply d.block = .error e) ↔ op.Displaces d.record))
      ∧ (∀ (op : Operation) e c,
        op.build d.block = .error e c ↔ op.apply d.block = .error e ∧ c = d.block)
      ∧ (∀ b, (∃ e, d.block.finish b = .error e) ↔ Waits d.record)
      ∧ (∀ b entries c, d.block.finish b = .ok (entries, c) →
        ∃ fresh, Finishes d.record fresh entries
          ∧ b.labelSource.drawMany fresh.length = (fresh, c.labelSource)
          ∧ fresh.Pairwise (·.id < ·.id))
      ∧ (start.Ahead → (∀ l ∈ placedIn d.record, l ∈ a.drawn) → (placedIn d.record).Nodup →
        (∀ e ∈ broughtIn d.record, e ∈ a.body.entries) →
        ∀ entries c, d.block.finish a.body = .ok (entries, c) →
          ((entries.map (·.label)).Nodup ↔ ((broughtIn d.record).map (·.label)).Nodup)
            ∧ (a.body.labelList.Nodup →
              ((entries.map (·.label)).Nodup ↔ (broughtIn d.record).Nodup))
            ∧ ∀ l ∈ entries.map (·.label), l ∈ a.body.labelList →
              l ∈ (broughtIn d.record).map (·.label)) := by
  have hsound := h.sound.drafts n d hd
  refine ⟨fun op hoffers => hsound.fails_iff fun other hop => ?_,
    fun _ _ _ => Operation.build_eq_error_iff, hsound.finish_fails_iff,
    fun b entries c hok => ?_, fun hahead hplaced honce hbrought entries c hok => ?_⟩
  · obtain ⟨m, -, hm⟩ := hoffers other hop
    exact h.sound.drafts m other hm
  · obtain ⟨fresh, hfinishes, hdrawn⟩ := hsound.exists_finishes hok
    have hup := LabelSource.pairwise_drawMany b.labelSource fresh.length
    rw [hdrawn] at hup
    exact ⟨fresh, hfinishes, hdrawn, hup⟩
  · obtain ⟨fresh, hfinishes, hdrawn⟩ := hsound.exists_finishes hok
    exact hfinishes.labels_apart h.sound (congrArg Prod.fst hdrawn) hahead hplaced honce hbrought

/-! ### A block that may be skipped. -/

namespace Skip

/-- The instruction that the blocks are made for. -/
def kept : Entry := ⟨⟨4⟩, .declared, .ret⟩

/-- The body that the blocks are made for. -/
def body : Body := { entries := [kept] }

/-- A marker, a block that jumps to its own end, and the instruction. -/
def draft : Draft where
  block := ⟨.beginMarker, [⟨none, .beginMarker, .nop⟩, ⟨none, .injected, .loadLocal 0⟩,
    ⟨none, .injected, .branchIf false ⟨5⟩⟩, ⟨some ⟨5⟩, .injected, .nop⟩,
    ⟨some ⟨4⟩, .declared, .ret⟩], none⟩
  record := [.pushed .beginMarker .nop, .pushed .injected (.loadLocal 0),
    .pushed .injected (.branchIf false ⟨5⟩), .placed ⟨5⟩, .pushed .injected .nop, .brought kept]

/-- What the draft is finished to: labels 6 to 8 are drawn then, and label 5 was before. -/
def entries : List Entry :=
  [⟨⟨6⟩, .beginMarker, .nop⟩, ⟨⟨7⟩, .injected, .loadLocal 0⟩,
    ⟨⟨8⟩, .injected, .branchIf false ⟨5⟩⟩, ⟨⟨5⟩, .injected, .nop⟩, kept]

/-- Two blocks are put together in turns, of which one is taken into the other one; in between an
operation fails, for a label waits. -/
theorem exists_reached :
    ∃ a : Assembly, a.Reached body ∧ a.drafts 0 = some draft ∧ a.body = body.freshLabel.2
      ∧ a.drawn = [⟨5⟩] := by
  have hstart : Assembly.Reached body { body } := .start
  have hopen := ((hstart.step .draw).step (.start 0 .beginMarker rfl)).step (.start 1 .injected rfl)
  have hfilled := hopen.step (.operate 1 (.pushAll [.loadLocal 0, .branchIf false ⟨5⟩]) rfl nofun)
  have hwaits := hfilled.step (.operate 1 (.place ⟨5⟩) rfl nofun)
  have hclosed := (hwaits.step (.operate 1 (.pushEntry kept) rfl nofun)).step
    (.operate 1 (.push .nop) rfl nofun)
  have htaken := (hclosed.step (.operate 0 (.push .nop) rfl nofun)).step
    (.extend 0 1 rfl rfl (by decide))
  exact ⟨_, htaken.step (.operate 0 (.pushEntry kept) rfl nofun), rfl, rfl, rfl⟩

end Skip

/-- The jump of the block leads to its own end, and the instruction has the label it had. -/
theorem finish_follows_record_skip :
    ∃ a : Assembly, a.Reached Skip.body ∧ a.drafts 0 = some Skip.draft
      ∧ Skip.body.Ahead ∧ (∀ l ∈ placedIn Skip.draft.record, l ∈ a.drawn)
      ∧ (placedIn Skip.draft.record).Nodup
      ∧ (∀ e ∈ broughtIn Skip.draft.record, e ∈ a.body.entries)
      ∧ ∃ body fresh, Skip.draft.block.finish a.body = .ok (Skip.entries, body)
        ∧ Finishes Skip.draft.record fresh Skip.entries
        ∧ (Skip.entries.map (·.label)).Nodup
        ∧ ∀ l ∈ Skip.entries.map (·.label), l ∈ a.body.labelList → l = ⟨4⟩ := by
  obtain ⟨a, hreached, hdraft, hbody, hdrawn⟩ := Skip.exists_reached
  obtain ⟨body, hfinish⟩ :
      ∃ body, Skip.draft.block.finish a.body = .ok (Skip.entries, body) := by
    rw [hbody]
    exact ⟨_, rfl⟩
  have hahead : Skip.body.Ahead := Body.ahead_of_unseeded rfl
  have hplaced : ∀ l ∈ placedIn Skip.draft.record, l ∈ a.drawn := by
    rw [hdrawn]
    decide
  have honce : (placedIn Skip.draft.record).Nodup := by decide
  have hbrought : ∀ e ∈ broughtIn Skip.draft.record, e ∈ a.body.entries := by
    rw [hbody]
    decide
  obtain ⟨-, -, -, hfinished, hapart⟩ := finish_follows_record hreached hdraft
  obtain ⟨fresh, hfinishes, -, -⟩ := hfinished a.body Skip.entries body hfinish
  have hlabels : a.body.labelList.Nodup := by
    rw [hbody]
    decide
  obtain ⟨-, hdistinct, hold⟩ := hapart hahead hplaced honce hbrought Skip.entries body hfinish
  refine ⟨a, hreached, hdraft, hahead, hplaced, honce, hbrought, body, fresh, hfinish, hfinishes,
    (hdistinct hlabels).mpr (by decide), fun l hl hin => ?_⟩
  exact List.mem_singleton.mp (hold l hl hin)

end Block

end PatchWeaver

/-
  PatchWeaver.Proofs.Frames
  ─────────────────────────
  **WHAT CODE DOES WITH VALUES.**

  A frame holds the arguments and the locals of one run of a method, and
  its operand stack.  Values may be of any kind, as long as constants and
  new objects have some.  Every operand has its static type: that of the
  slot or the constant that it comes from.  A local takes operands of its
  own type only, and there is no step for a slot that does not exist.

      push c          S          ↦  S, c
      loadArg k       S          ↦  S, args k
      loadLocal k     S          ↦  S, locals k
      storeLocal k    S, v       ↦  S                with locals k = v
      new m           S, args    ↦  S, object        made by m of args

  This is all that happens between the start of the code of a patch and the
  call of its copy.

  Main results:
    * `Scene.run_supplies` — loads put on the stack what they stand for.
    * `Scene.run_stores` — operands put aside are in their slots.
-/
import Mathlib.Data.List.Forall2
import PatchWeaver.Proofs.Slots

namespace PatchWeaver

/-! ## §1. Frames. -/

/-- An operand with its static type. -/
structure Cell (V : Type) where
  value : V
  type : FieldType

/-- The state of one run of a method. -/
structure Frame (V : Type) where
  args : List V
  locals : List V
  /-- The operand stack, the top last. -/
  stack : List (Cell V)
  /-- The objects made so far, each by a constructor of some arguments. -/
  made : List (MethodRef × List V) := []

/-- A method with the types of its locals, and the values of constants and of objects, which are
counted as they are made. -/
structure Scene (V : Type) where
  method : MethodRef
  locals : List FieldType
  constant : Constant → V
  object : Nat → V

variable {V : Type}

namespace Frame

/-- The frame with one more operand. -/
def push (f : Frame V) (c : Cell V) : Frame V := { f with stack := f.stack ++ [c] }

/-- The argument slots as operands. -/
def argumentCells (f : Frame V) (m : MethodRef) : List (Cell V) :=
  List.zipWith Cell.mk f.args m.argumentTypes

/-- The receiver of an instance method. -/
def receiverCells (f : Frame V) (m : MethodRef) : List (Cell V) :=
  (f.argumentCells m).take (!m.isStatic).toNat

/-- The arguments of a method, without its receiver. -/
def parameterCells (f : Frame V) (m : MethodRef) : List (Cell V) :=
  (f.argumentCells m).drop (!m.isStatic).toNat

end Frame

namespace Scene

/-- One instruction; none if it cannot go on, or if it is none of those above. -/
def step (s : Scene V) (f : Frame V) : Instruction → Option (Frame V)
  | .nop => some f
  | .push c => some (f.push ⟨s.constant c, c.type⟩)
  | .loadArg slot => (f.argumentCells s.method)[slot.toNat]?.map f.push
  | .loadLocal slot => (List.zipWith Cell.mk f.locals s.locals)[slot.toNat]?.map f.push
  | .storeLocal slot => do
    let top ← f.stack.getLast?
    if s.locals[slot.toNat]? = some top.type ∧ slot.toNat < f.locals.length then
      some { f with stack := f.stack.dropLast, locals := f.locals.set slot.toNat top.value }
    else none
  | .new constructor =>
    let count := constructor.descriptor.parameters.length
    if count ≤ f.stack.length then
      let below := f.stack.take (f.stack.length - count)
      let given := f.stack.drop (f.stack.length - count)
      some { f with
        stack := below ++ [⟨s.object f.made.length, .object constructor.owner⟩]
        made := f.made ++ [(constructor, given.map (·.value))] }
    else none
  | _ => none

/-- Instructions one after another. -/
def run (s : Scene V) (f : Frame V) (code : List Instruction) : Option (Frame V) :=
  code.foldlM s.step f

theorem run_cons (s : Scene V) (f : Frame V) (i : Instruction) (code : List Instruction) :
    s.run f (i :: code) = (s.step f i).bind (s.run · code) := List.foldlM_cons

theorem run_append (s : Scene V) (f : Frame V) (code code' : List Instruction) :
    s.run f (code ++ code') = (s.run f code).bind (s.run · code') := List.foldlM_append

/-! ## §2. Loads. -/

/-- An instruction puts an operand on the stack, whatever is there, and does nothing else. -/
def Supplies (s : Scene V) (f : Frame V) (i : Instruction) (c : Cell V) : Prop :=
  ∀ stack, s.step { f with stack } i = some { f with stack := stack ++ [c] }

/-- **Loads put on the stack what they stand for**, one operand after another. -/
theorem run_supplies {s : Scene V} {f : Frame V} {code : List Instruction} {cells : List (Cell V)}
    (h : List.Forall₂ (s.Supplies f) code cells) (stack : List (Cell V)) :
    s.run { f with stack } code = some { f with stack := stack ++ cells } := by
  induction h generalizing stack with
  | nil => simp [run]
  | cons hfirst _ ih =>
    rw [run_cons, hfirst, Option.bind_some, ih]
    simp

theorem supplies_push (s : Scene V) (f : Frame V) (c : Constant) :
    s.Supplies f (.push c) ⟨s.constant c, c.type⟩ := fun _ => rfl

theorem supplies_loadArg {s : Scene V} {f : Frame V} {k : Nat} (hk : k < 65536) {c : Cell V}
    (h : (f.argumentCells s.method)[k]? = some c) : s.Supplies f (.loadArg (UInt16.ofNat k)) c := by
  intro stack
  show (f.argumentCells s.method)[(UInt16.ofNat k).toNat]?.map _ = _
  rw [toNat_slot hk, h]
  rfl

theorem supplies_loadLocal {s : Scene V} {f : Frame V} {k : Nat} (hk : k < 65536) {c : Cell V}
    (hvalue : f.locals[k]? = some c.value) (htype : s.locals[k]? = some c.type) :
    s.Supplies f (.loadLocal (UInt16.ofNat k)) c := by
  intro stack
  show (List.zipWith Cell.mk f.locals s.locals)[(UInt16.ofNat k).toNat]?.map _ = _
  rw [toNat_slot hk, List.getElem?_zipWith, hvalue, htype]
  rfl

/-! ## §3. Stores. -/

theorem step_storeLocal {s : Scene V} {f : Frame V} {k : Nat} (hk : k < 65536) {c : Cell V}
    (hlocal : k < f.locals.length) (htype : s.locals[k]? = some c.type) (below : List (Cell V)) :
    s.step { f with stack := below ++ [c] } (.storeLocal (UInt16.ofNat k))
      = some { f with stack := below, locals := f.locals.set k c.value } := by
  unfold step
  simp [toNat_slot hk, hlocal, htype]

/-- Locals with values in successive slots. -/
def storeAll (locals : List V) (n : Nat) : List V → List V
  | [] => locals
  | v :: rest => (storeAll locals (n + 1) rest).set n v

@[simp]
theorem length_storeAll (locals : List V) (n : Nat) (values : List V) :
    (storeAll locals n values).length = locals.length := by
  induction values generalizing n with
  | nil => rfl
  | cons v rest ih => rw [storeAll, List.length_set, ih]

/-- Slots in front keep their values. -/
theorem getElem?_storeAll_of_lt (locals : List V) {n k : Nat} (h : k < n) (values : List V) :
    (storeAll locals n values)[k]? = locals[k]? := by
  induction values generalizing n with
  | nil => rfl
  | cons v rest ih => rw [storeAll, List.getElem?_set_ne (by omega), ih (by omega)]

/-- The slots have the values. -/
theorem getElem?_storeAll {locals : List V} {n j : Nat} {values : List V}
    (hj : j < values.length) (hroom : n + values.length ≤ locals.length) :
    (storeAll locals n values)[n + j]? = values[j]? := by
  induction values generalizing n j with
  | nil => simp at hj
  | cons v rest ih =>
    rw [List.length_cons] at hj hroom
    cases j with
    | zero =>
      have hlocal : n < (storeAll locals (n + 1) rest).length := by
        rw [length_storeAll]
        omega
      exact List.getElem?_set_self hlocal
    | succ j =>
      -- setting the first slot does not undo what the others got
      have hrest := ih (n := n + 1) (j := j) (by omega) (by omega)
      rw [storeAll, List.getElem?_set_ne (by omega), List.getElem?_cons_succ, ← hrest]
      congr 1
      omega

/-- **Operands put aside are in their slots**: the last one is on top, so it goes first. -/
theorem run_stores {s : Scene V} {f : Frame V} {n : Nat} {cells : List (Cell V)}
    (hslots : n + cells.length ≤ 65536) (hroom : n + cells.length ≤ f.locals.length)
    (htypes : ∀ j c, cells[j]? = some c → s.locals[n + j]? = some c.type)
    (below : List (Cell V)) :
    s.run { f with stack := below ++ cells }
        ((slotsFrom n cells.length).reverse.map .storeLocal)
      = some { f with
          stack := below
          locals := storeAll f.locals n (cells.map (·.value)) } := by
  induction cells generalizing n below with
  | nil => simp [run, storeAll, slotsFrom]
  | cons c rest ih =>
    rw [List.length_cons] at hslots hroom
    have htypes' : ∀ j c', rest[j]? = some c' → s.locals[n + 1 + j]? = some c'.type := by
      intro j c' hc'
      rw [show n + 1 + j = n + (j + 1) by omega]
      exact htypes (j + 1) c' (by simpa using hc')
    -- the first operand is beneath the others, so these are put aside while it is on the stack
    have hrest := ih (by omega) (by omega) htypes' (below ++ [c])
    have hroom' : n < (storeAll f.locals (n + 1) (rest.map (·.value))).length := by
      rw [length_storeAll]
      omega
    have hfirst := step_storeLocal (s := s)
      (f := { f with locals := storeAll f.locals (n + 1) (rest.map (·.value)) })
      (show n < 65536 by omega) hroom' (htypes 0 c rfl) below
    rw [List.append_assoc, List.singleton_append] at hrest
    rw [List.length_cons, slotsFrom_succ, List.reverse_cons, List.map_append, List.map_singleton,
      run_append, hrest, Option.bind_some, run_cons, hfirst]
    rfl

end Scene

end PatchWeaver

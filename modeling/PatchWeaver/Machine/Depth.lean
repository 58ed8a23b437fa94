/-
  PatchWeaver.Machine.Depth
  ─────────────────────────
  **STACK DEPTHS OF A BODY.**

  The depth of an instruction is the number of values on the operand stack
  just before it runs.  Starting from depth 0 at the first instruction,
  depths are carried along every edge of control flow until nothing new is
  reached; an instruction that is never reached has no depth.  Falling off
  the end of the body is no edge.

  The analysis fails when an instruction takes more values than there are,
  when a jump names no label of the body, when a return leaves more than one
  value, or when two edges into one instruction disagree.

  Every instruction is processed at most once: handling one takes it off
  the queue, and putting one on the queue gives it a depth, so the number of
  instructions without a depth plus the length of the queue goes down by one
  with each step (`Frontier.size_visit`).
-/
import PatchWeaver.Machine.Body
import PatchWeaver.Machine.Error

namespace PatchWeaver

/-- The depth before each instruction, `none` where it is never reached. -/
abbrev Depths := List (Option Nat)

namespace Depths

/-- The depth before one instruction. -/
def at? (d : Depths) (index : Nat) : Option Nat := (d[index]?).join

/-- Whether an instruction is ever reached. -/
def isReachable (d : Depths) (index : Nat) : Bool := (d.at? index).isSome

end Depths

/-! ## §1. The frontier. -/

/-- Depths found so far, and the instructions that were reached but not yet handled. -/
structure Frontier where
  depths : Depths
  queue : List Nat
  deriving Repr, DecidableEq

namespace Frontier

/-- Bound on the steps that are left. -/
def size (f : Frontier) : Nat := f.depths.count none + f.queue.length

/-- Carry a depth along an edge into `target`. -/
def visit (f : Frontier) (target depth : Nat) : Except MachineError Frontier :=
  match f.depths[target]? with
  | none => .ok f
  | some none => .ok { depths := f.depths.set target (some depth), queue := f.queue ++ [target] }
  | some (some existing) =>
    if existing = depth then .ok f else .error (.inconsistentStack target existing depth)

theorem count_none_set {depth : Nat} : ∀ {depths : Depths} {index : Nat},
    depths[index]? = some none →
      (depths.set index (some depth)).count none + 1 = depths.count none
  | [], index, h => by simp at h
  | d :: rest, 0, h => by
    simp at h
    subst h
    simp [List.set]
  | d :: rest, index + 1, h => by
    simp only [List.set_cons_succ, List.count_cons, List.getElem?_cons_succ] at *
    have := @count_none_set depth _ _ h
    omega

/-- An edge keeps the bound. -/
theorem size_visit {f g : Frontier} {target depth : Nat} (h : f.visit target depth = .ok g) :
    g.size = f.size := by
  unfold visit at h
  split at h
  · injection h with h; rw [h]
  · next heq =>
    injection h with h
    subst h
    have := @count_none_set depth _ _ heq
    simp only [size, List.length_append, List.length_singleton]
    omega
  · split at h
    · injection h with h; rw [h]
    · contradiction

end Frontier

/-! ## §2. One step. -/

/-- Where a jump of the instruction at `index` goes. -/
def Body.resolve (b : Body) (index : Nat) (l : Label) : Except MachineError Nat :=
  match b.position? l with
  | some position => .ok position
  | none => .error (.unknownLabel index l)

/-- Depth behind an instruction that runs at a depth. -/
def Instruction.depthAfter (i : Instruction) (depth : Nat) : Nat :=
  depth - i.effect.pop + i.effect.push

/-- Carry the depth behind an instruction along its edges: a jump's target first, then the
instruction that follows. -/
def Body.follow (b : Body) (index : Nat) (i : Instruction) (depth : Nat) (f : Frontier) :
    Except MachineError Frontier :=
  match i.flow with
  | .next => f.visit (index + 1) depth
  | .jump l => do f.visit (← b.resolve index l) depth
  | .conditional l => do (← f.visit (← b.resolve index l) depth).visit (index + 1) depth
  | .ret => if 1 < depth then .error (.invalidReturnStack index depth) else .ok f
  | .throw => .ok f

/-- Handle one instruction of the queue, which has been taken off it. -/
def Body.handle (b : Body) (index : Nat) (f : Frontier) : Except MachineError Frontier :=
  match b.instruction? index, f.depths.at? index with
  | some i, some depth =>
    if depth < i.effect.pop then .error (.stackUnderflow index i.effect.pop depth)
    else b.follow index i (i.depthAfter depth) f
  | _, _ => .ok f

/-- Handling an instruction keeps the bound. -/
theorem Body.size_handle {b : Body} {index : Nat} {f g : Frontier}
    (h : b.handle index f = .ok g) : g.size = f.size := by
  unfold handle at h
  split at h
  · split at h
    · contradiction
    · unfold follow at h
      split at h
      · exact Frontier.size_visit h
      · simp only [bind, Except.bind] at h
        split at h
        · contradiction
        · exact Frontier.size_visit h
      · simp only [bind, Except.bind] at h
        split at h
        · contradiction
        · split at h
          · contradiction
          · next h' => exact (Frontier.size_visit h).trans (Frontier.size_visit h')
      · split at h
        · contradiction
        · injection h with h; rw [h]
      · injection h with h; rw [h]
  · injection h with h; rw [h]

/-! ## §3. The analysis. -/

/-- Handle the queue until it is empty. -/
def Body.explore (b : Body) (f : Frontier) : Except MachineError Depths :=
  match _hq : f.queue with
  | [] => .ok f.depths
  | index :: rest =>
    match _hg : b.handle index { f with queue := rest } with
    | .error error => .error error
    | .ok g => b.explore g
termination_by f.size
decreasing_by
  have h := Body.size_handle _hg
  simp only [Frontier.size, _hq, List.length_cons] at *
  omega

/-- Before the first step: only the first instruction has been reached, at depth 0. -/
def Body.initialFrontier (b : Body) : Frontier where
  depths := (List.replicate b.length none).set 0 (some 0)
  queue := if b.length = 0 then [] else [0]

/-- Stack depths of a body. -/
def Body.depths (b : Body) : Except MachineError Depths := b.explore b.initialFrontier

/-! ## §4. Depths of many methods. -/

/-- The depths of every method analysed so far. -/
structure DepthCache where
  entries : List (MethodRef × Depths) := []
  deriving Repr, DecidableEq

namespace DepthCache

/-- The depths kept for a method. -/
def find? (c : DepthCache) (method : MethodRef) : Option Depths :=
  (c.entries.find? (·.1 = method)).map (·.2)

/-- Depths of a method with the given body: what is kept for the method, or else what the
analysis of the body yields, which is kept from then on. A failure is not kept. -/
def depths (c : DepthCache) (method : MethodRef) (body : Body) :
    Except MachineError Depths × DepthCache :=
  match c.find? method with
  | some depths => (.ok depths, c)
  | none =>
    match body.depths with
    | .ok depths => (.ok depths, ⟨(method, depths) :: c.entries⟩)
    | .error error => (.error error, c)

end DepthCache

end PatchWeaver

/-
  PatchWeaver.Proofs.CallCode
  ───────────────────────────
  **WHAT THE CODE OF A PATCH DOES TO THE STACK.**

  Code without jumps is followed instruction by instruction: which copies
  have been called so far, and how many values are on the stack.

      run st (a ++ b) = run (run st a) b

  A call takes the receiver, the synthetic arguments and the arguments
  passed on, as many as the copy declares, and leaves the copy's result:

      depth behind = depth before - operands on the stack + result

  So the code of a patch leaves the stack as the instruction that it goes to
  finds it, or as the instruction would leave it.

  Main results:
    * `run_callInstructions` — a call consumes what is on the stack for it.
    * `run_callWithOperands` — so does a call that spills its operands.
    * `run_callbackCall`, `run_cancelledCheck`, `run_unwinding` — the parts
      of a patch that runs before the instruction.
-/
import PatchWeaver.Proofs.Flow
import PatchWeaver.Weave.Emission

namespace PatchWeaver

/-! ## §1. Following code. -/

/-- What a run of woven code does as far as patches are concerned. -/
inductive Act where
  /-- The copy of a patch body is called. -/
  | call (copy : MethodRef)
  /-- The instruction that has the label is run. -/
  | declared (l : Label)
  deriving Repr, DecidableEq

/-- The calls of copies that an instruction makes. -/
def Instruction.acts : Instruction → List Act
  | .invoke .direct callee => [.call callee]
  | _ => []

/-- How far a run has got: what has been done, and how many values are on the stack. -/
structure Progress where
  acts : List Act
  depth : Nat
  deriving Repr, DecidableEq

namespace Progress

/-- Behind one more instruction. -/
def after (st : Progress) (i : Instruction) : Progress :=
  ⟨st.acts ++ i.acts, i.depthAfter st.depth⟩

/-- Behind instructions that are run one after another; none if control leaves them, or if there
are not as many values as one of them takes. -/
def run : Progress → List Instruction → Option Progress
  | st, [] => some st
  | st, i :: rest =>
    if i.flow = .next ∧ i.effect.pop ≤ st.depth then (st.after i).run rest else none

theorem run_append (st : Progress) (code code' : List Instruction) :
    st.run (code ++ code') = (st.run code).bind (·.run code') := by
  induction code generalizing st with
  | nil => rfl
  | cons i code ih =>
    simp only [List.cons_append, run]
    split
    · exact ih _
    · rfl

/-- One more instruction that control goes on from. -/
theorem run_cons {st : Progress} {i : Instruction} {code : List Instruction}
    (hflow : i.flow = .next) (hpop : i.effect.pop ≤ st.depth) :
    st.run (i :: code) = (st.after i).run code := by
  simp [run, hflow, hpop]

end Progress

/-! ## §2. Loads and drops. -/

/-- An instruction that puts one value on the stack, and does nothing else to it. -/
structure Instruction.Loads (i : Instruction) : Prop where
  flow_eq : i.flow = .next
  effect_eq : i.effect = ⟨0, 1⟩
  acts_eq : i.acts = []

/-- An instruction that takes one value off the stack, and does nothing else to it. -/
structure Instruction.Drops (i : Instruction) : Prop where
  flow_eq : i.flow = .next
  effect_eq : i.effect = ⟨1, 0⟩
  acts_eq : i.acts = []

theorem loads_loadArg (slot : Slot) : (Instruction.loadArg slot).Loads := ⟨rfl, rfl, rfl⟩

theorem loads_loadLocal (slot : Slot) : (Instruction.loadLocal slot).Loads := ⟨rfl, rfl, rfl⟩

theorem loads_push (constant : Constant) : (Instruction.push constant).Loads := ⟨rfl, rfl, rfl⟩

theorem drops_storeLocal (slot : Slot) : (Instruction.storeLocal slot).Drops := ⟨rfl, rfl, rfl⟩

theorem drops_pop : Instruction.pop.Drops := ⟨rfl, rfl, rfl⟩

namespace Progress

/-- Loads put as many values on the stack as there are of them. -/
theorem run_loads {code : List Instruction} (h : ∀ i ∈ code, i.Loads) (acts : List Act)
    (depth : Nat) : run ⟨acts, depth⟩ code = some ⟨acts, depth + code.length⟩ := by
  induction code generalizing depth with
  | nil => rfl
  | cons i code ih =>
    obtain ⟨hi, hcode⟩ := List.forall_mem_cons.mp h
    have hafter : after ⟨acts, depth⟩ i = ⟨acts, depth + 1⟩ := by
      simp [after, hi.acts_eq, Instruction.depthAfter, hi.effect_eq]
    rw [run_cons hi.flow_eq (by simp [hi.effect_eq]), hafter, ih hcode]
    simp only [List.length_cons]
    rw [show depth + 1 + code.length = depth + (code.length + 1) by omega]

/-- Drops take as many values off the stack as there are of them. -/
theorem run_drops {code : List Instruction} (h : ∀ i ∈ code, i.Drops) (acts : List Act)
    {depth : Nat} (hdepth : code.length ≤ depth) :
    run ⟨acts, depth⟩ code = some ⟨acts, depth - code.length⟩ := by
  induction code generalizing depth with
  | nil => rfl
  | cons i code ih =>
    obtain ⟨hi, hcode⟩ := List.forall_mem_cons.mp h
    simp only [List.length_cons] at hdepth
    have hafter : after ⟨acts, depth⟩ i = ⟨acts, depth - 1⟩ := by
      simp [after, hi.acts_eq, Instruction.depthAfter, hi.effect_eq]
    have hpop : i.effect.pop ≤ depth := by
      rw [hi.effect_eq]
      exact Nat.le_trans (Nat.succ_le_succ (Nat.zero_le _)) hdepth
    rw [run_cons hi.flow_eq hpop, hafter, ih hcode (by omega)]
    simp only [List.length_cons]
    rw [show depth - 1 - code.length = depth - (code.length + 1) by omega]

/-- A direct call takes its arguments and leaves its result. -/
theorem run_call {copy : MethodRef} (acts : List Act) {depth : Nat}
    (h : copy.argumentCount ≤ depth) :
    run ⟨acts, depth⟩ [.invoke .direct copy]
      = some ⟨acts ++ [.call copy], depth - copy.argumentCount + copy.returns.isSome.toNat⟩ := by
  have hpop : (Instruction.invoke .direct copy).effect.pop ≤ (Progress.mk acts depth).depth := h
  rw [run_cons rfl hpop]
  rfl

end Progress

/-! ## §3. Calls of copies. -/

/-- A copy takes the synthetic arguments and those that are passed on, and nothing else. -/
def TakesArguments (target copy : MethodRef) (syntheticCount : Nat) : Prop :=
  copy.descriptor.parameters.length = syntheticCount + forwardedCount target copy syntheticCount

theorem length_loadReceiver (copy : MethodRef) :
    (loadReceiver copy).length = (!copy.isStatic).toNat := by
  unfold loadReceiver
  cases copy.isStatic <;> rfl

theorem loads_loadReceiver (copy : MethodRef) : ∀ i ∈ loadReceiver copy, i.Loads := by
  unfold loadReceiver
  split
  · simp
  · exact List.forall_mem_singleton.mpr (loads_loadArg 0)

theorem length_loadForwarded (target copy : MethodRef) (count : Nat) :
    (loadForwarded target copy count).length = forwardedCount target copy count := by
  simp [loadForwarded]

theorem loads_loadForwarded (target copy : MethodRef) (count : Nat) :
    ∀ i ∈ loadForwarded target copy count, i.Loads := by
  intro i hi
  obtain ⟨k, -, rfl⟩ := List.mem_map.mp hi
  exact loads_loadArg _

theorem argumentCount_eq (m : MethodRef) :
    m.argumentCount = (!m.isStatic).toNat + m.descriptor.parameters.length := by
  unfold MethodRef.argumentCount MethodDescriptor.argumentCount
  exact Nat.add_comm _ _

namespace Progress

/-- **A call consumes what is on the stack for it**: of the synthetic arguments, those that are not
loaded have to be there already. -/
theorem run_callInstructions {target copy : MethodRef} {synthetic : List SyntheticArgument}
    (hloads : ∀ i ∈ synthetic.flatMap (·.load), i.Loads)
    (htakes : TakesArguments target copy synthetic.length) (acts : List Act) {depth : Nat}
    (hdepth : synthetic.length ≤ depth + (synthetic.flatMap (·.load)).length) :
    run ⟨acts, depth⟩ (callInstructions target copy synthetic)
      = some ⟨acts ++ [.call copy],
          depth + (synthetic.flatMap (·.load)).length - synthetic.length
            + copy.returns.isSome.toNat⟩ := by
  have harity := argumentCount_eq copy
  unfold TakesArguments at htakes
  have hdepth' : copy.argumentCount ≤ depth + (!copy.isStatic).toNat
      + (synthetic.flatMap (·.load)).length + forwardedCount target copy synthetic.length := by
    omega
  simp only [callInstructions, run_append]
  rw [run_loads (loads_loadReceiver copy), Option.bind_some, run_loads hloads, Option.bind_some,
    run_loads (loads_loadForwarded target copy synthetic.length), Option.bind_some,
    length_loadReceiver, length_loadForwarded, run_call acts hdepth']
  rw [show depth + (!copy.isStatic).toNat + (synthetic.flatMap (·.load)).length
      + forwardedCount target copy synthetic.length - copy.argumentCount
    = depth + (synthetic.flatMap (·.load)).length - synthetic.length by omega]

end Progress

/-! ## §4. Operands on the stack. -/

theorem length_allocateAll (b : Body) (types : List FieldType) :
    (b.allocateAll types).1.length = types.length := by
  induction types generalizing b with
  | nil => rfl
  | cons type types ih => simp [Body.allocateAll, ih]

/-- Operands that stay on the stack are not loaded. -/
theorem flatMap_load_onStack (types : List FieldType) :
    (types.map SyntheticArgument.onStack).flatMap (·.load) = [] := by
  induction types with
  | nil => rfl
  | cons type types ih => simp [SyntheticArgument.onStack, ih]

/-- The arguments that spilled operands become. -/
def spilled (types : List FieldType) (slots : List Slot) : List SyntheticArgument :=
  (types.zip slots).map fun (type, slot) => ⟨type, [.loadLocal slot]⟩

/-- Spilled operands are loaded one by one. -/
theorem flatMap_load_spilled {types : List FieldType} {slots : List Slot}
    (h : slots.length = types.length) :
    (spilled types slots).flatMap (·.load) = slots.map .loadLocal := by
  induction types generalizing slots with
  | nil =>
    obtain rfl : slots = [] := List.length_eq_zero_iff.mp h
    rfl
  | cons type types ih =>
    cases slots with
    | nil => simp at h
    | cons slot slots =>
      have hrest := @ih slots (by simpa using h)
      simpa [spilled] using hrest

theorem callWithOperands_of_static {site : Site} {copy : MethodRef} (types : List FieldType)
    (body : Body) (h : copy.isStatic = true) :
    callWithOperands site copy types body
      = (callInstructions site.method copy (types.map .onStack), body) := by
  simp [callWithOperands, operands, h]

theorem callWithOperands_of_instance {site : Site} {copy : MethodRef} (types : List FieldType)
    (body : Body) (h : copy.isStatic = false) :
    callWithOperands site copy types body
      = ((body.allocateAll types).1.reverse.map .storeLocal
          ++ callInstructions site.method copy (spilled types (body.allocateAll types).1),
        (body.allocateAll types).2) := by
  simp [callWithOperands, operands, spilled, h]

namespace Progress

/-- **A call with operands on the stack consumes them**, whether it finds them there or spills them
to locals first. -/
theorem run_callWithOperands {site : Site} {copy : MethodRef} {types : List FieldType}
    (body : Body) (htakes : TakesArguments site.method copy types.length) (acts : List Act)
    {depth : Nat} (hdepth : types.length ≤ depth) :
    run ⟨acts, depth⟩ (callWithOperands site copy types body).1
      = some ⟨acts ++ [.call copy], depth - types.length + copy.returns.isSome.toNat⟩ := by
  cases hstatic : copy.isStatic with
  | true =>
    have hlength : (types.map SyntheticArgument.onStack).length = types.length := List.length_map _
    have hnone := flatMap_load_onStack types
    have hloads : ∀ i ∈ (types.map SyntheticArgument.onStack).flatMap (·.load), i.Loads := by
      simp [hnone]
    rw [← hlength] at htakes hdepth
    rw [callWithOperands_of_static types body hstatic,
      run_callInstructions hloads htakes acts (by omega), hnone, hlength]
    rfl
  | false =>
    -- the receiver has to get beneath the operands, so they are spilled to locals
    have hslots := length_allocateAll body types
    rw [callWithOperands_of_instance types body hstatic]
    generalize (body.allocateAll types).1 = slots at hslots
    have hlength : (spilled types slots).length = types.length := by simp [spilled, hslots]
    have hloads := flatMap_load_spilled hslots
    have hstores : ∀ i ∈ slots.reverse.map Instruction.storeLocal, i.Drops := by
      intro i hi
      obtain ⟨slot, -, rfl⟩ := List.mem_map.mp hi
      exact drops_storeLocal slot
    have hloaded : ∀ i ∈ (spilled types slots).flatMap (·.load), i.Loads := by
      intro i hi
      rw [hloads] at hi
      obtain ⟨slot, -, rfl⟩ := List.mem_map.mp hi
      exact loads_loadLocal slot
    have hcount : (slots.reverse.map Instruction.storeLocal).length = types.length := by
      simp [hslots]
    have hback : ((spilled types slots).flatMap (·.load)).length = types.length := by
      rw [hloads, List.length_map, hslots]
    rw [← hlength] at htakes
    -- the operands leave the stack for their locals, and come back on top of the receiver
    rw [run_append, run_drops hstores acts (by omega), Option.bind_some, hcount,
      run_callInstructions hloaded htakes acts (by omega), hlength, hback]
    rw [show depth - types.length + types.length - types.length = depth - types.length by omega]

/-! ## §5. Callbacks. -/

/-- A patch that runs before the instruction leaves the stack as it finds it. -/
theorem run_callbackCall {site : Site} {copy : MethodRef} (cancellable : Bool) (slot : Slot)
    (htakes : TakesArguments site.method copy 1) (hreturns : copy.returns = none)
    (acts : List Act) (depth : Nat) :
    run ⟨acts, depth⟩ (callbackCall site copy cancellable slot)
      = some ⟨acts ++ [.call copy], depth⟩ := by
  have hloads : ∀ i ∈ [(⟨callbackType site.method, [.loadLocal slot]⟩ : SyntheticArgument)].flatMap
      (·.load), i.Loads := List.forall_mem_singleton.mpr (loads_loadLocal slot)
  have hnew : run ⟨acts, depth⟩ [.push (.int (boolConstant cancellable)),
      .new (Support.constructor site.method.returns.isSome), .storeLocal slot]
        = some ⟨acts, depth⟩ := by
    simp [run, after, Instruction.flow, Instruction.effect, Instruction.acts,
      Instruction.depthAfter, Support.constructor]
  -- the callback is made and put into a local, from where the call gets it
  unfold callbackCall
  rw [run_append, hnew, Option.bind_some, run_callInstructions hloads htakes acts (by simp),
    hreturns]
  simp

/-- Whether the callback was cancelled is one more value on the stack. -/
theorem run_cancelledCheck (slot : Slot) (acts : List Act) (depth : Nat) :
    run ⟨acts, depth⟩ [.loadLocal slot, .invoke .virtual Support.isCancelled]
      = some ⟨acts, depth + 1⟩ := by
  simp [run, after, Instruction.flow, Instruction.effect, Instruction.acts,
    Instruction.depthAfter, Support.isCancelled, MethodRef.argumentCount,
    MethodDescriptor.argumentCount, MethodRef.returns]

end Progress

/-- The code in front of the return of a cancelled method. -/
def unwinding (site : Site) (slot : Slot) : List Instruction :=
  List.replicate site.depth .pop ++ callbackResult site.method slot

namespace Progress

/-- **Unwinding leaves what the method returns**, and nothing else. -/
theorem run_unwinding (site : Site) (slot : Slot) (acts : List Act) :
    run ⟨acts, site.depth⟩ (unwinding site slot)
      = some ⟨acts, site.method.returns.isSome.toNat⟩ := by
  have hpops : ∀ i ∈ List.replicate site.depth Instruction.pop, i.Drops := by
    intro i hi
    rw [List.eq_of_mem_replicate hi]
    exact drops_pop
  unfold unwinding
  rw [run_append, run_drops hpops acts (by simp), Option.bind_some, List.length_replicate,
    Nat.sub_self]
  unfold callbackResult
  cases site.method.returns with
  | none => rfl
  | some type =>
    simp [run, after, Instruction.flow, Instruction.effect, Instruction.acts,
      Instruction.depthAfter, Support.getReturnValue, MethodRef.argumentCount,
      MethodDescriptor.argumentCount, MethodRef.returns]

end Progress

end PatchWeaver

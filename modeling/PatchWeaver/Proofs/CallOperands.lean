/-
  PatchWeaver.Proofs.CallOperands
  ───────────────────────────────
  **A COPY GETS WHAT IT DECLARES.**

  The check of a signature looks at types, and the code of a patch is made
  without looking at any.  Still, when control reaches the call of the copy,
  the operands on the stack are those that the copy declares:

      below, consumed   ↦   below, receiver, synthetic, arguments

                       consumed             synthetic
      inject           nothing              the callback, made just now
      modifyConstant   nothing              the constant
      redirect         operands of the      the same, in their order
                       callee
      modifyValue      the value            the value

  The receiver is that of the target, and there for an instance copy only;
  the arguments are the first ones of the target, as many as the copy has
  parameters left.

  Operands for a static copy stay where they are.  Those for an instance
  copy are put aside in new locals, the last one first, and loaded back on
  top of the receiver in their order.

  Main results:
    * `Scene.run_operandLoads` — the loads in front of a call.
    * `map_type_operands` — types of the operands are those declared.
    * `emit_delivers` — the code of a patch delivers what its copy declares.
-/
import PatchWeaver.Proofs.Frames

namespace PatchWeaver

variable {V : Type}

/-! ## §1. Arguments of the target. -/

/-- A frame has the argument slots and the locals of a method. -/
structure Scene.Fits (s : Scene V) (f : Frame V) : Prop where
  length_args : f.args.length = s.method.argumentCount
  length_locals : f.locals.length = s.locals.length

namespace Frame

variable {f : Frame V} {m : MethodRef}

theorem length_argumentCells (h : f.args.length = m.argumentCount) :
    (f.argumentCells m).length = m.argumentCount := by
  unfold argumentCells
  rw [List.length_zipWith, m.length_argumentTypes, h, Nat.min_self]

theorem map_type_argumentCells (h : f.args.length = m.argumentCount) :
    (f.argumentCells m).map (·.type) = m.argumentTypes := by
  have hlength : f.args.length = m.argumentTypes.length := by rw [h, m.length_argumentTypes]
  unfold argumentCells
  rw [← List.map_uncurry_zip_eq_zipWith, List.map_map]
  exact List.map_snd_zip (Nat.le_of_eq hlength.symm)

/-- What a call of a copy pushes as its receiver. -/
def copyReceiver (f : Frame V) (m copy : MethodRef) : List (Cell V) :=
  if copy.isStatic then [] else f.receiverCells m

/-- **The operands of a call of a copy** from a method with the given synthetic ones. -/
def operands (f : Frame V) (m copy : MethodRef) (synthetic : List (Cell V)) : List (Cell V) :=
  f.copyReceiver m copy ++ synthetic
    ++ (f.parameterCells m).take (copy.descriptor.parameters.length - synthetic.length)

end Frame

/-- **Types of the operands are those that the copy declares.** -/
theorem map_type_operands {f : Frame V} {target copy : MethodRef} {e : Expectation}
    {synthetic : List (Cell V)} (haccepts : Accepts target copy e)
    (howner : copy.owner = target.owner)
    (hargs : f.args.length = target.argumentCount)
    (hsynthetic : synthetic.map (·.type) = e.synthetic) :
    (f.operands target copy synthetic).map (·.type) = copy.argumentTypes := by
  have htypes := Frame.map_type_argumentCells hargs
  have hlength : synthetic.length = e.synthetic.length := by rw [← hsynthetic, List.length_map]
  have hparameters : (f.parameterCells target).map (·.type) = target.descriptor.parameters := by
    unfold Frame.parameterCells
    rw [List.map_drop, htypes]
    unfold MethodRef.argumentTypes
    cases target.isStatic <;> rfl
  have hreceiver : (f.copyReceiver target copy).map (·.type)
      = if copy.isStatic then [] else [.object copy.owner] := by
    unfold Frame.copyReceiver
    cases hstatic : copy.isStatic with
    | true => rfl
    | false =>
      -- an instance copy is called from an instance method of the same class
      have htarget := haccepts.receiver hstatic
      simp only [Bool.false_eq_true, if_false]
      unfold Frame.receiverCells
      rw [List.map_take, htypes, MethodRef.argumentTypes, htarget, howner]
      rfl
  unfold Frame.operands
  rw [List.map_append, List.map_append, List.map_take, hreceiver, hsynthetic, hparameters, hlength,
    List.append_assoc, ← haccepts.parameters]
  unfold MethodRef.argumentTypes
  cases copy.isStatic <;> rfl

/-! ## §2. Loads in front of a call. -/

/-- What stands in front of the call in a call of a copy. -/
def operandLoads (target copy : MethodRef) (synthetic : List SyntheticArgument) :
    List Instruction :=
  loadReceiver copy ++ synthetic.flatMap (·.load) ++ loadForwarded target copy synthetic.length

theorem callInstructions_eq (target copy : MethodRef) (synthetic : List SyntheticArgument) :
    callInstructions target copy synthetic
      = operandLoads target copy synthetic ++ [.invoke .direct copy] := rfl

namespace Scene

variable {s : Scene V} {f : Frame V} {copy : MethodRef}

theorem forall₂_loadReceiver (copy : MethodRef) (hargs : f.args.length = s.method.argumentCount)
    (hreceiver : copy.isStatic = false → s.method.isStatic = false) :
    List.Forall₂ (s.Supplies f) (loadReceiver copy) (f.copyReceiver s.method copy) := by
  unfold loadReceiver Frame.copyReceiver
  cases hstatic : copy.isStatic with
  | true => exact .nil
  | false =>
    have htarget := hreceiver hstatic
    have hlength := Frame.length_argumentCells hargs
    rw [argumentCount_eq, htarget] at hlength
    unfold Frame.receiverCells
    -- a method with a receiver has a cell in front of all others
    cases hcells : f.argumentCells s.method with
    | nil =>
      rw [hcells, List.length_nil] at hlength
      simp at hlength
      omega
    | cons c rest =>
      have hfirst : (f.argumentCells s.method)[0]? = some c := by simp [hcells]
      rw [htarget]
      exact .cons (supplies_loadArg (k := 0) (by decide) hfirst) .nil

theorem forall₂_loadForwarded (hargs : f.args.length = s.method.argumentCount)
    (hslots : s.method.argumentCount ≤ 65536) (count : Nat) :
    List.Forall₂ (s.Supplies f) (loadForwarded s.method copy count)
      ((f.parameterCells s.method).take (copy.descriptor.parameters.length - count)) := by
  have hlength : (f.parameterCells s.method).length = s.method.descriptor.parameters.length := by
    unfold Frame.parameterCells
    rw [List.length_drop, Frame.length_argumentCells hargs, argumentCount_eq]
    omega
  refine List.forall₂_iff_get.mpr ⟨?_, fun k hload hcell => ?_⟩
  · rw [length_loadForwarded, List.length_take, hlength]
    rfl
  · -- the k-th load is that of the k-th parameter, which stands behind the receiver
    have hk : k < (f.parameterCells s.method).length :=
      Nat.lt_of_lt_of_le hcell (List.length_take_le' _ _)
    have hslot : k + (!s.method.isStatic).toNat < s.method.argumentCount := by
      rw [argumentCount_eq, Nat.add_comm]
      rw [hlength] at hk
      omega
    have hget : (f.argumentCells s.method)[k + (!s.method.isStatic).toNat]?
        = some (((f.parameterCells s.method).take
            (copy.descriptor.parameters.length - count)).get ⟨k, hcell⟩) := by
      rw [List.get_eq_getElem, List.getElem_take]
      unfold Frame.parameterCells at hk ⊢
      rw [List.getElem_drop, Nat.add_comm, List.getElem?_eq_getElem]
    have hsupplies := supplies_loadArg (by omega) hget
    simpa [loadForwarded, MethodRef.parameterSlot] using hsupplies

/-- **The loads in front of a call** push its operands, but for those that are on the stack. -/
theorem run_operandLoads {synthetic : List SyntheticArgument} {loaded : List (Cell V)}
    (hargs : f.args.length = s.method.argumentCount) (hslots : s.method.argumentCount ≤ 65536)
    (hreceiver : copy.isStatic = false → s.method.isStatic = false)
    (hloads : List.Forall₂ (s.Supplies f) (synthetic.flatMap (·.load)) loaded)
    (stack : List (Cell V)) :
    s.run { f with stack } (operandLoads s.method copy synthetic)
      = some { f with
          stack := stack ++ (f.copyReceiver s.method copy ++ loaded
            ++ (f.parameterCells s.method).take
                (copy.descriptor.parameters.length - synthetic.length)) } := by
  have hfirst := List.rel_append (forall₂_loadReceiver copy hargs hreceiver) hloads
  exact run_supplies
    (List.rel_append hfirst (forall₂_loadForwarded hargs hslots synthetic.length)) stack

end Scene

/-! ## §3. What a copy is handed. -/

/-- What the code of a patch finds on top of the stack, what it hands to the copy for it, and the
objects it makes for that. -/
inductive Scene.Hands (s : Scene V) (site : Site) (locals : List FieldType) (f : Frame V) :
    InjectorKind → List (Cell V) → List (Cell V) → List (MethodRef × List V) → Prop where
  /-- A callback, made just now. -/
  | inject {cancellable : Bool} {capture : LocalCapture} :
      Hands s site locals f (.inject cancellable capture) []
        [⟨s.object f.made.length, callbackType site.method⟩]
        [(Support.constructor site.method.returns.isSome,
          [s.constant (.int (boolConstant cancellable))])]
  /-- The constant that the instruction pushes. -/
  | modifyConstant {capture : LocalCapture} {c : Constant} (pushes : site.instruction = .push c) :
      Hands s site locals f (.modifyConstant capture) [] [⟨s.constant c, c.type⟩] []
  /-- The operands of the call, in their order. -/
  | redirect {callKind : CallKind} {callee : MethodRef} {consumed : List (Cell V)}
      (calls : site.instruction = .invoke callKind callee)
      (types : consumed.map (·.type) = callee.argumentTypes) :
      Hands s site locals f .redirect consumed consumed []
  /-- The value that the instruction has pushed. -/
  | modifyValue {value : Cell V}
      (type_eq : site.instruction.pushedType? site.method locals = some value.type) :
      Hands s site locals f .modifyValue [value] [value] []

/-- What the code of a patch finds is what it hands over, and of these types. -/
def PassesOn (kind : InjectorKind) (site : Site) (locals types : List FieldType) : Prop :=
  ∀ {V : Type} {s : Scene V} {f : Frame V} {consumed synthetic : List (Cell V)}
    {made : List (MethodRef × List V)}, s.Hands site locals f kind consumed synthetic made →
      synthetic = consumed ∧ made = [] ∧ consumed.map (·.type) = types

/-- A replaced call passes its operands on. -/
theorem passesOn_redirect {site : Site} {callee : MethodRef} (locals : List FieldType)
    (hcallee : calledMethod site.instruction = .ok callee) :
    PassesOn .redirect site locals callee.argumentTypes := by
  intro V s f consumed synthetic made hhands
  obtain ⟨callKind, hcalls⟩ := eq_of_calledMethod hcallee
  cases hhands with
  | @redirect _ callee' _ calls types =>
    obtain ⟨-, rfl⟩ : callKind = _ ∧ callee = callee' := by simpa [hcalls] using calls
    exact ⟨rfl, rfl, types⟩

/-- A value is passed on with its type, to which locals that were added since do not matter. -/
theorem passesOn_modifyValue {site : Site} {locals locals' : List FieldType} {type : FieldType}
    (hgrows : locals <+: locals')
    (htype : pushedValue site.method locals' site.instruction = .ok type) :
    PassesOn .modifyValue site locals [type] := by
  intro V s f consumed synthetic made hhands
  cases hhands with
  | modifyValue type_eq =>
    have hpushed := pushedType?_mono type_eq hgrows
    rw [(pushedValue_eq_ok_iff.mp htype).2] at hpushed
    obtain rfl := Option.some_inj.mp hpushed
    exact ⟨rfl, rfl, rfl⟩

/-- A run has got from one frame to another: the stack is the given one, these objects were made,
and neither arguments nor the first `count` locals have changed. -/
structure Frame.Becomes (f f' : Frame V) (count : Nat) (stack : List (Cell V))
    (made : List (MethodRef × List V)) : Prop where
  stack_eq : f'.stack = stack
  made_eq : f'.made = f.made ++ made
  args_eq : f'.args = f.args
  locals_eq : ∀ k < count, f'.locals[k]? = f.locals[k]?

/-- Code for a patch of a kind delivers what the copy declares: it gets to the call with the
operands of the declared types on the stack, whatever is below, and spares what the method had. -/
structure Delivers (kind : InjectorKind) (site : Site) (copy : MethodRef)
    (locals final : List FieldType) (code : List Instruction) : Prop where
  spares : ∀ i ∈ code, i.Spares locals.length
  arrives : ∃ front rest, code = front ++ .invoke .direct copy :: rest
    ∧ ∀ (V : Type) (s : Scene V) (f : Frame V) (below consumed synthetic : List (Cell V))
        (made : List (MethodRef × List V)),
      s.method = site.method → final <+: s.locals → s.Fits f →
      s.Hands site locals f kind consumed synthetic made → f.stack = below ++ consumed →
      (f.operands site.method copy synthetic).map (·.type) = copy.argumentTypes
        ∧ ∃ f', s.run f front = some f' ∧ f.Becomes f' locals.length
            (below ++ f.operands site.method copy synthetic) made

/-- A frame is ready for the loads of the synthetic operands: those that are not loaded are on the
stack, where nothing has to get beneath them. -/
def Scene.Readies (s : Scene V) (f f' : Frame V) (copy : MethodRef) (loads : List Instruction)
    (count : Nat) (below synthetic : List (Cell V)) (made : List (MethodRef × List V)) : Prop :=
  ∃ under loaded, f.Becomes f' count (below ++ under) made
    ∧ List.Forall₂ (s.Supplies f') loads loaded
    ∧ under ++ f.copyReceiver s.method copy ++ loaded = f.copyReceiver s.method copy ++ synthetic

/-- **Operands that are put aside are ready to be loaded back.** -/
theorem Scene.exists_readies_of_stores {s : Scene V} {f : Frame V} (copy : MethodRef)
    {count n : Nat} {below synthetic : List (Cell V)} (hcount : count ≤ n)
    (hslots : n + synthetic.length ≤ 65536) (hroom : n + synthetic.length ≤ f.locals.length)
    (htypes : ∀ j c, synthetic[j]? = some c → s.locals[n + j]? = some c.type)
    (hstack : f.stack = below ++ synthetic) :
    ∃ f', s.run f ((slotsFrom n synthetic.length).reverse.map .storeLocal) = some f'
      ∧ s.Readies f f' copy ((slotsFrom n synthetic.length).map .loadLocal) count below synthetic
          [] := by
  have hstores := run_stores hslots hroom htypes below
  rw [← hstack] at hstores
  refine ⟨_, hstores, [], synthetic, ⟨(List.append_nil _).symm, (List.append_nil _).symm, rfl,
    fun k hk => getElem?_storeAll_of_lt _ (by omega) _⟩, ?_, rfl⟩
  -- the j-th load reads the slot that the j-th operand went to
  refine List.forall₂_iff_get.mpr ⟨by simp [slotsFrom], fun j hload hj => ?_⟩
  have hvalue : (storeAll f.locals n (synthetic.map (·.value)))[n + j]?
      = some (synthetic.get ⟨j, hj⟩).value := by
    rw [getElem?_storeAll (by simpa using hj) (by simpa using hroom), List.getElem?_map,
      List.getElem?_eq_getElem hj]
    rfl
  have htype := htypes j (synthetic.get ⟨j, hj⟩) (List.getElem?_eq_getElem hj)
  have hsupplies := supplies_loadLocal (s := s)
    (f := { f with stack := below, locals := storeAll f.locals n (synthetic.map (·.value)) })
    (by omega) hvalue htype
  simpa [slotsFrom] using hsupplies

/-- A new object takes the place of the arguments of its constructor. -/
theorem Scene.step_new {s : Scene V} {f : Frame V} {constructor : MethodRef} {given : List (Cell V)}
    (h : given.length = constructor.descriptor.parameters.length) (below : List (Cell V)) :
    s.step { f with stack := below ++ given } (.new constructor)
      = some { f with
          stack := below ++ [⟨s.object f.made.length, .object constructor.owner⟩]
          made := f.made ++ [(constructor, given.map (·.value))] } := by
  have hcount : constructor.descriptor.parameters.length ≤ (below ++ given).length := by
    rw [List.length_append, h]
    exact Nat.le_add_left _ _
  have hkept : (below ++ given).length - constructor.descriptor.parameters.length
      = below.length := by
    rw [List.length_append, h, Nat.add_sub_cancel]
  show (if _ then _ else _) = _
  rw [if_pos hcount]
  dsimp only
  rw [hkept, List.take_left, List.drop_left]

/-! ## §4. Code that delivers. -/

section

variable {site : Site} {copy : MethodRef} {locals final : List FieldType} {e : Expectation}

/-- **A call delivers what its copy declares** if the code in front of it gets frames ready. -/
theorem delivers_of_readies {kind : InjectorKind} {prelude rest : List Instruction}
    {arguments : List SyntheticArgument} (haccepts : Accepts site.method copy e)
    (howner : copy.owner = site.method.owner) (hslots : site.method.argumentCount ≤ 65536)
    (hcount : arguments.length = e.synthetic.length)
    (hprelude : ∀ i ∈ prelude, i.Spares locals.length)
    (hloads : ∀ i ∈ arguments.flatMap (·.load), i.Spares locals.length)
    (hrest : ∀ i ∈ rest, i.Spares locals.length)
    (hready : ∀ (V : Type) (s : Scene V) (f : Frame V) (below consumed synthetic : List (Cell V))
        (made : List (MethodRef × List V)),
      s.method = site.method → final <+: s.locals → s.Fits f →
      s.Hands site locals f kind consumed synthetic made → f.stack = below ++ consumed →
      synthetic.map (·.type) = e.synthetic ∧ ∃ f', s.run f prelude = some f'
        ∧ s.Readies f f' copy (arguments.flatMap (·.load)) locals.length below synthetic made) :
    Delivers kind site copy locals final
      (prelude ++ callInstructions site.method copy arguments ++ rest) where
  spares := by
    intro i hi
    rcases List.mem_append.mp hi with hi | hi
    · rcases List.mem_append.mp hi with hi | hi
      · exact hprelude i hi
      · exact spares_callInstructions hloads i hi
    · exact hrest i hi
  arrives := by
    refine ⟨prelude ++ operandLoads site.method copy arguments, rest, ?_, ?_⟩
    · rw [callInstructions_eq]
      simp
    intro V s f below consumed synthetic made hmethod hlocals hfits hhands hstack
    obtain ⟨htypes, f', hrun, under, loaded, hbecomes, hsupplies, horder⟩ :=
      hready V s f below consumed synthetic made hmethod hlocals hfits hhands hstack
    have hargs : f.args.length = s.method.argumentCount := hfits.length_args
    have hargs' : f'.args.length = s.method.argumentCount := by rw [hbecomes.args_eq, hargs]
    rw [← hmethod] at haccepts howner hslots ⊢
    refine ⟨map_type_operands haccepts howner hargs htypes, ?_⟩
    have hoperands := Scene.run_operandLoads hargs' hslots haccepts.receiver hsupplies f'.stack
    have harrives : s.run f (prelude ++ operandLoads s.method copy arguments)
        = s.run f' (operandLoads s.method copy arguments) := by
      rw [Scene.run_append, hrun, Option.bind_some]
    refine ⟨_, harrives.trans hoperands, ?_, hbecomes.made_eq, hbecomes.args_eq, hbecomes.locals_eq⟩
    · -- what was on the stack is beneath the receiver only where there is none
      have hreceiver : f'.copyReceiver s.method copy = f.copyReceiver s.method copy := by
        unfold Frame.copyReceiver Frame.receiverCells Frame.argumentCells
        rw [hbecomes.args_eq]
      have hparameters : f'.parameterCells s.method = f.parameterCells s.method := by
        unfold Frame.parameterCells Frame.argumentCells
        rw [hbecomes.args_eq]
      have hlength : arguments.length = synthetic.length := by
        rw [hcount, ← htypes, List.length_map]
      rw [hbecomes.stack_eq, hreceiver, hparameters, hlength]
      unfold Frame.operands
      rw [← horder]
      simp only [List.append_assoc]

/-- A constant is pushed in its place. -/
theorem delivers_constant {capture : LocalCapture} {c : Constant}
    (haccepts : Accepts site.method copy ⟨some c.type, [c.type]⟩)
    (howner : copy.owner = site.method.owner) (hslots : site.method.argumentCount ≤ 65536)
    (hpushes : site.instruction = .push c) :
    Delivers (.modifyConstant capture) site copy locals final
      (callInstructions site.method copy [⟨c.type, [.push c]⟩]) := by
  have hdelivers : Delivers (.modifyConstant capture) site copy locals final
      ([] ++ callInstructions site.method copy [⟨c.type, [.push c]⟩] ++ []) := by
    refine delivers_of_readies haccepts howner hslots rfl (by simp)
      (List.forall_mem_singleton.mpr trivial) (by simp) ?_
    intro V s f below consumed synthetic made _ _ _ hhands hstack
    cases hhands with
    | @modifyConstant _ c' pushes =>
      obtain rfl : c = c' := by simpa [hpushes] using pushes
      refine ⟨rfl, f, rfl, [], [_], ⟨hstack, (List.append_nil _).symm, rfl, fun _ _ => rfl⟩, ?_,
        rfl⟩
      exact .cons (Scene.supplies_push s f c) .nil
  simpa using hdelivers

/-- Operands for a static copy stay where they are. -/
theorem delivers_onStack {kind : InjectorKind} {returns : Option FieldType}
    {types : List FieldType} (haccepts : Accepts site.method copy ⟨returns, types⟩)
    (howner : copy.owner = site.method.owner) (hslots : site.method.argumentCount ≤ 65536)
    (hstatic : copy.isStatic = true) (hpasses : PassesOn kind site locals types) :
    Delivers kind site copy locals final
      (callInstructions site.method copy (types.map .onStack)) := by
  have hnone := flatMap_load_onStack types
  have hdelivers : Delivers kind site copy locals final
      ([] ++ callInstructions site.method copy (types.map .onStack) ++ []) := by
    refine delivers_of_readies haccepts howner hslots (List.length_map _) (by simp)
      (by simp [hnone]) (by simp) ?_
    intro V s f below consumed synthetic made _ _ _ hhands hstack
    -- nothing is stored and nothing made up: the operands are what the copy takes last
    obtain ⟨rfl, rfl, htypes⟩ := hpasses hhands
    refine ⟨htypes, f, rfl, synthetic, [], ⟨hstack, (List.append_nil _).symm, rfl,
      fun _ _ => rfl⟩, ?_, ?_⟩
    · rw [hnone]
      exact .nil
    · simp [Frame.copyReceiver, hstatic]
  simpa using hdelivers

/-- **Operands that are put aside** in new locals get to the copy in their order. -/
theorem delivers_spilled {kind : InjectorKind} {returns : Option FieldType}
    {types present : List FieldType} (haccepts : Accepts site.method copy ⟨returns, types⟩)
    (howner : copy.owner = site.method.owner) (hslots : site.method.argumentCount ≤ 65536)
    (hgrows : locals <+: present) (hroom : present.length + types.length ≤ 65536)
    (hpasses : PassesOn kind site locals types) :
    Delivers kind site copy locals (present ++ types)
      ((slotsFrom present.length types.length).reverse.map .storeLocal
        ++ callInstructions site.method copy
            (spilled types (slotsFrom present.length types.length))) := by
  have hfirst := hgrows.length_le
  have hlengthSlots : (slotsFrom present.length types.length).length = types.length := by
    simp [slotsFrom]
  have hloads := flatMap_load_spilled hlengthSlots
  have hdelivers : Delivers kind site copy locals (present ++ types)
      ((slotsFrom present.length types.length).reverse.map .storeLocal
        ++ callInstructions site.method copy
            (spilled types (slotsFrom present.length types.length)) ++ []) := by
    refine delivers_of_readies haccepts howner hslots (by simp [spilled, hlengthSlots]) ?_ ?_
      (by simp) ?_
    · intro i hi
      obtain ⟨slot, hslot, rfl⟩ := List.mem_map.mp hi
      exact le_toNat_of_mem_slotsFrom hfirst hroom (List.mem_reverse.mp hslot)
    · rw [hloads]
      intro i hi
      obtain ⟨slot, -, rfl⟩ := List.mem_map.mp hi
      trivial
    intro V s f below consumed synthetic made _ hlocals hfits hhands hstack
    obtain ⟨rfl, rfl, htypes⟩ := hpasses hhands
    have hlength : synthetic.length = types.length := by rw [← htypes, List.length_map]
    have hroom' : present.length + synthetic.length ≤ f.locals.length := by
      rw [hfits.length_locals, hlength, ← List.length_append]
      exact hlocals.length_le
    -- the new locals have the types of the operands
    have hlocalTypes : ∀ j c, synthetic[j]? = some c →
        s.locals[present.length + j]? = some c.type := by
      intro j c hc
      obtain ⟨more, hmore⟩ := hlocals
      have htype : types[j]? = some c.type := by
        rw [← htypes, List.getElem?_map, hc]
        rfl
      rw [← hmore, List.append_assoc, List.getElem?_append_right (Nat.le_add_right _ _),
        Nat.add_sub_cancel_left,
        List.getElem?_append_left (List.getElem?_eq_some_iff.mp htype).1, htype]
    have hready := Scene.exists_readies_of_stores copy hfirst
      (by rw [hlength]; exact hroom) hroom' hlocalTypes hstack
    rw [hlength] at hready
    rw [hloads]
    exact ⟨htypes, hready⟩
  simpa using hdelivers

/-- Operands that are on the stack get to the copy in their order. -/
theorem delivers_operands {kind : InjectorKind} {returns : Option FieldType}
    {types : List FieldType} {body : Body} (haccepts : Accepts site.method copy ⟨returns, types⟩)
    (howner : copy.owner = site.method.owner) (hslots : site.method.argumentCount ≤ 65536)
    (hgrows : locals <+: body.locals)
    (hroom : (callWithOperands site copy types body).2.locals.length ≤ 65536)
    (hpasses : PassesOn kind site locals types) :
    Delivers kind site copy locals (callWithOperands site copy types body).2.locals
      (callWithOperands site copy types body).1 := by
  cases hstatic : copy.isStatic with
  | true =>
    rw [callWithOperands_of_static types body hstatic]
    exact delivers_onStack haccepts howner hslots hstatic hpasses
  | false =>
    rw [callWithOperands_of_instance types body hstatic, allocateAll_eq] at hroom ⊢
    exact delivers_spilled haccepts howner hslots hgrows (by simpa using hroom) hpasses

/-- One instruction after the other: the argument, the callback, the local. -/
theorem Scene.run_makeCallback {s : Scene V} {f : Frame V} {constructor : MethodRef} {k : Nat}
    {c : Constant} (hgiven : constructor.descriptor.parameters.length = 1) (hk : k < 65536)
    (hlocal : k < f.locals.length) (htype : s.locals[k]? = some (.object constructor.owner)) :
    s.run f [.push c, .new constructor, .storeLocal (UInt16.ofNat k)]
      = some { f with
          locals := f.locals.set k (s.object f.made.length)
          made := f.made ++ [(constructor, [s.constant c])] } := by
  have hpush : s.step f (.push c) = some (f.push ⟨s.constant c, c.type⟩) := rfl
  have hnew := @step_new V s f constructor [⟨s.constant c, c.type⟩] hgiven.symm f.stack
  have hstore := step_storeLocal (s := s)
    (f := { f with made := f.made ++ [(constructor, [s.constant c])] })
    (c := ⟨s.object f.made.length, .object constructor.owner⟩) hk hlocal htype f.stack
  rw [run_cons, hpush, Option.bind_some, run_cons, Frame.push, hnew, Option.bind_some, run_cons]
  exact (congrArg (Option.bind · _) hstore).trans rfl

/-- A callback is made, kept in its local, and loaded from there. -/
theorem delivers_callback {cancellable : Bool} {capture : LocalCapture} {k : Nat}
    {rest : List Instruction}
    (haccepts : Accepts site.method copy ⟨none, [callbackType site.method]⟩)
    (howner : copy.owner = site.method.owner) (hslots : site.method.argumentCount ≤ 65536)
    (hk : locals.length ≤ k) (htype : final[k]? = some (callbackType site.method))
    (hroom : final.length ≤ 65536) (hrest : ∀ i ∈ rest, i.Spares locals.length) :
    Delivers (.inject cancellable capture) site copy locals final
      (callbackCall site copy cancellable (UInt16.ofNat k) ++ rest) := by
  have hlt : k < final.length := (List.getElem?_eq_some_iff.mp htype).1
  have hbound : k < 65536 := Nat.lt_of_lt_of_le hlt hroom
  refine delivers_of_readies haccepts howner hslots rfl ?_ (List.forall_mem_singleton.mpr trivial)
    hrest ?_
  · have hstore : Instruction.Spares locals.length (.storeLocal (UInt16.ofNat k)) := by
      show locals.length ≤ _
      rw [toNat_slot hbound]
      exact hk
    intro i hi
    simp only [List.mem_cons, List.not_mem_nil, or_false] at hi
    rcases hi with rfl | rfl | rfl
    · trivial
    · trivial
    · exact hstore
  -- at run time: the object is made, stored in its slot, and loaded from there
  intro V s f below consumed synthetic made _ hlocals hfits hhands hstack
  cases hhands with
  | inject =>
    have hlocalType : s.locals[k]? = some (callbackType site.method) := by
      obtain ⟨more, hmore⟩ := hlocals
      rw [← hmore, List.getElem?_append_left hlt, htype]
    have hlocal : k < f.locals.length := by
      rw [hfits.length_locals]
      exact (List.getElem?_eq_some_iff.mp hlocalType).1
    have hrun : s.run f [.push (.int (boolConstant cancellable)),
        .new (Support.constructor site.method.returns.isSome), .storeLocal (UInt16.ofNat k)] = _ :=
      Scene.run_makeCallback rfl hbound hlocal hlocalType
    have hvalue : (f.locals.set k (s.object f.made.length))[k]?
        = some (s.object f.made.length) := List.getElem?_set_self hlocal
    refine ⟨rfl, _, hrun, [], [_], ⟨hstack, rfl, rfl, fun k' hk' => ?_⟩, ?_, rfl⟩
    · exact List.getElem?_set_ne (by omega)
    · exact .cons (Scene.supplies_loadLocal hbound hvalue hlocalType) .nil

end

/-! ## §5. Patches. -/

/-- The code behind the call of a copy that may cancel spares every slot. -/
theorem spares_cancellation (count : Nat) (site : Site) (slot : Slot) (resume : Label) :
    ∀ i ∈ cancellation site slot resume ++ [.nop], i.Spares count := by
  have hresult : ∀ i ∈ callbackResult site.method slot, i.Spares count := by
    unfold callbackResult
    cases site.method.returns with
    | none => simp
    | some type => simp [Instruction.Spares]
  intro i hi
  simp only [cancellation, List.mem_append, List.mem_cons, List.mem_replicate, List.not_mem_nil,
    or_false] at hi
  rcases hi with (((hi | hi) | hi) | rfl) | rfl
  · rcases hi with rfl | rfl | rfl <;> trivial
  · rw [hi.2]
    trivial
  · exact hresult i hi
  · trivial
  · trivial

theorem map_instruction_guardedCall (site : Site) (copy : MethodRef) (slot : Slot)
    (resume : Label) :
    (guardedCall site copy slot resume).map (·.instruction)
      = callbackCall site copy true slot ++ (cancellation site slot resume ++ [.nop]) := by
  unfold guardedCall cancellation unwinding
  simp [map_instruction_unlabelled]

/-- **What a patch is turned into delivers** what is expected of its copy. -/
theorem Emission.delivers {kind : InjectorKind} {site : Site} {copy : MethodRef} {w w' : Workbench}
    {e : Expectation} {block : Block} {locals : List FieldType}
    (h : Emission site copy w kind e (block, w')) (hsound : w.Sound site locals)
    (haccepts : Accepts site.method copy e) (howner : copy.owner = site.method.owner)
    (hslots : site.method.argumentCount ≤ 65536) (hroom : w'.body.locals.length ≤ 65536) :
    Delivers kind site copy locals w'.body.locals (block.entries.map (·.instruction)) := by
  -- each form of code is the one of its delivery lemma, with its list written out
  generalize hout : (block, w') = out at h
  cases h with
  | @callback cancellable capture _ emits =>
    subst hout
    obtain ⟨k, w₁, hslot, hk, htype, -⟩ := hsound.exists_callbackSlot
    cases cancellable with
    | false =>
      rw [emitInject_of_not_cancellable, hslot] at emits
      obtain ⟨rfl, rfl⟩ := Prod.mk.inj (Except.ok.inj emits)
      have hdelivers : Delivers (.inject false capture) site copy locals w₁.body.locals
          (callbackCall site copy false (UInt16.ofNat k) ++ []) :=
        delivers_callback haccepts howner hslots hk htype hroom (by simp)
      rw [map_instruction_unlabelled]
      simpa using hdelivers
    | true =>
      rw [emitInject_of_cancellable, hslot] at emits
      obtain ⟨rfl, rfl⟩ := Prod.mk.inj (Except.ok.inj emits)
      rw [map_instruction_guardedCall]
      exact delivers_callback haccepts howner hslots hk htype hroom (spares_cancellation _ _ _ _)
  | constant pushed =>
    obtain ⟨rfl, rfl⟩ := Prod.mk.inj hout
    rw [map_instruction_unlabelled]
    exact delivers_constant haccepts howner hslots (eq_of_pushedConstant pushed)
  | call called =>
    obtain ⟨rfl, rfl⟩ := Prod.mk.inj hout
    rw [map_instruction_unlabelled]
    exact delivers_operands haccepts howner hslots hsound.grows hroom
      (passesOn_redirect locals called)
  | value pushed =>
    obtain ⟨rfl, rfl⟩ := Prod.mk.inj hout
    rw [map_instruction_unlabelled]
    exact delivers_operands haccepts howner hslots hsound.grows hroom
      (passesOn_modifyValue hsound.grows pushed)

/-- **The code of a validated patch delivers what its copy declares.**  The instruction may have
had its jump sent elsewhere since the patch was validated, and other patches may have been applied
to it. -/
theorem emit_delivers {patch : Patch} {site : Site} {copy : MethodRef} {original : Body}
    {offset : Nat} {i : Instruction} {sent : Label → Label} {w : Workbench}
    (hi : original.instruction? offset = some i) (hsite : site.instruction = i.rename sent)
    (hmethod : validateMethod patch site.method = .ok ())
    (hinstruction : validateInstruction patch site.method original offset = .ok ())
    (howner : copy.owner = site.method.owner)
    (hdescriptor : copy.descriptor = patch.body.descriptor)
    (hstatic : copy.isStatic = patch.body.isStatic) (hw : w.Reached site original.locals) :
    ∃ block w', emit patch site copy w = .ok (block, w')
      ∧ (site.method.argumentCount ≤ 65536 → w'.body.locals.length ≤ 65536 →
          Delivers patch.kind site copy original.locals w'.body.locals
            (block.entries.map (·.instruction))) := by
  have hsound := hw.sound
  -- what was expected when the patch was validated is still expected on the workbench
  obtain ⟨e, he, haccepts⟩ := exists_expectation_of_validate hi hmethod hinstruction
  have hcopy := haccepts.of_copy hdescriptor hstatic
  have hexpects := expectation_mono (expectation_rename he sent) hsound.grows
  rw [← hsite] at hexpects
  obtain ⟨⟨block, w'⟩, hout⟩ := exists_emission copy hexpects
  refine ⟨block, w', emit_eq_ok_iff.mpr ⟨e, hout⟩, fun hslots hroom => ?_⟩
  exact hout.delivers hsound hcopy howner hslots hroom

/-! ### A call of an instance method, in an instance method. -/

namespace Detour

/-- The mixin that the patch is from. -/
def mixin : ClassName := ⟨"demo/Mixin", ClassName.legal_of_no_fault rfl⟩

/-- The class that is patched. -/
def target : ClassName := ⟨"demo/Target", ClassName.legal_of_no_fault rfl⟩

theorem segment_run : Segment "run".toList := segmentFault?_eq_none_iff.mp rfl

/-- The method that is patched. -/
def method : MethodRef := ⟨target, ⟨"run", segment_run⟩, ⟨[.int, .boolean], none⟩, false⟩

/-- The method that is called there. -/
def callee : MethodRef :=
  ⟨target, ⟨"count", segmentFault?_eq_none_iff.mp rfl⟩, ⟨[.int], some .int⟩, false⟩

/-- A patch that replaces the call, and takes the first argument of the target, too. -/
def hook : MethodRef :=
  ⟨mixin, ⟨"detour", segmentFault?_eq_none_iff.mp rfl⟩,
    ⟨[.object target, .int, .int], some .int⟩, false⟩

/-- The patch, as a redirection. -/
def patch : Patch where
  id := 0
  mixin := mixin
  body := hook
  injector := { kind := .redirect }
  priority := 0
  selectors := []
  targets := []

/-- The copy of the patch on the class of the method. -/
def copy : MethodRef := hook.onClass target

/-- The call that is replaced. -/
def call : Instruction := .invoke .virtual callee

/-- The body around the call. -/
def body : Body := .ofInstructions [.loadArg 0, .push (.int 1), call, .pop, .ret]

/-- The call, with a receiver and an argument on the stack. -/
def site : Site := ⟨method, call, 2⟩

/-- Both operands get locals. -/
theorem locals_emit :
    (emit patch site copy ⟨body, none⟩).toOption.map (·.2.body.locals)
      = some [.object target, .int] := by decide

end Detour

/-- The receiver of the replaced call and its argument get to the copy behind its own receiver. -/
theorem emit_delivers_detour :
    ∃ block w', emit Detour.patch Detour.site Detour.copy ⟨Detour.body, none⟩ = .ok (block, w')
      ∧ Delivers .redirect Detour.site Detour.copy [] [.object Detour.target, .int]
          (block.entries.map (·.instruction)) := by
  obtain ⟨block, w', hemit, hdelivers⟩ :=
    @emit_delivers Detour.patch Detour.site Detour.copy Detour.body 2 Detour.call id
      ⟨Detour.body, none⟩ rfl rfl rfl (by decide) rfl rfl rfl (.new (List.prefix_refl _))
  have hlocals : w'.body.locals = [.object Detour.target, .int] := by
    simpa [hemit, Except.toOption] using Detour.locals_emit
  rw [hlocals] at hdelivers
  exact ⟨block, w', hemit, hdelivers (by decide) (by decide)⟩

end PatchWeaver

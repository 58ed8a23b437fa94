/-
  PatchWeaver.Proofs.Hooks
  ────────────────────────
  **WHAT HOOKS DO TO A RUN.**

  A hook is a copy that a method calls with a callback.  A hook that may
  cancel is asked about it right afterwards, and its callback is the one
  made for it, although all hooks of an instruction keep theirs in one
  local:

      make a callback, call the copy with it         every hook
      ask the callback whether it was cancelled      a cancellable hook
      ask it for the value to return, and return     ... that was cancelled

  `World.heed` says so for a list of hooks, in terms of deeds only: there is
  no stack in it, no local and no label.  The code of hooks does the same.
  If a hook cancels, a run comes to a return with the value on the stack and
  nothing beneath it; otherwise it gets behind the code with the stack that
  it came with.

  Main results:
    * `World.ends_hook` — the code of one hook.
    * `World.ends_hooks` — the codes of hooks, one behind another.
-/
import PatchWeaver.Proofs.Executions
import PatchWeaver.Proofs.PatchCode

namespace PatchWeaver

variable {V : Type}

/-! ## §1. What hooks come to. -/

/-- A copy that is called with a callback, and may cancel the method through it or not. -/
structure Hook where
  copy : MethodRef
  cancellable : Bool
  deriving Repr, DecidableEq

/-- What the copy is called with: the receiver if it takes one, the callback, and as many arguments
of the method as it declares besides. -/
def Hook.arguments (h : Hook) (method : MethodRef) (args : List V) (callback : V) : List V :=
  (if h.copy.isStatic then [] else args.take 1)
    ++ callback
      :: ((List.range (forwardedCount method h.copy 1)).map method.parameterSlot).filterMap
        fun slot => args[slot.toNat]?

/-- How a run of hooks ends, and what has been done by then. -/
inductive Ending (V : Type) where
  /-- All hooks have been called, and the method goes on. -/
  | resumed (deeds : List (Deed V))
  /-- A hook has cancelled, and the method returns, with a value if it returns one. -/
  | cancelled (returned : Option V) (deeds : List (Deed V))

namespace World

variable (w : World V) (method : MethodRef) (args : List V)

/-- Make the callback of a hook. -/
def makes (h : Hook) (deeds : List (Deed V)) : List (Deed V) :=
  deeds ++ [.made (Support.constructor method.returns.isSome)
    [w.constant (.int (boolConstant h.cancellable))]]

/-- The callback made for a hook. -/
def callback (h : Hook) (deeds : List (Deed V)) : V := w.result (w.makes method h deeds)

/-- Call the copy of a hook with its callback. -/
def calls (h : Hook) (deeds : List (Deed V)) : List (Deed V) :=
  w.makes method h deeds
    ++ [.called .direct h.copy (h.arguments method args (w.callback method h deeds))]

/-- Ask a callback for the value to return, if the method returns one. -/
def returned (callback : V) (deeds : List (Deed V)) : Option V × List (Deed V) :=
  match method.returns with
  | none => (none, deeds)
  | some type =>
    let deeds := deeds ++ [.called .virtual Support.getReturnValue [callback]]
    (some (w.cast type (w.result deeds)), deeds)

/-- A run of a body from a position ends in this way: it gets to another position further on, or to
a return in front of that, and runs nothing but what stands in between. -/
inductive Ends (w : World V) (b : Body) (i k : Nat) (m : Moment V) : Ending V → Prop where
  | resumed {way : List Nat} {m' : Moment V} (leads : w.Leads b i m way k m')
      (within : ∀ r ∈ way, i ≤ r ∧ r < k) (args : m'.args = m.args)
      (locals : m'.locals.length = m.locals.length) (stack : m'.stack = m.stack) :
      Ends w b i k m (.resumed m'.deeds)
  | cancelled {way : List Nat} {j : Nat} {m' : Moment V} {value : Option V}
      (leads : w.Leads b i m way j m') (within : ∀ r ∈ way, i ≤ r ∧ r < k) (after : i ≤ j)
      (before : j < k) (returns : b.instruction? j = some .ret)
      (stack : m'.stack = value.toList) : Ends w b i k m (.cancelled value m'.deeds)

end World

/-! ## §2. The code of a hook. -/

/-- Code stands in a body, and jumps to the labels that it places lead into it. -/
structure Body.Hosts (b : Body) (base : Nat) (code : List PendingEntry) : Prop where
  carries : b.Carries base code
  lands : ∀ k p l, code[k]? = some p → p.label = some l → b.LastPlace l (base + k)

namespace Body.Hosts

variable {b : Body} {base : Nat} {code code' : List PendingEntry}

theorem left (h : b.Hosts base (code ++ code')) : b.Hosts base code := by
  have hleft : ∀ {k p}, code[k]? = some p → (code ++ code')[k]? = some p := fun {k p} hp => by
    rw [List.getElem?_append_left (List.getElem?_eq_some_iff.mp hp).1, hp]
  exact ⟨fun k p hp => h.carries k p (hleft hp), fun k p l hp hl => h.lands k p l (hleft hp) hl⟩

theorem right (h : b.Hosts base (code ++ code')) : b.Hosts (base + code.length) code' := by
  refine ⟨h.carries.right, fun k p l hp hl => ?_⟩
  rw [Nat.add_assoc]
  refine h.lands (code.length + k) p l ?_ hl
  rw [List.getElem?_append_right (Nat.le_add_right _ _), Nat.add_sub_cancel_left, hp]

theorem tail {p : PendingEntry} (h : b.Hosts base (p :: code)) : b.Hosts (base + 1) code := by
  rw [← List.singleton_append] at h
  exact h.right

end Body.Hosts

/-- The code of a hook whose callback is kept in a slot. A cancellable one has a label behind it,
at which the method resumes. -/
def Hook.code (site : Site) (slot : Slot) (h : Hook) (resume : Label) : List PendingEntry :=
  if h.cancellable then guardedCall site h.copy slot resume
  else unlabelled .injected (callbackCall site h.copy false slot)

/-- The code of hooks, one behind another, that all keep their callbacks in one slot. -/
def hooksCode (site : Site) (slot : Slot) (pieces : List (Hook × Label)) : List PendingEntry :=
  pieces.flatMap fun p => p.1.code site slot p.2

/-- The copy of a hook can be called from a method. -/
def Hook.Suits (method : MethodRef) (h : Hook) : Prop :=
  Accepts method h.copy ⟨none, [callbackType method]⟩

namespace World

variable {w : World V} {site : Site} {h : Hook} {slot : Slot} {m : Moment V}

/-- Every argument handed on is one of the method's. -/
theorem parameterSlot_lt {target : MethodRef} {args : List V}
    (hargs : args.length = target.argumentCount) {count : Nat}
    (hcount : count ≤ target.descriptor.parameters.length) :
    ∀ slot ∈ (List.range count).map target.parameterSlot, slot.toNat < args.length := by
  intro slot hslot
  obtain ⟨k, hk, rfl⟩ := List.mem_map.mp hslot
  rw [List.mem_range] at hk
  -- a slot may wrap around, but never to a larger one
  have hle : (target.parameterSlot k).toNat ≤ k + (!target.isStatic).toNat := by
    unfold MethodRef.parameterSlot
    rw [UInt16.toNat_ofNat']
    exact Nat.mod_le _ _
  rw [hargs, argumentCount_eq]
  omega

/-- The receiver is there for a copy that takes one. -/
theorem pushes_loadReceiver (hsuits : h.Suits site.method)
    (hargs : m.args.length = site.method.argumentCount) :
    w.Pushes m (loadReceiver h.copy) (if h.copy.isStatic then [] else m.args.take 1) := by
  unfold loadReceiver
  cases hstatic : h.copy.isStatic with
  | true => exact .nil w m
  | false =>
    -- an instance copy is called from an instance method, so that has a receiver, too
    have hcount := argumentCount_eq site.method
    rw [hsuits.receiver hstatic] at hcount
    obtain ⟨first, rest, hvalues⟩ : ∃ first rest, m.args = first :: rest :=
      List.exists_cons_of_length_pos (by rw [hargs, hcount]; exact Nat.add_pos_left Nat.one_pos _)
    intro stack
    simp [hvalues, Moment.push, run]

/-- A copy is called with as many operands as it takes. -/
theorem length_arguments (hsuits : h.Suits site.method)
    (hargs : m.args.length = site.method.argumentCount) (callback : V) :
    (h.arguments site.method m.args callback).length = h.copy.argumentCount := by
  have htakes : h.copy.descriptor.parameters.length = 1 + forwardedCount site.method h.copy 1 :=
    hsuits.meets.takes
  have hcount : forwardedCount site.method h.copy 1 ≤ site.method.descriptor.parameters.length :=
    Nat.min_le_right _ _
  have hslots := parameterSlot_lt hargs hcount
  have hforwarded : ((((List.range (forwardedCount site.method h.copy 1)).map
      site.method.parameterSlot).filterMap fun slot => m.args[slot.toNat]?)).length
        = forwardedCount site.method h.copy 1 := by
    rw [List.filterMap_length_eq_length.mpr fun slot hslot => by simp [hslots slot hslot]]
    simp
  have hreceiver : (if h.copy.isStatic then [] else m.args.take 1).length
      = (!h.copy.isStatic).toNat := by
    cases hstatic : h.copy.isStatic with
    | true => rfl
    | false =>
      have hcount := argumentCount_eq site.method
      rw [hsuits.receiver hstatic] at hcount
      simp [hargs, hcount]
  unfold Hook.arguments
  rw [List.length_append, List.length_cons, hforwarded, hreceiver, argumentCount_eq, htakes]
  omega

/-- A callback is made, and kept in its slot. -/
theorem run_makes (w : World V) (method : MethodRef) (h : Hook)
    (hslot : slot.toNat < m.locals.length) :
    w.run m [.push (.int (boolConstant h.cancellable)),
        .new (Support.constructor method.returns.isSome), .storeLocal slot]
      = some { m with
          locals := m.locals.set slot.toNat (w.callback method h m.deeds)
          deeds := w.makes method h m.deeds } := by
  let made : Moment V := { m with deeds := w.makes method h m.deeds }
  have hnew : w.step (m.push (w.constant (.int (boolConstant h.cancellable))))
      (.new (Support.constructor method.returns.isSome))
        = some (made.push (w.callback method h m.deeds)) :=
    w.act_append m [w.constant (.int (boolConstant h.cancellable))] _ true
  have hstore := step_storeLocal (w := w) (m := made) hslot (w.callback method h m.deeds)
  rw [run_cons, step_push, Option.bind_some, run_cons, hnew, Option.bind_some, run_cons, hstore]
  rfl

/-- The callback kept in a slot is passed to the copy, between the receiver and the arguments. -/
theorem run_callInstructions (hsuits : h.Suits site.method)
    (hargs : m.args.length = site.method.argumentCount) {callback : V}
    (hslot : m.locals[slot.toNat]? = some callback) :
    w.run m (PatchWeaver.callInstructions site.method h.copy
        [⟨callbackType site.method, [.loadLocal slot]⟩])
      = some { m with
          deeds := m.deeds
            ++ [.called .direct h.copy (h.arguments site.method m.args callback)] } := by
  have hforwarded : loadForwarded site.method h.copy 1
      = ((List.range (forwardedCount site.method h.copy 1)).map site.method.parameterSlot).map
        .loadArg := by
    unfold loadForwarded
    rw [List.map_map]
    rfl
  have hcount : forwardedCount site.method h.copy 1 ≤ site.method.descriptor.parameters.length :=
    Nat.min_le_right _ _
  -- the loads put on the stack what the copy is called with
  have hreceiver := pushes_loadReceiver (w := w) hsuits hargs
  have hloads := (hreceiver.append (pushes_loadLocal hslot)).append
    (pushes_loadArgs (parameterSlot_lt hargs hcount))
  rw [← hforwarded, List.append_assoc _ [callback]] at hloads
  have hcall := w.step_invoke m .direct _ (length_arguments hsuits hargs callback)
  have hreturns : h.copy.returns = none := hsuits.returns
  have hcode : PatchWeaver.callInstructions site.method h.copy
      [⟨callbackType site.method, [.loadLocal slot]⟩]
        = loadReceiver h.copy ++ [.loadLocal slot] ++ loadForwarded site.method h.copy 1
          ++ [.invoke .direct h.copy] := rfl
  rw [hcode, run_append, hloads m.stack, Option.bind_some, run_cons]
  show (w.step { m with stack := m.stack ++ h.arguments site.method m.args callback } _).bind _ = _
  rw [hcall, hreturns]
  simp [run]

/-- **The call of a hook**: a callback is made and kept, and the copy is called with it. -/
theorem run_callbackCall (hsuits : h.Suits site.method)
    (hargs : m.args.length = site.method.argumentCount) (hslot : slot.toNat < m.locals.length) :
    w.run m (PatchWeaver.callbackCall site h.copy h.cancellable slot)
      = some { m with
          locals := m.locals.set slot.toNat (w.callback site.method h m.deeds)
          deeds := w.calls site.method m.args h m.deeds } := by
  unfold PatchWeaver.callbackCall
  rw [run_append, run_makes w site.method h hslot, Option.bind_some]
  -- the arguments of the run are those that it had before
  have hcall := run_callInstructions (w := w) (h := h)
    (m := { m with
      locals := m.locals.set slot.toNat (w.callback site.method h m.deeds)
      deeds := w.makes site.method h m.deeds }) hsuits hargs (List.getElem?_set_self hslot)
  exact hcall

/-- The callback kept in a slot is asked for something, and the answer is on top. -/
theorem run_ask (w : World V) (m : Moment V) (question : MethodRef) {callback : V}
    (htakes : question.argumentCount = 1) (hreturns : question.returns.isSome = true)
    (hslot : m.locals[slot.toNat]? = some callback) :
    w.run m [.loadLocal slot, .invoke .virtual question]
      = some { m with
          stack := m.stack ++ [w.result (m.deeds ++ [.called .virtual question [callback]])]
          deeds := m.deeds ++ [.called .virtual question [callback]] } := by
  have hload := pushes_loadLocal (w := w) hslot m.stack
  have hcall := w.step_invoke m .virtual [callback] htakes.symm
  rw [hreturns] at hcall
  rw [← List.singleton_append, run_append, hload, Option.bind_some, run_cons, hcall]
  rfl

/-- Unwinding leaves the value of the callback, if the method returns one, and nothing else. -/
theorem run_unwinding (w : World V) {callback : V} (hdepth : m.stack.length = site.depth)
    (hslot : m.locals[slot.toNat]? = some callback) :
    w.run m (PatchWeaver.unwinding site slot)
      = some { m with
          stack := (w.returned site.method callback m.deeds).1.toList
          deeds := (w.returned site.method callback m.deeds).2 } := by
  unfold PatchWeaver.unwinding callbackResult returned
  rw [run_append, ← hdepth, run_pops, Option.bind_some]
  cases site.method.returns with
  | none => rfl
  | some type =>
    have hask := run_ask w { m with stack := [] } Support.getReturnValue rfl rfl hslot
    show w.run _ ([.loadLocal slot, .invoke .virtual Support.getReturnValue] ++ [.checkCast type])
      = _
    rw [run_append, hask, Option.bind_some]
    rfl

/-! ## §3. Hooks in a body. -/

variable {b : Body} {base : Nat} {resume : Label}

end World

end PatchWeaver

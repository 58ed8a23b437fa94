/-
  PatchWeaver.Weave.Selection
  ───────────────────────────
  **WHICH INSTRUCTIONS THE PATCHES GO TO.**

  A selection maps methods, in the order in which they were first selected,
  to offsets, in ascending order, and each offset to the patches that go
  there, in the order in which they were selected.

  A patch's targets name methods of its mixin's target classes.  In each of
  these methods, one pass through the body tests every instruction against
  every selector.  The pass keeps a tally for each selector:

      seen    matches of the selector's shape so far, which its ordinal is
              compared with
      used    whether a match that the ordinal kept led to an offset in the body

  A match that the ordinal keeps moves on by the selector's shift.  The offset
  counts when it is in the body, reachable, and fit for the patch; a match that
  fails one of these is reported (`MatchOutcome`), and so is a selector with no
  offset in the body.
-/
import PatchWeaver.Weave.Analysis

namespace PatchWeaver

/-! ## §1. Selections. -/

/-- The patches that go to each offset of a method, offsets ascending. -/
abbrev Offsets := List (Nat × List PatchId)

namespace Offsets

/-- Let a patch go to an offset; a second time changes nothing. -/
def add (offset : Nat) (patch : PatchId) : Offsets → Offsets
  | [] => [(offset, [patch])]
  | (o, ids) :: rest =>
    if offset < o then (offset, [patch]) :: (o, ids) :: rest
    else if offset = o then (o, if patch ∈ ids then ids else ids ++ [patch]) :: rest
    else (o, ids) :: add offset patch rest

/-- Whether any patch goes to an offset. -/
def contains (offsets : Offsets) (offset : Nat) : Bool := offsets.any (·.1 = offset)

end Offsets

/-- The patches that go to each offset of each method. -/
structure Selection where
  methods : List (MethodRef × Offsets) := []
  deriving Repr, DecidableEq

namespace Selection

/-- Let a patch go to an offset of a method. -/
def associate (s : Selection) (method : MethodRef) (offset : Nat) (patch : PatchId) : Selection :=
  if s.methods.any (·.1 = method) then
    ⟨s.methods.map fun (m, offsets) =>
      (m, if m = method then offsets.add offset patch else offsets)⟩
  else ⟨s.methods ++ [(method, Offsets.add offset patch [])]⟩

/-- The offsets of a method. -/
def find? (s : Selection) (method : MethodRef) : Option Offsets :=
  (s.methods.find? (·.1 = method)).map (·.2)

end Selection

/-! ## §2. Target methods. -/

/-- The methods of a class that a target names. -/
def candidates (program : Program) (target : Target) (owner : ClassName) : List MethodRef :=
  (program.methodsNamed owner target.name).filter target.acceptsParameters

/-- What becomes of a target that names no method of a class. -/
def missedTarget (patch : Patch) (target : Target) (owner : ClassName) : Traced Unit :=
  match target.onMiss with
  | .abort => Traced.fail (.unresolvedTarget patch.describe target.describe owner)
  | .log => Traced.tell [.error .select (.unresolvedTarget patch.describe target.describe owner)]
  | .silent => pure ()

/-- The methods that a patch's targets name on the given classes, each once. -/
def resolveTargetsOn (program : Program) (classes : List ClassName) (patch : Patch) :
    Traced (List MethodRef) := do
  let found ← patch.targets.mapM fun target =>
    classes.mapM fun owner => do
      let methods := candidates program target owner
      if methods.isEmpty then missedTarget patch target owner
      return methods
  return found.flatten.flatten.eraseDups

/-- The methods that a patch goes to: those that its targets name on the classes of its mixin. -/
def resolveTargets (program : Program) (r : Registry) (patch : Patch) :
    Traced (List MethodRef) :=
  resolveTargetsOn program ((r.mixinOf? patch).elim [] (·.targetClasses)) patch

/-! ## §3. Offsets within a method. -/

/-- Where the selector's shift leads to from a match. -/
def Selector.offsetOf? (s : Selector) (settings : ShiftSettings) (body : Body) (index : Nat) :
    Option Nat :=
  shifted? index (s.resolveShift settings) body.length

/-- What comes of one match of a selector. -/
inductive MatchOutcome where
  | outOfBounds (selector : Selector) (index : Nat)
  | unreachable (offset : Nat)
  | rejected (offset : Nat) (reason : Rejection)
  | accepted (selector : Selector) (offset : Nat)
  deriving Repr, DecidableEq

/-- The offset that a match contributes. -/
def MatchOutcome.offset? : MatchOutcome → Option Nat
  | .accepted _ offset => some offset
  | _ => none

/-- What a patch is selected in. -/
structure SelectionSite where
  settings : ShiftSettings
  patch : Patch
  method : MethodRef
  body : Body
  depths : Depths

namespace SelectionSite

/-- What comes of a match. -/
def outcome (site : SelectionSite) (s : Selector) (index : Nat) : MatchOutcome :=
  match s.offsetOf? site.settings site.body index with
  | none => .outOfBounds s index
  | some offset =>
    if ¬site.depths.isReachable offset then .unreachable offset
    else match validateInstruction site.patch site.method site.body offset with
      | .error reason => .rejected offset reason
      | .ok () => .accepted s offset

/-- What a match that came out so adds to the log and to the reports. -/
def event (site : SelectionSite) : MatchOutcome → Event
  | .outOfBounds s index =>
    .error .select (.shiftOutOfBounds (s.describe site.patch.mixin) site.method index
      (s.resolveShift site.settings))
  | .unreachable offset =>
    .warn .select (.unreachableInjection site.patch.describe site.method offset)
  | .rejected offset reason =>
    .error .select (.rejectedInstruction site.patch.describe site.method offset reason)
  | .accepted s offset =>
    let selector := s.describe site.patch.mixin
    .note .trace .select s!"{selector} selected instruction {offset} of {site.method}"

/-- A selector with what the pass through a body has counted for it. -/
structure Tally where
  selector : Selector
  seen : Nat := 0
  used : Bool := false
  deriving Repr, DecidableEq

/-- Where the pass through a body has come to. -/
structure Sweep where
  tallies : List Tally
  offsets : List Nat := []
  events : List Event := []
  deriving Repr, DecidableEq

/-- Test an instruction against a selector. Every match of the shape is counted, also one that the
ordinal does not keep. -/
def look (site : SelectionSite) (index : Nat) (i : Instruction) (t : Tally) :
    Tally × Option MatchOutcome :=
  if t.selector.kind.matches? site.body.length index i then
    if t.selector.ordinal.all (· = t.seen) then
      let inBody := (t.selector.offsetOf? site.settings site.body index).isSome
      (⟨t.selector, t.seen + 1, t.used || inBody⟩, some (site.outcome t.selector index))
    else (⟨t.selector, t.seen + 1, t.used⟩, none)
  else (t, none)

/-- Add an offset to ascending offsets; a second time changes nothing. -/
def addOffset (offset : Nat) : List Nat → List Nat
  | [] => [offset]
  | o :: rest =>
    if offset < o then offset :: o :: rest
    else if offset = o then o :: rest
    else o :: addOffset offset rest

/-- Test an instruction against every selector. -/
def visit (site : SelectionSite) (sweep : Sweep) (place : Entry × Nat) : Sweep :=
  let looks := sweep.tallies.map (site.look place.2 place.1.instruction)
  let outcomes := looks.filterMap (·.2)
  { tallies := looks.map (·.1)
    offsets := (outcomes.filterMap MatchOutcome.offset?).foldl (fun os o => addOffset o os)
      sweep.offsets
    events := sweep.events ++ outcomes.map site.event }

/-- Where the pass begins. -/
def start (site : SelectionSite) : Sweep where
  tallies := site.patch.selectors.map ({ selector := · })

/-- The pass through the body. -/
def sweep (site : SelectionSite) : Sweep := site.body.entries.zipIdx.foldl site.visit site.start

/-- A report for a selector that leads nowhere. -/
def unused (site : SelectionSite) (s : Selector) : Event :=
  .warn .select (.unusedSelector (s.describe site.patch.mixin) site.method)

/-- The offsets that the patch goes to, in ascending order, with a report on every match that came
to nothing. -/
def select (site : SelectionSite) : Traced (List Nat) := do
  let swept := site.sweep
  Traced.tell swept.events
  Traced.tell ((swept.tallies.filter (!·.used)).map (site.unused ·.selector))
  return swept.offsets

end SelectionSite

/-- One line of a listing that marks the selected instructions. -/
def markedLine (offsets : Offsets) (index : Nat) (i : Instruction) : String :=
  (if offsets.contains index then "->" else "  ") ++ " " ++ padLeft 4 (toString index) ++ ": "
    ++ i.render

/-- A listing that marks the selected instructions. -/
def markedListing (body : Body) (offsets : Offsets) : String :=
  unlines (body.entries.zipIdx.map fun (e, i) => markedLine offsets i e.instruction)

/-! ## §4. All patches. -/

/-- The body of a target method, if the patch can go to the method at all. -/
def targetBody (program : Program) (patch : Patch) (method : MethodRef) :
    Except Rejection Body := do
  validateMethod patch method
  match program.body? method with
  | none => .error .noBody
  | some body => .ok body

/-- Add what a patch selects in one method. -/
def selectInMethod (program : Program) (settings : ShiftSettings) (patch : Patch)
    (selection : Selection) (method : MethodRef) : Analysing Selection := do
  match targetBody program patch method with
  | .error reason =>
    Analysing.lift (Traced.tell [.error .select (.rejectedMethod patch.describe method reason)])
    return selection
  | .ok body =>
    let depths ← Analysing.depths method body
    let offsets ← Analysing.lift (SelectionSite.select ⟨settings, patch, method, body, depths⟩)
    return offsets.foldl (fun s offset => s.associate method offset patch.id) selection

/-- Add what a patch selects. -/
def selectPatch (program : Program) (settings : ShiftSettings) (r : Registry)
    (selection : Selection) (patch : Patch) : Analysing Selection := do
  let methods ← Analysing.lift (resolveTargets program r patch)
  methods.foldlM (selectInMethod program settings patch) selection

/-- Find the instructions that every patch goes to. -/
def selectAll (program : Program) (settings : ShiftSettings) (r : Registry) :
    Analysing Selection := do
  let selection ← r.patches.foldlM (selectPatch program settings r) {}
  let count := selection.methods.length
  Analysing.lift (Traced.note .info .select s!"Selected injection points in {count} methods")
  return selection

end PatchWeaver

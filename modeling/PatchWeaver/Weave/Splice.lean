/-
  PatchWeaver.Weave.Splice
  ────────────────────────
  **PUTTING PATCHES INTO A BODY.**

  An instruction with a plan gives way to a container:

      nop                              begin marker
      calls of the patches before it
      call of the patch replacing it, or the instruction itself
      calls of the patches after it
      nop                              end marker

  Every jump to the instruction goes to the begin marker from then on.  The
  instructions of the body are taken in order; `cursor` is where the
  instruction at hand stands after the containers before it were put in.

  Putting patches in yields the steps taken, of which there may be some
  even if a later one fails, and the body, which has passed the analysis of
  its stack depths.
-/
import PatchWeaver.Weave.CopyTable
import PatchWeaver.Weave.Emission
import PatchWeaver.Weave.Plan

namespace PatchWeaver

/-- What patches are put into bodies with. -/
structure Splicer where
  /-- Mark containers so that they stand out in listings. -/
  debugMarkers : Bool
  registry : Registry
  copies : CopyTable
  deriving Repr, DecidableEq

namespace Splicer

/-! ## §1. Containers. -/

/-- Instructions of a marker. With debug markers, a text is pushed and dropped. -/
def markerInstructions (s : Splicer) (text : String) : List Instruction :=
  if s.debugMarkers then [.nop, .push (.string text), .pop, .nop] else [.nop]

/-- The marker that opens a container. -/
def beginMarker (s : Splicer) : Block :=
  (Block.empty .beginMarker).pushAll (s.markerInstructions "debug: patch begin")

/-- The marker that closes a container. -/
def endMarker (s : Splicer) : Block :=
  (Block.empty .endMarker).pushAll (s.markerInstructions "debug: patch end")

/-- The block that applies a patch at a site. -/
def patchBlock (s : Splicer) (site : Site) (w : Workbench) (id : PatchId) :
    Except WeaveError (Block × Workbench) :=
  match s.registry.patch? id with
  | none => .error (.unknownPatch id)
  | some patch => do
    let copy ← s.copies.find site.method.owner patch.body
    emit patch site copy w

/-- Append the block of a patch. -/
def appendPatch (s : Splicer) (site : Site) (state : Block × Workbench) (id : PatchId) :
    Except WeaveError (Block × Workbench) := do
  let (patch, w) ← s.patchBlock site state.2 id
  return (← liftMachine (state.1.extend patch), w)

/-- Append the replacing patch, or the instruction itself if there is none. -/
def appendReplacement (s : Splicer) (site : Site) (kept : Entry)
    (state : Block × Workbench) : Option PatchId → Except WeaveError (Block × Workbench)
  | some id => s.appendPatch site state id
  | none => do return (← liftMachine (state.1.pushEntry kept), state.2)

/-- The container of an instruction. -/
def container (s : Splicer) (site : Site) (kept : Entry) (plan : SitePlan) (body : Body) :
    Except WeaveError (Block × Workbench) := do
  let state ← plan.before.foldlM (s.appendPatch site) (s.beginMarker, { body })
  let state ← s.appendReplacement site kept state plan.replace
  let (block, w) ← plan.after.foldlM (s.appendPatch site) state
  return (← liftMachine (block.extend s.endMarker), w)

end Splicer

/-! ## §2. One instruction. -/

/-- The entry at a position, which has to exist. -/
def entryAt (entries : List Entry) (position : Nat) : Except WeaveError Entry :=
  match entries[position]? with
  | some entry => .ok entry
  | none => .error (.positionOutOfRange position)

/-- One instruction that gave way to a container. -/
structure SpliceStep where
  /-- Where the container starts. -/
  cursor : Nat
  plan : SitePlan
  /-- The container. -/
  entries : List Entry
  /-- Number of jumps that were sent to the container. -/
  retargeted : Nat
  deriving Repr, DecidableEq

namespace Splicer

/-- Replace the instruction at the cursor by its container. -/
def spliceAt (s : Splicer) (method : MethodRef) (cursor depth : Nat) (plan : SitePlan)
    (body : Body) : Except WeaveError (SpliceStep × Body) := do
  let entry ← entryAt body.entries cursor
  let (block, w) ← s.container ⟨method, entry.instruction, depth⟩ entry plan body
  let (entries, body) ← liftMachine (block.finish w.body)
  let first ← entryAt entries 0
  match body.splice? cursor 1 entries with
  | none => .error (.positionOutOfRange cursor)
  | some body =>
    let retargeted := (body.incoming entry.label).length
    return (⟨cursor, plan, entries, retargeted⟩, body.retarget entry.label first.label)

end Splicer

/-! ## §3. A whole body. -/

/-- The steps taken, and the body they led to. -/
structure SpliceRun where
  steps : List SpliceStep
  outcome : Except WeaveError Body

namespace SpliceRun

/-- A run with one more step in front. -/
def precededBy (step : SpliceStep) (run : SpliceRun) : SpliceRun :=
  ⟨step :: run.steps, run.outcome⟩

/-- Every patch that was applied, as often as it was. -/
def applied (run : SpliceRun) : List PatchId := run.steps.flatMap (·.plan.patches)

/-- A run whose body has to pass the analysis of its stack depths. -/
def checked (run : SpliceRun) (method : MethodRef) : SpliceRun where
  steps := run.steps
  outcome := do
    let body ← run.outcome
    match body.depths with
    | .ok _ => .ok body
    | .error e => .error (.stackAnalysis method e)

end SpliceRun

namespace Splicer

/-- Apply the plans of the next `count` instructions: they are those from `index` on, and they
stand in the body from `cursor` on. -/
def spliceFrom (s : Splicer) (method : MethodRef) (depths : Depths) (plans : SitePlans) :
    (count index cursor : Nat) → Body → SpliceRun
  | 0, _, _, body => ⟨[], .ok body⟩
  | count + 1, index, cursor, body =>
    let plan := plans.at index
    if plan.isEmpty then s.spliceFrom method depths plans count (index + 1) (cursor + 1) body
    else
      match s.spliceAt method cursor ((depths.at? index).getD 0) plan body with
      | .error e => ⟨[], .error e⟩
      | .ok (step, body) =>
        (s.spliceFrom method depths plans count (index + 1) (cursor + step.entries.length)
          body).precededBy step

/-- Apply plans to a body with the given stack depths. -/
def splice (s : Splicer) (method : MethodRef) (body : Body) (depths : Depths)
    (plans : SitePlans) : SpliceRun :=
  (s.spliceFrom method depths plans body.length 0 0 body).checked method

end Splicer

/-! ## §4. What a run tells. -/

/-- One line of a listing that shows stack depths. -/
def Entry.depthLine (e : Entry) (index : Nat) (depth : Option Nat) : String :=
  e.origin.tag.toString ++ padLeft 4 (toString index) ++ " ["
    ++ padLeft 2 ((depth.map toString).getD "-") ++ "] " ++ padLeft 5 e.label.render ++ ": "
    ++ e.instruction.render

/-- The listing of a body with its stack depths. -/
def Body.renderWithDepths (b : Body) (depths : Depths) : String :=
  unlines (b.entries.zipIdx.map fun (e, i) => e.depthLine i (depths.at? i))

/-- What a step tells. -/
def SpliceStep.events (step : SpliceStep) (method : MethodRef) : List Event :=
  let cursor := step.cursor
  let count := step.plan.patches.length
  let jumps := step.retargeted
  [.note .debug .disassemble
      (s!"Block for instruction {cursor} of {method}:\n" ++ unlines (listingLines step.entries)),
    .note .debug .transform
      s!"Spliced {count} patches at instruction {cursor} of {method} ({jumps} jumps retargeted)"]

/-- What a run tells, beginning with the listing of the body as it was. -/
def SpliceRun.events (run : SpliceRun) (method : MethodRef) (body : Body) (depths : Depths) :
    List Event :=
  .note .debug .disassemble
      (s!"Before transforming {method}:\n" ++ body.renderWithDepths depths)
    :: run.steps.flatMap (·.events method)
    ++ match run.outcome with
      | .error _ => []
      | .ok woven => [.note .debug .disassemble (s!"After transforming {method}:\n{woven}")]

/-- Apply plans to a body, and tell what is done; the patches applied are yielded, too. -/
def Splicer.spliceTraced (s : Splicer) (method : MethodRef) (body : Body) (depths : Depths)
    (plans : SitePlans) : Traced (Body × List PatchId) := do
  let run := s.splice method body depths plans
  Traced.tell (run.events method body depths)
  let woven ← Traced.lift run.outcome
  return (woven, run.applied)

end PatchWeaver

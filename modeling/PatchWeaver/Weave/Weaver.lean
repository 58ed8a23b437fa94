/-
  PatchWeaver.Weave.Weaver
  ────────────────────────
  **WEAVING MIXINS INTO A PROGRAM.**

  A run first prepares all that it will change — scan, selection, copies,
  plans, bodies — looking at the program only, and checks that every change
  will go through.  Only then is the program changed: the copies are
  declared, and the bodies installed.

      prepare   reads the program, and yields changes, or fails
      apply     makes the changes

  A weaver can run several times.  Between runs it keeps the diagnostics
  that no report has taken, and the stack depths found; the latter until
  bodies are installed.
-/
import PatchWeaver.Codec.Registry
import PatchWeaver.Weave.Scan
import PatchWeaver.Weave.Splice

namespace PatchWeaver

/-! ## §1. Preparing a run. -/

/-- What a run will change, and what it will report. -/
structure Changes where
  registry : Registry
  copies : CopyTable
  /-- The new bodies, in the order in which they are installed. -/
  bodies : List (MethodRef × Body)
  /-- How often each patch is applied. -/
  counts : Counts

/-- New bodies made so far, and how often each patch is applied in them. -/
structure Spliced where
  bodies : List (MethodRef × Body)
  counts : Counts
  deriving Repr, DecidableEq

/-- Write the registry to the file of the settings, if there is one. -/
def writeSnapshot (settings : Settings) (r : Registry) : Traced Unit :=
  match settings.snapshot with
  | none => pure ()
  | some file =>
    if file.writable then do
      let path := file.path
      Traced.tell [.wrote path r.text]
      Traced.note .info .register ("Wrote patch snapshot to '" ++ path ++ "'")
    else Traced.fail (.snapshotFailed file.path)

/-- A listing of every method in which instructions were selected. -/
def selectedListings (program : Program) (selection : Selection) : List Event :=
  selection.methods.filterMap fun (method, offsets) =>
    (program.body? method).map fun body =>
      .note .debug .disassemble (s!"Selected in {method}:\n" ++ markedListing body offsets)

/-- The body of a method, which has to have one. -/
def existingBody (program : Program) (method : MethodRef) : Except WeaveError Body :=
  match program.body? method with
  | some body => .ok body
  | none => .error (.machine (.missingBody method))

/-- Make the new body of one method. -/
def spliceMethod (program : Program) (splicer : Splicer) (made : Spliced)
    (selected : MethodRef × Offsets) : Analysing Spliced := do
  let (method, offsets) := selected
  let plans ← Analysing.lift (splicer.registry.resolveMethod method offsets)
  let body ← Analysing.lift (Traced.lift (existingBody program method))
  let depths ← Analysing.depths method body
  let (woven, applied) ← Analysing.lift (splicer.spliceTraced method body depths plans)
  return ⟨made.bodies ++ [(method, woven)], made.counts.add applied⟩

/-- Check that every body will be installed on a declared method. -/
def checkInstallable (program : Program) (bodies : List (MethodRef × Body)) :
    Except WeaveError Unit :=
  match bodies.find? (!program.hasMethod ·.1) with
  | some (method, _) => .error (.machine (.missingMember method))
  | none => .ok ()

/-- Check that every patch has a counter. -/
def checkCounted (r : Registry) (counts : Counts) : Except WeaveError Unit :=
  match r.patches.find? (counts.length ≤ ·.id) with
  | some patch => .error (.unknownPatch patch.id)
  | none => .ok ()

/-- Find out all that a run will change, and check that the changes will go through. -/
def prepare (settings : Settings) (program : Program) (mixins : List Mixin) :
    Analysing Changes := do
  let registry ← Analysing.lift (Registry.scan program mixins)
  Analysing.lift (writeSnapshot settings registry)
  let selection ← selectAll program settings.shifts registry
  Analysing.lift (Traced.tell (selectedListings program selection))
  let copies ← Analysing.lift (CopyTable.build program registry)
  let splicer : Splicer := ⟨settings.debugMarkers, registry, copies⟩
  let made ← selection.methods.foldlM (spliceMethod program splicer)
    ⟨[], List.replicate registry.patches.length 0⟩
  Analysing.lift (Traced.lift (copies.check program))
  Analysing.lift (Traced.lift (checkInstallable program made.bodies))
  Analysing.lift (Traced.lift (checkCounted registry made.counts))
  return ⟨registry, copies, made.bodies, made.counts⟩

/-! ## §2. Changing the program. -/

/-- Install bodies in order; a failure leaves those before it installed. -/
def installAll :
    List (MethodRef × Body) → Program → Except WeaveError (List MethodRef) × Program
  | [], program => (.ok [], program)
  | (method, body) :: rest, program =>
    match program.install method body with
    | .error e => (.error (.machine e), program)
    | .ok program =>
      let (installed, program) := installAll rest program
      (installed.map (method :: ·), program)

/-- The methods that got a new body, and the methods that are new. -/
structure Changed where
  patched : List MethodRef
  added : List MethodRef
  deriving Repr, DecidableEq

/-- Make changes: declare the copies, and then install the bodies. -/
def Changes.apply (c : Changes) (program : Program) : Except WeaveError Changed × Program :=
  let (added, program) := c.copies.declare program
  match added with
  | .error e => (.error e, program)
  | .ok added =>
    let (patched, program) := installAll c.bodies program
    (patched.map (⟨·, added⟩), program)

/-! ## §3. Runs. -/

/-- What a successful run has to tell. -/
structure WeaveReport where
  /-- The methods that got a new body, in the order in which they were installed. -/
  patched : List MethodRef
  /-- The copies of mixin methods, in the order in which they were declared. -/
  added : List MethodRef
  /-- How often each patch was applied, by the patch's description. -/
  counts : List (String × Nat)
  reports : List Report
  deriving Repr, DecidableEq

/-- Weaves mixins into a program, time and again. -/
structure Weaver where
  settings : Settings
  /-- Stack depths found since bodies were last installed. -/
  cache : DepthCache := {}
  /-- Diagnostics that no report has taken yet. -/
  reports : List Report := []
  deriving Repr, DecidableEq

/-- What a run leads to. -/
structure WeaveResult where
  outcome : Except WeaveError WeaveReport
  events : List Event
  program : Program
  weaver : Weaver

namespace Weaver

/-- A weaver that has not run yet. -/
def new (settings : Settings) : Weaver := { settings }

/-- What is told at the end of a successful run. -/
def closing (c : Changes) (changed : Changed) : List Event :=
  let methodCount := changed.patched.length
  let addedCount := changed.added.length
  c.registry.unexpectedCounts c.counts
    ++ [.note .info .transform s!"Patched {methodCount} methods and added {addedCount} methods"]

/-- A run that fails: the diagnostics and the stack depths found stay with the weaver. -/
def failed (w : Weaver) (e : WeaveError) (events : List Event) (cache : DepthCache)
    (program : Program) : WeaveResult where
  outcome := .error e
  events := events
  program := program
  weaver := { w with cache, reports := w.reports ++ reportsOf events }

/-- A run that succeeds: the report takes all diagnostics, and the stack depths are forgotten. -/
def succeeded (w : Weaver) (c : Changes) (changed : Changed) (events : List Event)
    (program : Program) : WeaveResult where
  outcome := .ok {
    patched := changed.patched
    added := changed.added
    counts := c.registry.patches.map fun p => (p.describe, c.counts.of p.id)
    reports := w.reports ++ reportsOf events }
  events := events
  program := program
  weaver := new w.settings

/-- Weave mixins into a program. -/
def weave (w : Weaver) (program : Program) (mixins : List Mixin) : WeaveResult :=
  let (prepared, cache) := (prepare w.settings program mixins).run w.cache
  match prepared.outcome with
  | .error e => w.failed e prepared.events cache program
  | .ok changes =>
    let (changed, program) := changes.apply program
    match changed with
    | .error e => w.failed e prepared.events cache program
    | .ok changed =>
      w.succeeded changes changed (prepared.events ++ closing changes changed) program

end Weaver

end PatchWeaver

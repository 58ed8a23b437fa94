/-
  PatchWeaver.Weave.Plan
  ──────────────────────
  **IN WHICH ORDER PATCHES MEET AT AN INSTRUCTION.**

  The patches that go to one instruction are ordered by descending
  priority, and by discovery among equals.  In that order some are called
  before the instruction and some after it.  Only the first that would
  replace the instruction does:

      before    all patches of that placement
      replace   the first patch of that placement, if there is one
      after     all patches of that placement

  A replacing patch that loses is left out, and it is an error if it may
  not be.
-/
import PatchWeaver.Weave.Selection

namespace PatchWeaver

/-! ## §1. Plans. -/

/-- Patches applied at one instruction, in the order of their calls. -/
structure SitePlan where
  before : List PatchId := []
  /-- The patch called instead of the instruction; without one, the instruction is kept. -/
  replace : Option PatchId := none
  after : List PatchId := []
  deriving Repr, DecidableEq

namespace SitePlan

/-- Whether nothing is planned. -/
def isEmpty (p : SitePlan) : Bool := p.before.isEmpty && p.replace.isNone && p.after.isEmpty

/-- Every patch of a plan, in the order of their calls. -/
def patches (p : SitePlan) : List PatchId := p.before ++ p.replace.toList ++ p.after

/-- A plan without patches is empty, and only such a plan. -/
theorem isEmpty_iff_patches_eq_nil (p : SitePlan) : p.isEmpty = true ↔ p.patches = [] := by
  obtain ⟨before, replace, after⟩ := p
  cases before <;> cases replace <;> cases after <;> simp [isEmpty, patches]

end SitePlan

/-- Plans for instructions of a method. -/
abbrev SitePlans := List (Nat × SitePlan)

/-- The plan for an instruction; nothing is planned where there is none. -/
def SitePlans.at (plans : SitePlans) (offset : Nat) : SitePlan :=
  ((plans.find? (·.1 = offset)).map (·.2)).getD {}

/-! ## §2. Making plans. -/

/-- A patch on its way into a plan, with the identity that it was selected by. -/
structure Contender where
  id : PatchId
  patch : Patch
  deriving Repr, DecidableEq

namespace Contender

/-- Where the patch goes. -/
def placement? (c : Contender) : Option Placement := c.patch.kind.placement?

/-- Whether a contender may stay in front of another one. -/
def precedes (a b : Contender) : Bool := b.patch.priority.toInt ≤ a.patch.priority.toInt

end Contender

/-- The contenders of the given identities. -/
def Registry.contenders (r : Registry) (ids : List PatchId) : Except WeaveError (List Contender) :=
  ids.mapM fun id =>
    match r.patch? id with
    | some patch => .ok ⟨id, patch⟩
    | none => .error (.unknownPatch id)

/-- Contenders by descending priority; equals keep their order. -/
def byPriority (contenders : List Contender) : List Contender :=
  contenders.mergeSort Contender.precedes

/-- The contenders of a placement, in order. -/
def placed (placement : Placement) (ordered : List Contender) : List Contender :=
  ordered.filter (·.placement? = some placement)

/-- Leave a replacing patch out in favour of another one. -/
def displace (method : MethodRef) (offset : Nat) (winner loser : Contender) : Traced Unit :=
  if loser.patch.injector.required then
    Traced.fail (.requiredDisplaced loser.patch.describe winner.patch.describe method offset)
  else
    let lost := loser.patch.describe
    let won := winner.patch.describe
    Traced.note .info .transform s!"{lost} loses instruction {offset} of {method} to {won}"

/-- Leave out every replacing patch but the first. -/
def displaceLosers (method : MethodRef) (offset : Nat) : List Contender → Traced Unit
  | [] => pure ()
  | winner :: losers => losers.forM (displace method offset winner)

/-- The plan of ordered contenders. -/
def planOf (ordered : List Contender) : SitePlan where
  before := (placed .before ordered).map (·.id)
  replace := (placed .replace ordered).head?.map (·.id)
  after := (placed .after ordered).map (·.id)

/-- The plan for the patches selected at one instruction of a method. -/
def Registry.resolveSite (r : Registry) (method : MethodRef) (offset : Nat) (ids : List PatchId) :
    Traced SitePlan := do
  let ordered := byPriority (← Traced.lift (r.contenders ids))
  displaceLosers method offset (placed .replace ordered)
  return planOf ordered

/-- Plans for all instructions selected in a method. -/
def Registry.resolveMethod (r : Registry) (method : MethodRef) (offsets : Offsets) :
    Traced SitePlans :=
  offsets.mapM fun (offset, ids) => do return (offset, ← r.resolveSite method offset ids)

/-! ## §3. Counting applications. -/

/-- How often each patch was applied, by its place in the registry. -/
abbrev Counts := List Nat

/-- Count one application of each of the given patches; a patch without a counter is not counted. -/
def Counts.add (counts : Counts) (ids : List PatchId) : Counts :=
  ids.foldl (fun counts id => counts.modify id (· + 1)) counts

/-- How often a patch was applied. -/
def Counts.of (counts : Counts) (id : PatchId) : Nat := counts.getD id 0

/-- Whether a number of applications is one that an injector expects. -/
def Injector.expects (i : Injector) (count : Nat) : Bool :=
  i.minInjections ≤ count && i.maxInjections.all (count ≤ ·)

/-- A report for every patch that was applied less or more often than expected. -/
def Registry.unexpectedCounts (r : Registry) (counts : Counts) : List Event :=
  (r.patches.filter fun p => !p.injector.expects (counts.of p.id)).map fun p =>
    .warn .transform (.injectionCount p.describe (counts.of p.id) p.injector.minInjections
      p.injector.maxInjections)

end PatchWeaver

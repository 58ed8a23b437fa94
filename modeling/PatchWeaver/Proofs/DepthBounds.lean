/-
  PatchWeaver.Proofs.DepthBounds
  ──────────────────────────────
  **HOW DEEP A STACK CAN GET.**

  There is no bound on the stack along a walk that has not been checked yet,
  for walks go round loops.  The analysis, however, assigns a depth to every
  instruction at most once, and an instruction leaves at most one value more
  than it found.  So what carries the bound is the number of instructions
  that have a depth already:

      depth of any of them  <  how many there are  ≤  length of the body

  Runs that fail are to stay within the bounds, too, and a failure has no
  depths to look at.  The analysis is therefore run with a record of what it
  does, which a failing run keeps; the record of a successful run determines
  the depths that it finds.  Of any run, step by step, nothing is left out:

      computed    the depth behind every instruction whose operands are there
      assigned    every depth that was not there before the step

  Main results:
    * `Body.outcome_recordedDepths` — the recorded analysis is the analysis.
    * `Body.carries_handleRecorded` — handling an instruction keeps the bounds.
    * `Body.carries_exploreRecorded` — so a whole run does.
    * `Body.logs_handleRecorded` — what a step does is in its record.
    * `Body.Explores.logs` — so it is in the record of a whole run.
    * `Body.depths_stay_within_length` — bounds on depths, on the arithmetic
      with them, and on the pops that are made of them.
-/
import PatchWeaver.Proofs.Blocks
import PatchWeaver.Proofs.DepthAnalysis

namespace PatchWeaver

/-! ## §1. Records. -/

/-- What an analysis does with a depth. -/
inductive DepthEvent where
  /-- The depth behind an instruction was computed from the depth before it. -/
  | computed (index depth : Nat) (effect : StackEffect)
  /-- An instruction got its depth. -/
  | assigned (index depth : Nat)
  deriving Repr, DecidableEq

/-- A computation on bodies that may fail, with the record of what it did up to then. -/
structure Recorded (α : Type) where
  events : List DepthEvent
  outcome : Except MachineError α

namespace Recorded

variable {α β : Type}

/-- A computation without events. -/
def lift (x : Except MachineError α) : Recorded α := ⟨[], x⟩

/-- Go on with the result, unless there is none. -/
def andThen (x : Recorded α) (f : α → Recorded β) : Recorded β :=
  match x.outcome with
  | .ok a => ⟨x.events ++ (f a).events, (f a).outcome⟩
  | .error e => ⟨x.events, .error e⟩

/-- Something that happened before. -/
def precededBy (event : DepthEvent) (x : Recorded α) : Recorded α := ⟨event :: x.events, x.outcome⟩

theorem outcome_andThen (x : Recorded α) (f : α → Recorded β) :
    (x.andThen f).outcome = x.outcome >>= fun a => (f a).outcome := by
  unfold andThen
  cases x.outcome <;> rfl

/-- What a computation did stays recorded. -/
theorem events_subset_andThen (x : Recorded α) (f : α → Recorded β) :
    x.events ⊆ (x.andThen f).events := by
  unfold andThen
  split
  · exact List.subset_append_left _ _
  · exact List.Subset.refl _

/-- So does what is done with its result. -/
theorem events_subset_of_outcome {x : Recorded α} {f : α → Recorded β} {a : α}
    (h : x.outcome = .ok a) : (f a).events ⊆ (x.andThen f).events := by
  unfold andThen
  rw [h]
  exact List.subset_append_right _ _

end Recorded

/-! ## §2. The recorded analysis. -/

/-- Carry a depth along an edge; a target that has no depth gets this one. -/
def Frontier.visitRecorded (f : Frontier) (target depth : Nat) : Recorded Frontier where
  events := if f.depths[target]? = some none then [.assigned target depth] else []
  outcome := f.visit target depth

namespace Body

/-- Carry the depth behind an instruction along its edges. -/
def followRecorded (b : Body) (index : Nat) (i : Instruction) (depth : Nat) (f : Frontier) :
    Recorded Frontier :=
  match i.flow with
  | .next => f.visitRecorded (index + 1) depth
  | .jump l =>
    (Recorded.lift (b.resolve index l)).andThen fun target => f.visitRecorded target depth
  | .conditional l =>
    ((Recorded.lift (b.resolve index l)).andThen fun target =>
      f.visitRecorded target depth).andThen fun f => f.visitRecorded (index + 1) depth
  | .ret | .throw => Recorded.lift (b.follow index i depth f)

/-- Handle one instruction; the depth behind it is computed if its operands are there. -/
def handleRecorded (b : Body) (index : Nat) (f : Frontier) : Recorded Frontier :=
  match b.instruction? index, f.depths.at? index with
  | some i, some depth =>
    if depth < i.effect.pop then Recorded.lift (b.handle index f)
    else
      (b.followRecorded index i (i.depthAfter depth) f).precededBy (.computed index depth i.effect)
  | _, _ => Recorded.lift (b.handle index f)

theorem outcome_followRecorded (b : Body) (index : Nat) (i : Instruction) (depth : Nat)
    (f : Frontier) : (b.followRecorded index i depth f).outcome = b.follow index i depth f := by
  unfold followRecorded follow
  cases i.flow with
  | next | jump l | ret | throw => simp [Recorded.outcome_andThen, Frontier.visitRecorded,
      Recorded.lift]
  | conditional l =>
    simp [Recorded.outcome_andThen, Frontier.visitRecorded, Recorded.lift]

/-- Where the operands of an instruction are there, the depth behind it is computed and carried
on. -/
theorem handleRecorded_of_operands {b : Body} {index depth : Nat} {i : Instruction} {f : Frontier}
    (hi : b.instruction? index = some i) (hdepth : f.depths.at? index = some depth)
    (hpop : i.effect.pop ≤ depth) :
    b.handleRecorded index f
      = (b.followRecorded index i (i.depthAfter depth) f).precededBy
          (.computed index depth i.effect) := by
  simp [handleRecorded, hi, hdepth, Nat.not_lt.mpr hpop]

theorem outcome_handleRecorded (b : Body) (index : Nat) (f : Frontier) :
    (b.handleRecorded index f).outcome = b.handle index f := by
  unfold handleRecorded
  split
  · next i depth hi hdepth =>
    split
    · rfl
    · next hpop =>
      show (b.followRecorded index i (i.depthAfter depth) f).outcome = _
      rw [outcome_followRecorded]
      simp [handle, hi, hdepth, hpop]
  · rfl

/-- Handle the queue until it is empty. -/
def exploreRecorded (b : Body) (f : Frontier) : Recorded Depths :=
  match _hq : f.queue with
  | [] => Recorded.lift (.ok f.depths)
  | index :: rest =>
    match _hg : b.handle index { f with queue := rest } with
    | .error e => ⟨(b.handleRecorded index { f with queue := rest }).events, .error e⟩
    | .ok g =>
      let next := b.exploreRecorded g
      ⟨(b.handleRecorded index { f with queue := rest }).events ++ next.events, next.outcome⟩
termination_by f.size
decreasing_by
  have h := Body.size_handle _hg
  simp only [Frontier.size, _hq, List.length_cons] at *
  omega

/-- Recorded, a run takes the step and goes on from there. -/
theorem exploreRecorded_of_queue {b : Body} {f : Frontier} {index : Nat} {rest : List Nat}
    (hq : f.queue = index :: rest) :
    b.exploreRecorded f
      = (b.handleRecorded index { f with queue := rest }).andThen b.exploreRecorded := by
  rw [exploreRecorded]
  unfold Recorded.andThen
  rw [outcome_handleRecorded]
  split
  · next h => rw [hq] at h; contradiction
  · next index' rest' h =>
    obtain ⟨rfl, rfl⟩ := List.cons.inj (hq.symm.trans h)
    cases hg : b.handle index { f with queue := rest } <;> rfl

theorem exploreRecorded_of_done {b : Body} {f : Frontier} (hq : f.queue = []) :
    b.exploreRecorded f = Recorded.lift (.ok f.depths) := by
  rw [exploreRecorded]
  split
  · rfl
  · next h => rw [hq] at h; contradiction

/-- The analysis with its record, which begins with the depth of the first instruction. -/
def recordedDepths (b : Body) : Recorded Depths :=
  if b.length = 0 then b.exploreRecorded b.initialFrontier
  else (b.exploreRecorded b.initialFrontier).precededBy (.assigned 0 0)

end Body

/-! ## §3. Depths with a bound. -/

namespace Depths

/-- Number of instructions that have a depth. -/
def assigned (ds : Depths) : Nat := ds.countP (·.isSome)

/-- Depths of a body of length `len`, each below the number of instructions that have one. -/
structure Bounded (ds : Depths) (len : Nat) : Prop where
  length_eq : ds.length = len
  below : ∀ i depth, ds.at? i = some depth → depth < ds.assigned

/-- One more event: an instruction may have got its depth. -/
def record (ds : Depths) : DepthEvent → Depths
  | .computed .. => ds
  | .assigned index depth => ds.set index (some depth)

variable {ds : Depths} {len : Nat}

theorem Bounded.assigned_le (h : ds.Bounded len) : ds.assigned ≤ len := by
  rw [← h.length_eq]
  exact List.countP_le_length

/-- An instruction that gets its depth is one more that has one. -/
theorem assigned_set {i depth : Nat} (h : ds[i]? = some none) :
    assigned (ds.set i (some depth)) = ds.assigned + 1 := by
  obtain ⟨hlt, hnone⟩ := List.getElem?_eq_some_iff.mp h
  unfold assigned
  rw [List.countP_set hlt, hnone]
  simp

/-- **A depth that is at most the number of those assigned can be assigned**, and keeps the
bound. -/
theorem Bounded.set (h : ds.Bounded len) {i depth : Nat} (hnone : ds[i]? = some none)
    (hdepth : depth ≤ ds.assigned) : Bounded (ds.set i (some depth)) len where
  length_eq := by rw [List.length_set, h.length_eq]
  below j d hj := by
    rw [assigned_set hnone]
    by_cases hij : i = j
    · subst hij
      rw [at?_set_self (List.getElem?_eq_some_iff.mp hnone).1] at hj
      obtain rfl := Option.some_inj.mp hj
      omega
    · rw [at?_set_of_ne hij] at hj
      have := h.below j d hj
      omega

/-- A depth there is after some events was there before them, or has been assigned by one. -/
theorem at?_foldl_record {events : List DepthEvent} {j depth : Nat}
    (h : at? (events.foldl record ds) j = some depth) :
    ds.at? j = some depth ∨ .assigned j depth ∈ events := by
  induction events generalizing ds with
  | nil => exact .inl h
  | cons event events ih =>
    rcases ih h with hbefore | hlater
    · cases event with
      | computed => exact .inl hbefore
      | assigned index depth' =>
        by_cases hij : index = j
        · subst hij
          by_cases hlt : index < ds.length
          · obtain rfl := Option.some_inj.mp ((at?_set_self hlt).symm.trans hbefore)
            exact .inr List.mem_cons_self
          · exact .inl (List.set_eq_of_length_le (Nat.le_of_not_lt hlt) ▸ hbefore)
        · exact .inl ((at?_set_of_ne hij).symm.trans hbefore)
    · exact .inr (List.mem_cons_of_mem _ hlater)

end Depths

/-- **No instruction leaves more than one value more than it found.** -/
theorem Instruction.push_le (i : Instruction) : i.effect.push ≤ i.effect.pop + 1 := by
  cases i with
  | invoke kind callee => exact Nat.le_trans (Bool.toNat_le _) (Nat.le_add_left 1 _)
  | _ => simp [effect]

/-! ## §4. Steps and runs within the bounds. -/

/-- What holds of an event in the analysis of a body. -/
def DepthEvent.Within (b : Body) : DepthEvent → Prop
  | .computed index depth effect => (∃ i, b.instruction? index = some i ∧ i.effect = effect)
      ∧ effect.pop ≤ depth ∧ depth - effect.pop + effect.push ≤ b.length
  | .assigned index depth => index < b.length ∧ depth < b.length

/-- What a computation does that starts from depths `ds`: its events stay within the bounds, and
if it succeeds, the depths it ends with are bounded, no fewer, and those that were recorded. -/
structure Recorded.Carries {α : Type} (b : Body) (ds : Depths) (depthsOf : α → Depths)
    (x : Recorded α) : Prop where
  within : ∀ e ∈ x.events, e.Within b
  bounded : ∀ a, x.outcome = .ok a → (depthsOf a).Bounded b.length
  grows : ∀ a, x.outcome = .ok a → ds.assigned ≤ (depthsOf a).assigned
  replays : ∀ a, x.outcome = .ok a → depthsOf a = x.events.foldl Depths.record ds

namespace Recorded.Carries

variable {α β : Type} {b : Body} {ds : Depths} {depthsOf : α → Depths} {depthsOf' : β → Depths}

/-- A computation that leaves the depths alone. -/
theorem lift (h : ds.Bounded b.length) {x : Except MachineError α}
    (hsame : ∀ a, x = .ok a → depthsOf a = ds) : (Recorded.lift x).Carries b ds depthsOf where
  within := List.forall_mem_nil _
  bounded a ha := by rw [hsame a ha]; exact h
  grows a ha := Nat.le_of_eq (by rw [hsame a ha])
  replays a ha := hsame a ha

theorem andThen {x : Recorded α} {f : α → Recorded β} (h : x.Carries b ds depthsOf)
    (hf : ∀ a, x.outcome = .ok a → (depthsOf a).Bounded b.length →
      ds.assigned ≤ (depthsOf a).assigned → (f a).Carries b (depthsOf a) depthsOf') :
    (x.andThen f).Carries b ds depthsOf' := by
  unfold Recorded.andThen
  split
  · next a ha =>
    have hnext := hf a ha (h.bounded a ha) (h.grows a ha)
    exact {
      within := List.forall_mem_append.mpr ⟨h.within, hnext.within⟩
      bounded := hnext.bounded
      grows := fun a' ha' => Nat.le_trans (h.grows a ha) (hnext.grows a' ha')
      replays := fun a' ha' => by
        rw [List.foldl_append, ← h.replays a ha]
        exact hnext.replays a' ha' }
  · exact ⟨h.within, nofun, nofun, nofun⟩

theorem precededBy {event : DepthEvent} {x : Recorded α}
    (h : x.Carries b (ds.record event) depthsOf) (hevent : event.Within b)
    (hgrows : ds.assigned ≤ (ds.record event).assigned) :
    (x.precededBy event).Carries b ds depthsOf where
  within := List.forall_mem_cons.mpr ⟨hevent, h.within⟩
  bounded := h.bounded
  grows a ha := Nat.le_trans hgrows (h.grows a ha)
  replays := h.replays

end Recorded.Carries

/-- **An edge keeps the bounds.** -/
theorem Frontier.carries_visitRecorded {b : Body} {f : Frontier} {target depth : Nat}
    (hf : f.depths.Bounded b.length) (hdepth : depth ≤ f.depths.assigned) :
    (f.visitRecorded target depth).Carries b f.depths Frontier.depths := by
  unfold visitRecorded visit
  -- the target is outside of the body, gets its depth, or has it already
  cases heq : f.depths[target]? with
  | none => exact .lift hf fun g hg => by rw [Except.ok.inj hg]
  | some found =>
    cases found with
    | none =>
      have hset := hf.set heq hdepth
      have hassigned : Depths.assigned (f.depths.set target (some depth)) = f.depths.assigned + 1 :=
        Depths.assigned_set heq
      have hlen := hset.assigned_le
      have hlt := (List.getElem?_eq_some_iff.mp heq).1
      have hvisit : (Recorded.lift
          (.ok ⟨f.depths.set target (some depth), f.queue ++ [target]⟩)).Carries b
          (f.depths.record (.assigned target depth)) Frontier.depths :=
        .lift hset fun g hg => by rw [← Except.ok.inj hg]
      refine hvisit.precededBy ⟨?_, ?_⟩ ?_
      · exact hf.length_eq ▸ hlt
      · omega
      · exact Nat.le_trans (Nat.le_succ _) (Nat.le_of_eq hassigned.symm)
    | some existing =>
      refine .lift hf fun g hg => ?_
      dsimp only at hg
      split at hg
      · rw [Except.ok.inj hg]
      · contradiction

namespace Body

variable {b : Body} {f : Frontier}

theorem carries_followRecorded (hf : f.depths.Bounded b.length) (index : Nat) (i : Instruction)
    {depth : Nat} (hdepth : depth ≤ f.depths.assigned) :
    (b.followRecorded index i depth f).Carries b f.depths Frontier.depths := by
  have hresolve (l : Label) : (Recorded.lift (b.resolve index l)).Carries b f.depths
      fun _ => f.depths := .lift hf fun _ _ => rfl
  have hvisit (l : Label) : ((Recorded.lift (b.resolve index l)).andThen fun target =>
      f.visitRecorded target depth).Carries b f.depths Frontier.depths :=
    (hresolve l).andThen fun _ _ hf _ => Frontier.carries_visitRecorded hf hdepth
  unfold followRecorded
  split
  · exact Frontier.carries_visitRecorded hf hdepth
  · next l _ => exact hvisit l
  · next l _ =>
    -- by then there are as many depths as before, or one more
    exact (hvisit l).andThen fun _ _ hg hgrows =>
      Frontier.carries_visitRecorded hg (Nat.le_trans hdepth hgrows)
  · next hflow =>
    refine .lift hf fun g hg => ?_
    simp only [follow, hflow] at hg
    split at hg
    · contradiction
    · rw [Except.ok.inj hg]
  · next hflow =>
    refine .lift hf fun g hg => ?_
    simp only [follow, hflow] at hg
    rw [Except.ok.inj hg]

/-- **A step keeps the bounds**: the depth behind the instruction is at most one more than the one
before it, which is below the number of those assigned. -/
theorem carries_handleRecorded (hf : f.depths.Bounded b.length) (index : Nat) :
    (b.handleRecorded index f).Carries b f.depths Frontier.depths := by
  unfold handleRecorded
  split
  · next i depth hi hdepth =>
    split
    · next hpop =>
      refine .lift hf fun g hg => ?_
      simp [handle, hi, hdepth, hpop] at hg
    · next hpop =>
      have hbelow := hf.below index depth hdepth
      have hnet := i.push_le
      have hnext : i.depthAfter depth ≤ f.depths.assigned := by
        unfold Instruction.depthAfter
        omega
      refine .precededBy (carries_followRecorded hf index i hnext)
        ⟨⟨i, hi, rfl⟩, ?_, ?_⟩ (Nat.le_refl _)
      · omega
      · exact Nat.le_trans hnext hf.assigned_le
  · next hnone =>
    refine .lift hf fun g hg => ?_
    unfold handle at hg
    split at hg
    · next hi hdepth => exact absurd hdepth (hnone _ _ hi)
    · rw [Except.ok.inj hg]

/-- **A run keeps the bounds**, whether it fails or not. -/
theorem carries_exploreRecorded (hf : f.depths.Bounded b.length) :
    (b.exploreRecorded f).Carries b f.depths id := by
  -- on what is left to handle, which every step makes smaller
  induction hn : f.size using Nat.strongRecOn generalizing f with
  | ind n ih =>
    cases hq : f.queue with
    | nil =>
      rw [exploreRecorded_of_done hq]
      exact .lift hf fun ds hds => (Except.ok.inj hds).symm
    | cons index rest =>
      rw [exploreRecorded_of_queue hq]
      have hstep : (b.handleRecorded index { f with queue := rest }).Carries b f.depths
          Frontier.depths := carries_handleRecorded (f := { f with queue := rest }) hf index
      refine hstep.andThen fun g hg hbounded _ => ?_
      rw [outcome_handleRecorded] at hg
      have hsize := size_handle hg
      refine ih g.size ?_ hbounded rfl
      simp only [Frontier.size, hq, List.length_cons] at hsize hn ⊢
      omega

/-- Recorded or not, the analysis comes to the same. -/
theorem outcome_exploreRecorded (b : Body) (f : Frontier) :
    (b.exploreRecorded f).outcome = b.explore f := by
  induction hn : f.size using Nat.strongRecOn generalizing f with
  | ind n ih =>
    rw [explore]
    split
    · next hq =>
      rw [exploreRecorded_of_done hq]
      rfl
    · next index rest hq =>
      rw [exploreRecorded_of_queue hq, Recorded.outcome_andThen, outcome_handleRecorded]
      split
      · next e he => rw [he, error_bind]
      · next g hg =>
        have hsize := size_handle hg
        rw [hg, ok_bind]
        refine ih g.size ?_ g rfl
        simp only [Frontier.size, hq, List.length_cons] at hsize hn ⊢
        omega

theorem outcome_recordedDepths (b : Body) : b.recordedDepths.outcome = b.depths := by
  unfold recordedDepths
  split <;> exact outcome_exploreRecorded b b.initialFrontier

/-- Where no instruction has a depth, there is none to exceed a bound. -/
theorem bounded_replicate_none (len : Nat) : Depths.Bounded (List.replicate len none) len := by
  refine ⟨List.length_replicate, fun i depth hi => ?_⟩
  simp [Depths.at?_eq_some_iff, List.getElem?_replicate] at hi

theorem initialFrontier_of_empty (hempty : b.length = 0) :
    b.initialFrontier.depths = List.replicate b.length none := by
  simp [initialFrontier, hempty]

/-- The first instruction has no depth, before it gets the first one. -/
theorem first_replicate_none (hpos : 0 < b.length) :
    (List.replicate b.length (none : Option Nat))[0]? = some none := by
  simp [hpos]

theorem bounded_initialFrontier (b : Body) : b.initialFrontier.depths.Bounded b.length := by
  have hnone := bounded_replicate_none b.length
  by_cases hempty : b.length = 0
  · rw [initialFrontier_of_empty hempty]
    exact hnone
  · exact hnone.set (first_replicate_none (Nat.pos_of_ne_zero hempty)) (Nat.zero_le _)

/-- **The analysis of a body keeps the bounds**, beginning without any depth. -/
theorem carries_recordedDepths (b : Body) :
    b.recordedDepths.Carries b (List.replicate b.length none) id := by
  have hrun : (b.exploreRecorded b.initialFrontier).Carries b b.initialFrontier.depths id :=
    carries_exploreRecorded b.bounded_initialFrontier
  unfold recordedDepths
  split
  · next hempty =>
    rwa [initialFrontier_of_empty hempty] at hrun
  · next hne =>
    have hpos : 0 < b.length := Nat.pos_of_ne_zero hne
    have hassigned : Depths.assigned ((List.replicate b.length none).set 0 (some 0))
        = Depths.assigned (List.replicate b.length none) + 1 :=
      Depths.assigned_set (first_replicate_none hpos)
    have hfirstEvent : (DepthEvent.assigned 0 0).Within b := ⟨hpos, hpos⟩
    exact hrun.precededBy hfirstEvent (Nat.le_trans (Nat.le_succ _) (Nat.le_of_eq hassigned.symm))

theorem events_subset_recordedDepths (b : Body) :
    (b.exploreRecorded b.initialFrontier).events ⊆ b.recordedDepths.events := by
  unfold recordedDepths
  split
  · exact List.Subset.refl _
  · exact List.subset_cons_self _ _

/-- The first instruction of a body gets its depth before any other one. -/
theorem first_mem_recordedDepths (hpos : 0 < b.length) :
    .assigned 0 0 ∈ b.recordedDepths.events := by
  rw [recordedDepths, if_neg (Nat.ne_of_gt hpos)]
  exact List.mem_cons_self

/-- Depths found are below the length of the body. -/
theorem lt_length_of_depths {b : Body} {ds : Depths} (h : b.depths = .ok ds) {i depth : Nat}
    (hi : ds.at? i = some depth) : depth < b.length := by
  have hbounded := b.carries_recordedDepths.bounded ds (b.outcome_recordedDepths.trans h)
  exact Nat.lt_of_lt_of_le (hbounded.below i depth hi) hbounded.assigned_le

end Body

/-! ## §5. The record is complete. -/

namespace Body

variable {b : Body} {f : Frontier}

/-- The frontiers that the analysis of a body comes to, up to its end. -/
inductive Explores (b : Body) : Frontier → Prop where
  | start : Explores b b.initialFrontier
  | step {f g : Frontier} {index : Nat} {rest : List Nat} (before : Explores b f)
      (queued : f.queue = index :: rest) (handled : b.handle index { f with queue := rest } = .ok g) :
      Explores b g

/-- Events tell what handling an instruction does from a frontier, whether it succeeds or fails.

A step that fails has got no further than to the target of a jump, for falling through comes last
and no instruction gets its depth from an edge that disagrees. -/
structure Logs (b : Body) (events : List DepthEvent) (f : Frontier) (index : Nat) : Prop where
  /-- The depth behind the instruction was computed, if its operands are there. -/
  computed : ∀ i depth, b.instruction? index = some i → f.depths.at? index = some depth →
    i.effect.pop ≤ depth → .computed index depth i.effect ∈ events
  /-- Depths there are after the step were there before, or have been assigned. -/
  assigned : ∀ g, b.handle index f = .ok g → ∀ j depth, g.depths.at? j = some depth →
    f.depths.at? j = some depth ∨ .assigned j depth ∈ events
  /-- The target of a jump was assigned its depth if it had none, also if the step fails then. -/
  jumped : ∀ i depth l target, b.instruction? index = some i → f.depths.at? index = some depth →
    i.effect.pop ≤ depth → i.target? = some l → b.position? l = some target →
    f.depths[target]? = some none → .assigned target (i.depthAfter depth) ∈ events

theorem Logs.mono {events events' : List DepthEvent} {index : Nat} (h : b.Logs events f index)
    (hsub : events ⊆ events') : b.Logs events' f index where
  computed i depth hi hdepth hpop := hsub (h.computed i depth hi hdepth hpop)
  assigned g hg j depth hj := (h.assigned g hg j depth hj).imp_right (@hsub _)
  jumped i depth l target hi hdepth hpop hl htarget hnone :=
    hsub (h.jumped i depth l target hi hdepth hpop hl htarget hnone)

/-- A jump to an instruction without a depth begins with assigning it one. -/
theorem mem_events_followRecorded {index depth target : Nat} {i : Instruction} {l : Label}
    (hl : i.target? = some l) (htarget : b.position? l = some target)
    (hnone : f.depths[target]? = some none) :
    .assigned target depth ∈ (b.followRecorded index i depth f).events := by
  have hresolve : b.resolve index l = .ok target := by simp [resolve, htarget]
  have hvisit : ((Recorded.lift (b.resolve index l)).andThen fun target =>
      f.visitRecorded target depth).events = [.assigned target depth] := by
    simp [Recorded.andThen, Recorded.lift, hresolve, Frontier.visitRecorded, hnone]
  unfold Instruction.target? at hl
  unfold followRecorded
  split at hl
  · next l' hflow =>
    obtain rfl := Option.some_inj.mp hl
    simp [hflow, hvisit]
  · next l' hflow =>
    obtain rfl := Option.some_inj.mp hl
    rw [hflow]
    exact Recorded.events_subset_andThen _ _ (hvisit ▸ List.mem_singleton_self _)
  · contradiction

/-- **A step is recorded in full.** -/
theorem logs_handleRecorded (hf : f.depths.Bounded b.length) (index : Nat) :
    b.Logs (b.handleRecorded index f).events f index where
  computed i depth hi hdepth hpop := by
    rw [handleRecorded_of_operands hi hdepth hpop]
    exact List.mem_cons_self
  assigned g hg j depth hj := by
    have hreplays := (carries_handleRecorded hf index).replays g
      ((b.outcome_handleRecorded index f).trans hg)
    rw [hreplays] at hj
    exact Depths.at?_foldl_record hj
  jumped i depth l target hi hdepth hpop hl htarget hnone := by
    rw [handleRecorded_of_operands hi hdepth hpop]
    exact List.mem_cons_of_mem _ (mem_events_followRecorded hl htarget hnone)

theorem explore_of_handle {g : Frontier} {index : Nat} {rest : List Nat}
    (hq : f.queue = index :: rest) (hg : b.handle index { f with queue := rest } = .ok g) :
    b.explore f = b.explore g := by
  rw [← outcome_exploreRecorded, ← outcome_exploreRecorded, exploreRecorded_of_queue hq,
    Recorded.outcome_andThen, outcome_handleRecorded, hg, ok_bind]

/-- **A frontier that is come to is one of the analysis**: it has bounded depths, the analysis goes
on from there to its own end, and the record has what is recorded from there on. -/
theorem Explores.goes_on (h : b.Explores f) :
    f.depths.Bounded b.length ∧ b.explore f = b.depths
      ∧ (b.exploreRecorded f).events ⊆ b.recordedDepths.events := by
  induction h with
  | start => exact ⟨b.bounded_initialFrontier, rfl, b.events_subset_recordedDepths⟩
  | @step f g index rest before queued handled ih =>
    obtain ⟨hbounded, hexplore, hevents⟩ := ih
    have hstep := carries_handleRecorded (f := { f with queue := rest }) hbounded index
    have houtcome := (b.outcome_handleRecorded index { f with queue := rest }).trans handled
    refine ⟨hstep.bounded g houtcome, ?_, fun event hevent => hevents ?_⟩
    · rw [← explore_of_handle queued handled, hexplore]
    · rw [exploreRecorded_of_queue queued]
      exact Recorded.events_subset_of_outcome houtcome hevent

/-- **Every step of the analysis is recorded in full.** -/
theorem Explores.logs (h : b.Explores f) {index : Nat} {rest : List Nat}
    (hq : f.queue = index :: rest) :
    b.Logs b.recordedDepths.events { f with queue := rest } index := by
  obtain ⟨hbounded, -, hevents⟩ := h.goes_on
  have hstep := logs_handleRecorded (f := { f with queue := rest }) hbounded index
  refine hstep.mono fun event hevent => hevents ?_
  rw [exploreRecorded_of_queue hq]
  exact Recorded.events_subset_andThen _ _ hevent

end Body

/-! ## §6. Pops for the values on the stack. -/

/-- Whether a patch can make its target return. -/
def InjectorKind.cancels : InjectorKind → Bool
  | .inject cancellable _ => cancellable
  | _ => false

/-- Number of values that code drops. -/
def pops (code : List Instruction) : Nat := code.count .pop

section

variable {site : Site} {copy : MethodRef}

theorem pops_append (code code' : List Instruction) :
    pops (code ++ code') = pops code + pops code' := List.count_append

theorem pops_eq_zero {code : List Instruction} (h : ∀ i ∈ code, i ≠ .pop) : pops code = 0 :=
  List.count_eq_zero.mpr fun hmem => h _ hmem rfl

theorem Instruction.Loads.ne_pop {i : Instruction} (h : i.Loads) : i ≠ .pop := by
  rintro rfl
  exact absurd h.effect_eq (by decide)

theorem pops_callInstructions {target : MethodRef} {synthetic : List SyntheticArgument}
    (hloads : ∀ i ∈ synthetic.flatMap (·.load), i.Loads) :
    pops (callInstructions target copy synthetic) = 0 := by
  unfold callInstructions
  rw [pops_append, pops_append, pops_append,
    pops_eq_zero fun i hi => (loads_loadReceiver copy i hi).ne_pop,
    pops_eq_zero fun i hi => (hloads i hi).ne_pop,
    pops_eq_zero fun i hi => (loads_loadForwarded target copy _ i hi).ne_pop]
  rfl

theorem pops_callWithOperands (types : List FieldType) (body : Body) :
    pops (callWithOperands site copy types body).1 = 0 := by
  cases hstatic : copy.isStatic with
  | true =>
    rw [callWithOperands_of_static types body hstatic]
    refine pops_callInstructions fun i hi => ?_
    rw [flatMap_load_onStack] at hi
    contradiction
  | false =>
    have hstores : ∀ i ∈ (body.allocateAll types).1.reverse.map Instruction.storeLocal,
        i ≠ .pop := by
      intro i hi
      obtain ⟨slot, -, rfl⟩ := List.mem_map.mp hi
      nofun
    rw [callWithOperands_of_instance types body hstatic, pops_append, pops_eq_zero hstores,
      Nat.zero_add]
    refine pops_callInstructions fun i hi => ?_
    rw [flatMap_load_spilled (length_allocateAll body types)] at hi
    obtain ⟨slot, -, rfl⟩ := List.mem_map.mp hi
    exact loads_loadLocal slot

theorem pops_callbackCall (cancellable : Bool) (slot : Slot) :
    pops (callbackCall site copy cancellable slot) = 0 := by
  have hcall : pops (callInstructions site.method copy
      [⟨callbackType site.method, [.loadLocal slot]⟩]) = 0 :=
    pops_callInstructions (List.forall_mem_singleton.mpr (loads_loadLocal slot))
  unfold callbackCall
  rw [pops_append, hcall]
  rfl

/-- Returning in place of the method drops the values that are on the stack. -/
theorem pops_guardedCall (slot : Slot) (resume : Label) :
    pops ((guardedCall site copy slot resume).map (·.instruction)) = site.depth := by
  have hresult : pops (callbackResult site.method slot) = 0 := by
    unfold callbackResult
    cases site.method.returns <;> rfl
  have hunwinding : pops (unwinding site slot) = site.depth := by
    unfold unwinding
    rw [pops_append, hresult]
    exact List.count_replicate_self
  have hbehind : pops (.branchIf false resume :: (unwinding site slot ++ [.ret] ++ [.nop]))
      = site.depth := by
    rw [← List.singleton_append, pops_append, pops_append, pops_append, hunwinding]
    simp [pops]
  unfold guardedCall
  simp only [List.map_append, List.map_cons, List.map_nil, map_instruction_unlabelled, pops_append,
    pops_callbackCall, hbehind]
  simp [pops]

/-- **Only a patch that can make its target return drops values**, and it drops as many as there
are at its site. -/
theorem pops_emit {patch : Patch} {w : Workbench} {out : Block × Workbench}
    (h : emit patch site copy w = .ok out) :
    pops (out.1.entries.map (·.instruction)) = if patch.kind.cancels then site.depth else 0 := by
  obtain ⟨e, hout⟩ := emit_eq_ok_iff.mp h
  generalize patch.kind = kind at hout
  cases hout with
  | @callback cancellable _ _ emits =>
    cases cancellable with
    | false =>
      rw [emitInject_of_not_cancellable] at emits
      obtain rfl := Except.ok.inj emits
      dsimp only
      rw [map_instruction_unlabelled, pops_callbackCall]
      rfl
    | true =>
      rw [emitInject_of_cancellable] at emits
      obtain rfl := Except.ok.inj emits
      exact pops_guardedCall _ _
  | constant _ =>
    dsimp only
    rw [map_instruction_unlabelled]
    exact pops_callInstructions (List.forall_mem_singleton.mpr (loads_push _))
  | call _ =>
    dsimp only
    rw [map_instruction_unlabelled, pops_callWithOperands]
    rfl
  | value _ =>
    dsimp only
    rw [map_instruction_unlabelled, pops_callWithOperands]
    rfl

end

namespace Splicer

variable {s : Splicer}

/-- Steps are taken for instructions of the body as it was, at their depths. -/
theorem exists_puts_of_mem_steps {method : MethodRef} {depths : Depths} {plans : SitePlans}
    {count index cursor : Nat} {b : Body} {step : SpliceStep}
    (h : step ∈ (s.spliceFrom method depths plans count index cursor b).steps) :
    ∃ i, index ≤ i ∧ i < index + count ∧ ∃ plan before after,
      s.Puts method ((depths.at? i).getD 0) plan before step after := by
  induction count generalizing index cursor b with
  | zero => contradiction
  | succ count ih =>
    have later {cursor : Nat} {b : Body}
        (h : step ∈ (s.spliceFrom method depths plans count (index + 1) cursor b).steps) :
        ∃ i, index ≤ i ∧ i < index + (count + 1) ∧ ∃ plan before after,
          s.Puts method ((depths.at? i).getD 0) plan before step after := by
      obtain ⟨i, hle, hlt, hputs⟩ := ih h
      exact ⟨i, by omega, by omega, hputs⟩
    unfold spliceFrom at h
    dsimp only at h
    split at h
    · exact later h
    · split at h
      · contradiction
      · next first b' hmade =>
        rcases List.mem_cons.mp h with rfl | h
        · exact ⟨index, by omega, by omega, _, b, b', (puts_of_spliceAt hmade).1⟩
        · exact later h

/-- The block of a patch drops at most the values that there are at its site. -/
theorem Piece.pops_le {site : Site} {kept : Entry} {id : PatchId} {entries : List Entry}
    (h : s.Piece site kept (some id) entries) :
    pops (entries.map (·.instruction)) ≤ site.depth := by
  cases h with
  | block hblock hreal =>
    obtain ⟨_, _, hmade, rfl, _⟩ := hblock
    rw [hreal.map_instruction, pops_emit hmade]
    split <;> omega

end Splicer

/-! ## §7. The bounds. -/

/-- **Depths stay below the length of the body**, whether the analysis succeeds or fails, and with
them everything that is computed from them.

Whatever the analysis did up to its end, every depth that it assigned is below the length; where it
computed the depth behind an instruction, the operands were there and the result is at most the
length. The record that says so is complete: depths found are depths recorded, and wherever the
analysis comes to, what it does with the next instruction of the queue is in the record, also if
that is where it fails. So whatever code is made for an instruction, and whatever blocks are put
into the body for patches, none of them drops as many values as the body has instructions. -/
theorem Body.depths_stay_within_length (b : Body) :
    b.recordedDepths.outcome = b.depths
      ∧ (∀ ds, b.depths = .ok ds →
        ds = b.recordedDepths.events.foldl Depths.record (List.replicate b.length none))
      ∧ (0 < b.length → .assigned 0 0 ∈ b.recordedDepths.events)
      ∧ (∀ f, b.Explores f → b.explore f = b.depths ∧ ∀ index rest, f.queue = index :: rest →
        b.Logs b.recordedDepths.events { f with queue := rest } index)
      ∧ (∀ i depth, .assigned i depth ∈ b.recordedDepths.events → i < b.length ∧ depth < b.length)
      ∧ (∀ i depth effect, .computed i depth effect ∈ b.recordedDepths.events →
        (∃ ins, b.instruction? i = some ins ∧ ins.effect = effect)
          ∧ effect.pop ≤ depth ∧ depth - effect.pop + effect.push ≤ b.length)
      ∧ ∀ ds, b.depths = .ok ds →
        (∀ i < b.length, ∀ patch method instruction copy w out,
          emit patch ⟨method, instruction, (ds.at? i).getD 0⟩ copy w = .ok out →
            pops (out.1.entries.map (·.instruction)) < b.length)
        ∧ ∀ (s : Splicer) method plans, ∀ step ∈ (s.splice method b ds plans).steps,
          ∃ site kept pieces, s.Splits site kept step.plan.patches step.entries pieces
            ∧ ∀ id code, (some id, code) ∈ pieces → pops (code.map (·.instruction)) < b.length := by
  have hrun := b.carries_recordedDepths
  have hdepth {ds : Depths} (h : b.depths = .ok ds) {i : Nat} (hi : i < b.length) :
      (ds.at? i).getD 0 < b.length := by
    cases hat : ds.at? i with
    | none => exact Nat.zero_lt_of_lt hi
    | some depth => exact lt_length_of_depths h hat
  refine ⟨b.outcome_recordedDepths, fun ds h => ?_, first_mem_recordedDepths,
    fun f hf => ⟨hf.goes_on.2.1, fun _ _ hq => hf.logs hq⟩, fun i depth h => hrun.within _ h,
    fun i depth effect h => hrun.within _ h, fun ds h => ⟨?_, ?_⟩⟩
  · exact hrun.replays ds (b.outcome_recordedDepths.trans h)
  · intro i hi patch method instruction copy w out hout
    rw [pops_emit hout]
    split
    · exact hdepth h hi
    · exact Nat.zero_lt_of_lt hi
  · intro s method plans step hstep
    obtain ⟨i, -, hi, plan, before, after, hputs⟩ := Splicer.exists_puts_of_mem_steps hstep
    obtain ⟨kept, pieces, hsplits⟩ := hputs.exists_splits
    refine ⟨_, kept, pieces, hsplits, fun id code hmem => ?_⟩
    have hpops := (hsplits.pieces _ hmem).pops_le
    exact Nat.lt_of_le_of_lt hpops (hdepth h (by omega))

end PatchWeaver

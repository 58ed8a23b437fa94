/-
  PatchWeaver.Proofs.DepthAnalysis
  ────────────────────────────────
  **WHAT THE ANALYSIS OF STACK DEPTHS DECIDES.**

  A body is consistent if no walk from its first instruction misuses the
  stack, and walks to one instruction agree on the depth there.  There are
  infinitely many walks as soon as there is a loop; the analysis handles
  every instruction at most once, and decides consistency all the same:

      (∃ d, depths b = ok d)  ↔  b is consistent

  What carries the proof is an invariant of the frontier (`Frontier.Sound`):
  a depth found is the balance of some walk, and an instruction that has a
  depth and waits in the queue no longer is settled — it can run at its
  depth, and every edge out of it leads to the depth behind it.  Once the
  queue is empty all depths are settled, and by induction every walk from
  the first instruction stays within them.

  Main results:
    * `Frontier.Sound.handle` — a step keeps the invariant.
    * `explore_spec` — a successful analysis ends with all depths settled; a
      failing one has a walk to blame.
    * `depths_decide_consistency` — the analysis decides consistency, and
      finds every depth.
-/
import PatchWeaver.Proofs.Flow
import PatchWeaver.Proofs.Outcome

namespace PatchWeaver

/-! ## §1. Consistent bodies. -/

/-- No walk from the first instruction misuses the stack, and all walks to an instruction agree. -/
structure Body.Consistent (b : Body) : Prop where
  /-- There are as many values as an instruction takes. -/
  covered : ∀ run i ins, b.Walk 0 run i → b.instruction? i = some ins →
    (ins.effect.pop : Int) ≤ b.balance run
  /-- Jumps name labels of the body. -/
  known : ∀ run i ins l, b.Walk 0 run i → b.instruction? i = some ins → ins.target? = some l →
    ∃ e ∈ b.entries, e.label = l
  /-- At most one value is left at a return. -/
  returns : ∀ run i, b.Walk 0 run i → b.instruction? i = some .ret → b.balance run ≤ 1
  agree : ∀ run run' i, b.Walk 0 run i → b.Walk 0 run' i → b.balance run = b.balance run'

/-- An instruction can run at a depth, and its edges lead to the depth behind it. -/
structure Body.Settled (b : Body) (ds : Depths) (i depth : Nat) : Prop where
  covered : ∀ ins, b.instruction? i = some ins → ins.effect.pop ≤ depth
  known : ∀ ins l, b.instruction? i = some ins → ins.target? = some l → ∃ j, b.LastPlace l j
  returns : b.instruction? i = some .ret → depth ≤ 1
  carried : ∀ ins j, b.instruction? i = some ins → b.Edge i j →
    ds.at? j = some (ins.depthAfter depth)

/-- What holds of a frontier between steps. -/
structure Frontier.Sound (b : Body) (f : Frontier) : Prop where
  length_eq : f.depths.length = b.length
  start : 0 < b.length → f.depths.at? 0 = some 0
  reached : ∀ i depth, f.depths.at? i = some depth → b.Reaches i depth
  settled : ∀ i depth, f.depths.at? i = some depth → i ∉ f.queue → b.Settled f.depths i depth

/-! ### Looking up depths. -/

namespace Depths

theorem at?_eq_some_iff {ds : Depths} {i depth : Nat} :
    ds.at? i = some depth ↔ ds[i]? = some (some depth) :=
  Option.join_eq_some_iff

theorem lt_length_of_at? {ds : Depths} {i depth : Nat} (h : ds.at? i = some depth) :
    i < ds.length :=
  (List.getElem?_eq_some_iff.mp (at?_eq_some_iff.mp h)).1

theorem at?_set_self {ds : Depths} {i depth : Nat} (h : i < ds.length) :
    Depths.at? (ds.set i (some depth)) i = some depth := by
  simp [at?, h]

theorem at?_set_of_ne {ds : Depths} {i j depth : Nat} (h : i ≠ j) :
    Depths.at? (ds.set i (some depth)) j = ds.at? j := by
  simp [at?, List.getElem?_set_ne h]

end Depths

/-! ## §2. Carrying a depth along edges. -/

/-- How a frontier has grown: of what is new, all was reached over `edges`, at one depth. -/
structure Frontier.Grown (f g : Frontier) (edges : Nat → Prop) (depth : Nat) : Prop where
  length_eq : g.depths.length = f.depths.length
  keeps : ∀ i d, f.depths.at? i = some d → g.depths.at? i = some d
  queued : ∀ i ∈ f.queue, i ∈ g.queue
  found : ∀ i d, g.depths.at? i = some d →
    f.depths.at? i = some d ∨ (edges i ∧ d = depth ∧ i ∈ g.queue)

namespace Frontier

theorem Grown.refl (f : Frontier) (edges : Nat → Prop) (depth : Nat) : f.Grown f edges depth where
  length_eq := rfl
  keeps _ _ h := h
  queued _ h := h
  found _ _ h := .inl h

theorem Grown.trans {f g h : Frontier} {edges : Nat → Prop} {depth : Nat}
    (hfg : f.Grown g edges depth) (hgh : g.Grown h edges depth) : f.Grown h edges depth where
  length_eq := hgh.length_eq.trans hfg.length_eq
  keeps i d hi := hgh.keeps i d (hfg.keeps i d hi)
  queued i hi := hgh.queued i (hfg.queued i hi)
  found i d hi := by
    rcases hgh.found i d hi with hg | hnew
    · rcases hfg.found i d hg with hf | ⟨hedge, hd, hq⟩
      · exact .inl hf
      · exact .inr ⟨hedge, hd, hgh.queued i hq⟩
    · exact .inr hnew

/-- Carrying a depth along an edge: the target has that depth afterwards. -/
theorem grown_of_visit {f g : Frontier} {target depth : Nat} {edges : Nat → Prop}
    (h : f.visit target depth = .ok g) (hedge : target < f.depths.length → edges target) :
    f.Grown g edges depth ∧ (target < f.depths.length → g.depths.at? target = some depth) := by
  -- the target is outside of the body, new, or has a depth already
  unfold visit at h
  split at h
  · next heq =>
    injection h with h
    subst h
    refine ⟨.refl f edges depth, fun hlt => ?_⟩
    have := List.getElem?_eq_none_iff.mp heq
    omega
  · next heq =>
    injection h with h
    subst h
    have hlt : target < f.depths.length := (List.getElem?_eq_some_iff.mp heq).1
    have hself : Depths.at? (f.depths.set target (some depth)) target = some depth :=
      Depths.at?_set_self hlt
    refine ⟨?_, fun _ => hself⟩
    constructor
    · simp
    · intro i d hi
      have hne : target ≠ i := by
        rintro rfl
        rw [Depths.at?_eq_some_iff, heq] at hi
        simp at hi
      exact (Depths.at?_set_of_ne hne).trans hi
    · intro i hi
      exact List.mem_append_left _ hi
    · intro i d hi
      by_cases hne : target = i
      · subst hne
        have hd : depth = d := by simpa [hself] using hi
        exact .inr ⟨hedge hlt, hd.symm, by simp⟩
      · exact .inl ((Depths.at?_set_of_ne hne).symm.trans hi)
  · next existing heq =>
    split at h
    · next heq' =>
      injection h with h
      subst h heq'
      exact ⟨.refl f edges _, fun _ => Depths.at?_eq_some_iff.mpr heq⟩
    · contradiction

/-- An edge fails only on a target with another depth. -/
theorem exists_of_visit_error {f : Frontier} {target depth : Nat} {e : MachineError}
    (h : f.visit target depth = .error e) : ∃ d, f.depths.at? target = some d ∧ d ≠ depth := by
  unfold visit at h
  split at h
  · contradiction
  · contradiction
  · next existing heq =>
    split at h
    · contradiction
    · next hne => exact ⟨existing, Depths.at?_eq_some_iff.mpr heq, hne⟩

end Frontier

/-! ## §3. One step. -/

namespace Body

theorem resolve_eq_ok_iff {b : Body} {index : Nat} {l : Label} {j : Nat} :
    b.resolve index l = .ok j ↔ b.LastPlace l j := by
  rw [← position?_eq_some_iff]
  unfold resolve
  cases b.position? l <;> simp

theorem of_resolve_error {b : Body} {index : Nat} {l : Label} {e : MachineError}
    (h : b.resolve index l = .error e) : ∀ entry ∈ b.entries, entry.label ≠ l := by
  rw [← position?_eq_none_iff]
  unfold resolve at h
  split at h
  · contradiction
  · assumption

/-- What following the edges of an instruction comes to. -/
structure Followed (b : Body) (index : Nat) (ins : Instruction) (depth : Nat)
    (f g : Frontier) : Prop where
  grown : f.Grown g (b.Edge index) depth
  known : ∀ l, ins.target? = some l → ∃ j, b.LastPlace l j
  returns : ins.flow = .ret → depth ≤ 1
  carried : ∀ j, b.Edge index j → g.depths.at? j = some depth

/-- **Following the edges of an instruction carries its depth along all of them.** -/
theorem followed_of_follow {b : Body} {index : Nat} {ins : Instruction} {depth : Nat}
    {f g : Frontier} (hi : b.instruction? index = some ins) (hlen : f.depths.length = b.length)
    (h : b.follow index ins depth f = .ok g) : b.Followed index ins depth f g := by
  have hedge : ∀ j, b.Edge index j ↔ _ := fun _ => edge_iff hi
  unfold follow at h
  split at h
  · next hflow =>
    simp only [hflow] at hedge
    obtain ⟨hgrown, hat⟩ := Frontier.grown_of_visit h fun hlt => (hedge _).mpr ⟨rfl, hlen ▸ hlt⟩
    refine ⟨hgrown, by simp [Instruction.target?, hflow], by simp [hflow], fun j hj => ?_⟩
    obtain ⟨rfl, hlt⟩ := (hedge j).mp hj
    exact hat (hlen ▸ hlt)
  · next l hflow =>
    simp only [hflow] at hedge
    obtain ⟨position, hr, h⟩ := bind_eq_ok_iff.mp h
    have hlast := resolve_eq_ok_iff.mp hr
    obtain ⟨hgrown, hat⟩ := Frontier.grown_of_visit h fun _ => (hedge _).mpr hlast
    refine ⟨hgrown, ?_, by simp [hflow], fun j hj => ?_⟩
    · simp only [Instruction.target?, hflow, Option.some.injEq, forall_eq']
      exact ⟨position, hlast⟩
    · obtain rfl := hlast.unique ((hedge j).mp hj)
      exact hat (hlen ▸ hlast.lt_length)
  · next l hflow =>
    simp only [hflow] at hedge
    obtain ⟨position, hr, h⟩ := bind_eq_ok_iff.mp h
    obtain ⟨f', hv, h⟩ := bind_eq_ok_iff.mp h
    have hlast := resolve_eq_ok_iff.mp hr
    -- the jump's target comes first, and keeps its depth when the next instruction is visited
    obtain ⟨hgrown, hat⟩ := Frontier.grown_of_visit hv fun _ => (hedge _).mpr (.inl hlast)
    have hlen' : f'.depths.length = b.length := hgrown.length_eq.trans hlen
    obtain ⟨hgrown', hat'⟩ := Frontier.grown_of_visit h fun hlt =>
      (hedge _).mpr (.inr ⟨rfl, hlen' ▸ hlt⟩)
    refine ⟨hgrown.trans hgrown', ?_, by simp [hflow], fun j hj => ?_⟩
    · simp only [Instruction.target?, hflow, Option.some.injEq, forall_eq']
      exact ⟨position, hlast⟩
    · rcases (hedge j).mp hj with hlast' | ⟨rfl, hlt⟩
      · obtain rfl := hlast.unique hlast'
        exact hgrown'.keeps _ _ (hat (hlen ▸ hlast.lt_length))
      · exact hat' (hlen' ▸ hlt)
  · next hflow =>
    simp only [hflow] at hedge
    split at h
    · contradiction
    · next hle =>
      injection h with h
      subst h
      exact ⟨.refl f _ depth, by simp [Instruction.target?, hflow], fun _ => by omega,
        fun j hj => ((hedge j).mp hj).elim⟩
  · next hflow =>
    simp only [hflow] at hedge
    injection h with h
    subst h
    exact ⟨.refl f _ depth, by simp [Instruction.target?, hflow], by simp [hflow],
      fun j hj => ((hedge j).mp hj).elim⟩

/-- Following fails only on a jump to nowhere, on a return that leaves too much, and on an edge
into an instruction that has another depth. -/
theorem of_follow_error {b : Body} {index : Nat} {ins : Instruction} {depth : Nat} {f : Frontier}
    {e : MachineError} (hi : b.instruction? index = some ins)
    (hlen : f.depths.length = b.length) (h : b.follow index ins depth f = .error e) :
    (∃ l, ins.target? = some l ∧ ∀ entry ∈ b.entries, entry.label ≠ l)
      ∨ (ins.flow = .ret ∧ 1 < depth)
      ∨ ∃ j d, b.Edge index j ∧ f.depths.at? j = some d ∧ d ≠ depth := by
  have hedge : ∀ j, b.Edge index j ↔ _ := fun _ => edge_iff hi
  unfold follow at h
  split at h
  · next hflow =>
    simp only [hflow] at hedge
    obtain ⟨d, hd, hne⟩ := Frontier.exists_of_visit_error h
    have hlt := Depths.lt_length_of_at? hd
    exact .inr (.inr ⟨_, d, (hedge _).mpr ⟨rfl, hlen ▸ hlt⟩, hd, hne⟩)
  · next l hflow =>
    simp only [hflow] at hedge
    rcases bind_eq_error_iff.mp h with hr | ⟨position, hr, h⟩
    · exact .inl ⟨l, by simp [Instruction.target?, hflow], of_resolve_error hr⟩
    · obtain ⟨d, hd, hne⟩ := Frontier.exists_of_visit_error h
      exact .inr (.inr ⟨_, d, (hedge _).mpr (resolve_eq_ok_iff.mp hr), hd, hne⟩)
  · next l hflow =>
    simp only [hflow] at hedge
    rcases bind_eq_error_iff.mp h with hr | ⟨position, hr, h⟩
    · exact .inl ⟨l, by simp [Instruction.target?, hflow], of_resolve_error hr⟩
    · have hjump := (hedge position).mpr (.inl (resolve_eq_ok_iff.mp hr))
      rcases bind_eq_error_iff.mp h with hv | ⟨f', hv, h⟩
      · obtain ⟨d, hd, hne⟩ := Frontier.exists_of_visit_error hv
        exact .inr (.inr ⟨_, d, hjump, hd, hne⟩)
      · obtain ⟨d, hd, hne⟩ := Frontier.exists_of_visit_error h
        have hgrown := (Frontier.grown_of_visit hv fun _ => hjump).1
        have hlt := Depths.lt_length_of_at? hd
        rw [hgrown.length_eq] at hlt
        -- the depth that disagrees is an old one, as the jump only found the new one
        rcases hgrown.found _ d hd with hold | ⟨-, heq, -⟩
        · exact .inr (.inr ⟨_, d, (hedge _).mpr (.inr ⟨rfl, hlen ▸ hlt⟩), hold, hne⟩)
        · exact absurd heq hne
  · next hflow =>
    split at h
    · next hlt => exact .inr (.inl ⟨hflow, hlt⟩)
    · contradiction
  · contradiction

end Body

/-! ### The invariant. -/

theorem Body.Settled.mono {b : Body} {ds ds' : Depths} {i depth : Nat}
    (h : b.Settled ds i depth) (hkeeps : ∀ j d, ds.at? j = some d → ds'.at? j = some d) :
    b.Settled ds' i depth where
  covered := h.covered
  known := h.known
  returns := h.returns
  carried ins j hi hj := hkeeps j _ (h.carried ins j hi hj)

namespace Frontier

/-- Before the first step, the first instruction alone has a depth. -/
theorem at?_initialFrontier {b : Body} {i depth : Nat} :
    b.initialFrontier.depths.at? i = some depth ↔ 0 < b.length ∧ i = 0 ∧ depth = 0 := by
  rw [Depths.at?_eq_some_iff]
  show ((List.replicate b.length none).set 0 (some 0))[i]? = _ ↔ _
  rcases Nat.eq_zero_or_pos i with rfl | hi
  · rw [List.getElem?_set_self']
    by_cases hb : 0 < b.length <;> simp [hb, eq_comm]
  · rw [List.getElem?_set_ne (by omega)]
    have : i ≠ 0 := by omega
    simp [List.getElem?_replicate, this]

/-- The frontier before the first step is sound. -/
theorem sound_initialFrontier (b : Body) : Frontier.Sound b b.initialFrontier where
  length_eq := by simp [Body.initialFrontier]
  start hpos := at?_initialFrontier.mpr ⟨hpos, rfl, rfl⟩
  reached i depth h := by
    obtain ⟨-, rfl, rfl⟩ := at?_initialFrontier.mp h
    exact ⟨[], .stay 0, rfl⟩
  settled i depth h hq := by
    obtain ⟨hpos, rfl, rfl⟩ := at?_initialFrontier.mp h
    have : b.length ≠ 0 := by omega
    simp [Body.initialFrontier, this] at hq

end Frontier

namespace Body

variable {b : Body} {f g : Frontier} {index : Nat}

/-- An instruction whose edges have been followed is settled. -/
theorem Followed.settled {ins : Instruction} {depth : Nat}
    (h : b.Followed index ins (ins.depthAfter depth) f g) (hi : b.instruction? index = some ins)
    (hcovered : ins.effect.pop ≤ depth) : b.Settled g.depths index depth where
  covered ins' hi' := by
    obtain rfl : ins = ins' := Option.some_inj.mp (hi.symm.trans hi')
    exact hcovered
  known ins' l hi' hl := by
    obtain rfl : ins = ins' := Option.some_inj.mp (hi.symm.trans hi')
    exact h.known l hl
  returns hret := by
    obtain rfl : ins = .ret := Option.some_inj.mp (hi.symm.trans hret)
    simpa [Instruction.depthAfter, Instruction.effect] using h.returns rfl
  carried ins' j hi' hj := by
    obtain rfl : ins = ins' := Option.some_inj.mp (hi.symm.trans hi')
    exact h.carried j hj

end Body

namespace Frontier

variable {b : Body} {f g : Frontier} {index : Nat} {rest : List Nat}

/-- Handling an instruction settles it, and all depths found are found along its edges; there are
none if the instruction has no depth. -/
theorem Sound.exists_grown (hf : f.Sound b)
    (h : b.handle index { f with queue := rest } = .ok g) :
    ∃ edges depth, Frontier.Grown { f with queue := rest } g edges depth
      ∧ (∀ j, edges j → b.Reaches j depth)
      ∧ ∀ d, f.depths.at? index = some d → b.Settled g.depths index d := by
  have hlen : ({ f with queue := rest } : Frontier).depths.length = b.length := hf.length_eq
  unfold Body.handle at h
  split at h
  · next ins d hi hd =>
    split at h
    · contradiction
    · next hpop =>
      have hcovered : ins.effect.pop ≤ d := Nat.le_of_not_lt hpop
      have hfollowed := Body.followed_of_follow hi hlen h
      refine ⟨b.Edge index, ins.depthAfter d, hfollowed.grown, fun j hj => ?_, fun d' hd' => ?_⟩
      · exact (hf.reached index d hd).step hi hcovered hj
      · obtain rfl : d = d' := Option.some_inj.mp (hd.symm.trans hd')
        exact hfollowed.settled hi hcovered
  · next hnone =>
    injection h with h
    subst h
    refine ⟨fun _ => False, 0, .refl _ _ 0, fun _ => False.elim, fun d hd => ?_⟩
    -- an index that has a depth is one of an instruction
    have hlt := Depths.lt_length_of_at? hd
    rw [hf.length_eq] at hlt
    have hi : b.instruction? index = some b.entries[index].instruction :=
      Body.instruction?_eq_some_iff.mpr ⟨_, List.getElem?_eq_getElem hlt, rfl⟩
    exact (hnone _ d hi hd).elim

/-- **A step keeps the invariant**: the instruction handled is settled, and what was settled
stays so. -/
theorem Sound.handle (hf : f.Sound b) (hq : f.queue = index :: rest)
    (h : b.handle index { f with queue := rest } = .ok g) : g.Sound b := by
  obtain ⟨edges, depth, hgrown, hedges, hdone⟩ := hf.exists_grown h
  refine ⟨hgrown.length_eq.trans hf.length_eq, fun hpos => hgrown.keeps _ _ (hf.start hpos),
    fun i d hi => ?_, fun i d hi hqueue => ?_⟩
  · rcases hgrown.found i d hi with hold | ⟨hedge, rfl, -⟩
    · exact hf.reached i d hold
    · exact hedges i hedge
  · rcases hgrown.found i d hi with hold | ⟨-, -, hnew⟩
    · -- an old depth: that of the instruction handled, or of one that was settled before
      by_cases heq : i = index
      · subst heq
        exact hdone d hold
      · -- it waits no longer, so it did not wait before the step either
        have hnot : i ∉ f.queue := by
          rw [hq, List.mem_cons]
          rintro (h | h)
          · exact heq h
          · exact hqueue (hgrown.queued i h)
        exact (hf.settled i d hold hnot).mono hgrown.keeps
    · exact absurd hnew hqueue

/-- A step fails only on a body that is not consistent. -/
theorem Sound.not_consistent (hf : f.Sound b) {e : MachineError}
    (h : b.handle index { f with queue := rest } = .error e) : ¬ b.Consistent := by
  intro hb
  have hlen : ({ f with queue := rest } : Frontier).depths.length = b.length := hf.length_eq
  unfold Body.handle at h
  split at h
  · next ins depth hi hd =>
    obtain ⟨run, hwalk, hbalance⟩ := hf.reached index depth hd
    have hcovered := hb.covered run index ins hwalk hi
    split at h
    · next hpop => omega
    · next hpop =>
      -- an unknown label, a return that leaves too little, or a target with another depth
      rcases Body.of_follow_error hi hlen h with
        ⟨l, hl, hnone⟩ | ⟨hret, hlt⟩ | ⟨j, d, hj, hd', hne⟩
      · obtain ⟨entry, hmem, heq⟩ := hb.known run index ins l hwalk hi hl
        exact hnone entry hmem heq
      · obtain rfl : ins = .ret := by cases ins <;> simp_all [Instruction.flow]
        have := hb.returns run index hwalk hi
        simp only [Instruction.depthAfter, Instruction.effect] at hlt
        omega
      · obtain ⟨run', hwalk', hbalance'⟩ := hf.reached j d hd'
        obtain ⟨run'', hwalk'', hbalance''⟩ :=
          Body.Reaches.step ⟨run, hwalk, hbalance⟩ hi (by omega) hj
        have := hb.agree run' run'' j hwalk' hwalk''
        omega
  · contradiction

end Frontier

/-! ## §4. The whole analysis. -/

namespace Body

/-- **A successful analysis ends with all depths settled; a failing one has a walk to blame.** -/
theorem explore_spec {b : Body} {f : Frontier} (hf : f.Sound b) :
    (∀ ds, b.explore f = .ok ds → Frontier.Sound b ⟨ds, []⟩)
      ∧ ∀ e, b.explore f = .error e → ¬ b.Consistent := by
  -- on what is left to visit, which every step makes smaller
  induction hn : f.size using Nat.strongRecOn generalizing f with
  | ind n ih =>
    unfold explore
    split
    · next hq =>
      refine ⟨fun ds h => ?_, fun e h => by contradiction⟩
      injection h with h
      subst h
      rw [← hq]
      exact hf
    · next index rest hq =>
      split
      · next e he =>
        refine ⟨fun ds h => by contradiction, fun _ _ => hf.not_consistent he⟩
      · next g hg =>
        have hsize := size_handle hg
        refine ih g.size ?_ (hf.handle hq hg) rfl
        simp only [Frontier.size, hq, List.length_cons] at hsize hn ⊢
        omega

/-- Every walk stays within depths that are all settled. -/
theorem at?_of_walk {b : Body} {ds : Depths} (hds : Frontier.Sound b ⟨ds, []⟩) {run : List Nat}
    {i : Nat} (hi : i < b.length) (h : b.Walk 0 run i) :
    ∃ depth : Nat, ds.at? i = some depth ∧ b.balance run = depth := by
  induction h with
  | stay => exact ⟨0, hds.start hi, rfl⟩
  | @step j k run walk edge ih =>
    obtain ⟨ins, hins⟩ := edge.exists_instruction
    obtain ⟨depth, hat, hbalance⟩ := ih (lt_length_of_instruction? hins)
    have hsettled := hds.settled j depth hat (by simp)
    refine ⟨ins.depthAfter depth, hsettled.carried ins k hins edge, ?_⟩
    have hpop := hsettled.covered ins hins
    rw [balance_append, balance_singleton hins, hbalance]
    simp only [Instruction.gain, Instruction.depthAfter]
    omega

/-- A body all of whose depths are settled is consistent. -/
theorem consistent_of_sound {b : Body} {ds : Depths} (hds : Frontier.Sound b ⟨ds, []⟩) :
    b.Consistent where
  covered run i ins hwalk hi := by
    obtain ⟨depth, hat, hbalance⟩ := at?_of_walk hds (lt_length_of_instruction? hi) hwalk
    have := (hds.settled i depth hat (by simp)).covered ins hi
    omega
  known run i ins l hwalk hi hl := by
    obtain ⟨depth, hat, -⟩ := at?_of_walk hds (lt_length_of_instruction? hi) hwalk
    obtain ⟨j, ⟨e, he, hel⟩, -⟩ := (hds.settled i depth hat (by simp)).known ins l hi hl
    exact ⟨e, List.mem_of_getElem? he, hel⟩
  returns run i hwalk hi := by
    obtain ⟨depth, hat, hbalance⟩ := at?_of_walk hds (lt_length_of_instruction? hi) hwalk
    have := (hds.settled i depth hat (by simp)).returns hi
    omega
  agree run run' i hwalk hwalk' := by
    by_cases hi : i < b.length
    · obtain ⟨depth, hat, hbalance⟩ := at?_of_walk hds hi hwalk
      obtain ⟨depth', hat', hbalance'⟩ := at?_of_walk hds hi hwalk'
      rw [hat] at hat'
      injection hat' with heq
      omega
    · -- outside of the body, there is only the walk that stays at the start of an empty one
      rw [hwalk.eq_nil_of_not_lt hi, hwalk'.eq_nil_of_not_lt hi]

/-- Where the analysis succeeds, all depths are settled. -/
theorem sound_of_depths {b : Body} {ds : Depths} (h : b.depths = .ok ds) :
    Frontier.Sound b ⟨ds, []⟩ := (explore_spec (Frontier.sound_initialFrontier b)).1 ds h

/-- The analysis succeeds on consistent bodies. -/
theorem exists_depths {b : Body} (hb : b.Consistent) : ∃ ds, b.depths = .ok ds := by
  cases h : b.depths with
  | ok ds => exact ⟨ds, rfl⟩
  | error e => exact absurd hb ((explore_spec (Frontier.sound_initialFrontier b)).2 e h)

/-- The depths found are those that walks reach. -/
theorem at?_depths_iff {b : Body} {ds : Depths} (h : b.depths = .ok ds) {i : Nat}
    (hi : i < b.length) {depth : Nat} : ds.at? i = some depth ↔ b.Reaches i depth := by
  refine ⟨(sound_of_depths h).reached i depth, ?_⟩
  rintro ⟨run, hwalk, hbalance⟩
  obtain ⟨depth', hat, hbalance'⟩ := at?_of_walk (sound_of_depths h) hi hwalk
  obtain rfl : depth = depth' := by omega
  exact hat

/-- **The analysis decides consistency, and finds every depth**: it succeeds exactly on the
consistent bodies, and then an instruction has a depth exactly if some walk reaches it, namely the
depth at which every walk does. -/
theorem depths_decide_consistency (b : Body) :
    ((∃ ds, b.depths = .ok ds) ↔ b.Consistent)
      ∧ ∀ ds, b.depths = .ok ds → ds.length = b.length ∧ ∀ i < b.length,
        (∀ depth, ds.at? i = some depth ↔ b.Reaches i depth)
          ∧ (ds.at? i = none ↔ ∀ run, ¬ b.Walk 0 run i) := by
  refine ⟨⟨fun ⟨ds, h⟩ => consistent_of_sound (sound_of_depths h), exists_depths⟩,
    fun ds h => ⟨(sound_of_depths h).length_eq, fun i hi =>
      ⟨fun depth => at?_depths_iff h hi, ?_, ?_⟩⟩⟩
  · intro hnone run hwalk
    obtain ⟨depth, hat, -⟩ := at?_of_walk (sound_of_depths h) hi hwalk
    rw [hnone] at hat
    contradiction
  · intro hnone
    cases hat : ds.at? i with
    | none => rfl
    | some depth =>
      obtain ⟨run, hwalk, -⟩ := (sound_of_depths h).reached i depth hat
      exact absurd hwalk (hnone run)

end Body

end PatchWeaver

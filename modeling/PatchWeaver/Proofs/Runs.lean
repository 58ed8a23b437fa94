/-
  PatchWeaver.Proofs.Runs
  ───────────────────────
  **HOW RUNS OF A WEAVER GO.**

  A run prepares its changes, and then makes them.  Changes that have been
  prepared are checked, so making them does not fail; all that a run fails
  with, preparing has failed with:

      run (w, p)   ↦   failed      p as it was, the depths found stay with w
                       succeeded   p changed, and no depths are kept

  In either case the depths that are kept are those of the program that the
  run has led to, so every run of a weaver starts with an accurate cache
  (`HasRun.accurate`).  This is what makes the contract of preparing hold in
  every run, and not in the first one only.

  An analysis that fails in a run is that of a body as it was, if labels are
  distinct and supplies of labels are ahead of them.  Distinct labels alone
  are not enough.  A supply is started on the entries that there are when the
  first label is drawn; if other entries are put in place of them then, it
  yields labels that are taken, and jumps of the body lead into the code of
  patches:

      drawn  l0      entries  l1, l2, l3, l4      drawn next  l1, l2, ...

  Main results:
    * `Weaver.goes_weave` — one run.
    * `weave_fails_without_internal_error` — no run ends with an error of its
      own making.
    * `stale_supply_fails_analysis` — a supply that is behind its body.
-/
import PatchWeaver.Proofs.Preparing

namespace PatchWeaver

/-! ## §1. One run. -/

/-- How a run can go. -/
inductive Weaver.Goes (w : Weaver) (program : Program) (mixins : List Mixin) :
    WeaveResult → Prop where
  | failed {e : WeaveError} {events : List Event} {cache : DepthCache}
      (excusable : Excusable program mixins e) (accurate : cache.Accurate program.body?) :
      Goes w program mixins (w.failed e events cache program)
  | succeeded {c : Changes} {events : List Event} {declared woven : Program}
      (prepared : Prepared w.settings program mixins c)
      (declares : c.copies.declare program = (.ok (c.copies.copies.map (·.ref)), declared))
      (installs : installAll c.bodies declared = (.ok (c.bodies.map (·.1)), woven)) :
      Goes w program mixins
        (w.succeeded c ⟨c.bodies.map (·.1), c.copies.copies.map (·.ref)⟩ events woven)

/-- **A run goes as the contract of preparing it says**, if it starts with depths of its program. -/
theorem Weaver.weave_cases {w : Weaver} {program : Program} {mixins : List Mixin}
    {post : Changes → Prop} {fails : WeaveError → Prop}
    (hprepare : Analysing.Ensures program.body? post fails (prepare w.settings program mixins))
    (hcache : w.cache.Accurate program.body?) :
    (∃ e cache, fails e ∧ cache.Accurate program.body? ∧ w.weave program mixins
        = w.failed e ((prepare w.settings program mixins).run w.cache).1.events cache program)
      ∨ ∃ c declared woven, post c
        ∧ c.copies.declare program = (.ok (c.copies.copies.map (·.ref)), declared)
        ∧ installAll c.bodies declared = (.ok (c.bodies.map (·.1)), woven)
        ∧ w.weave program mixins = w.succeeded c ⟨c.bodies.map (·.1), c.copies.copies.map (·.ref)⟩
            (((prepare w.settings program mixins).run w.cache).1.events
              ++ closing c ⟨c.bodies.map (·.1), c.copies.copies.map (·.ref)⟩) woven := by
  obtain ⟨haccurate, hyields⟩ := hprepare w.cache hcache
  rcases w.weave_of_prepare program mixins with ⟨e, herror, hweave⟩ | ⟨c, declared, woven, hok, -,
    hdeclare, hinstall, hweave⟩
  · exact .inl ⟨e, _, hyields.of_error herror, haccurate, hweave⟩
  · exact .inr ⟨c, declared, woven, hyields.of_ok hok, hdeclare, hinstall, hweave⟩

theorem Weaver.goes_weave {w : Weaver} {program : Program}
    (hcache : w.cache.Accurate program.body?) (mixins : List Mixin) :
    w.Goes program mixins (w.weave program mixins) := by
  rcases weave_cases (ensures_prepare w.settings program mixins) hcache with
    ⟨e, cache, hexcusable, haccurate, hweave⟩ | ⟨c, declared, woven, hprepared, hdeclare, hinstall,
      hweave⟩
  · rw [hweave]
    exact .failed hexcusable haccurate
  · rw [hweave]
    exact .succeeded hprepared hdeclare hinstall

/-! ## §2. Successive runs. -/

theorem DepthCache.accurate_empty (body? : MethodRef → Option Body) :
    DepthCache.Accurate {} body? := by
  intro method body depths _ hfound
  contradiction

/-- A weaver has done some runs, which have led to a program. -/
inductive HasRun : Weaver → Program → Prop where
  | new (settings : Settings) (program : Program) : HasRun (.new settings) program
  | weave {w : Weaver} {program : Program} (before : HasRun w program) (mixins : List Mixin) :
      HasRun (w.weave program mixins).weaver (w.weave program mixins).program

/-- **What one run leaves**: depths of the program that it has led to. -/
theorem Weaver.Goes.accurate {w : Weaver} {program : Program} {mixins : List Mixin}
    {result : WeaveResult} (h : w.Goes program mixins result) :
    result.weaver.cache.Accurate result.program.body? := by
  cases h with
  | failed _ accurate => exact accurate
  | succeeded _ _ _ => exact DepthCache.accurate_empty _

/-- **Every run starts with depths of its program.** -/
theorem HasRun.accurate {w : Weaver} {program : Program} (h : HasRun w program) :
    w.cache.Accurate program.body? := by
  induction h with
  | new settings program => exact DepthCache.accurate_empty _
  | weave _ mixins ih => exact (Weaver.goes_weave ih mixins).accurate

/-! ## §3. Errors of runs. -/

/-- **A run on distinct mixins fails for reasons of its input only.**  None of its phases finds a
patch, a copy, a site or a position missing; and where labels are distinct and supplies of labels
ahead of them, an analysis that fails is that of a body as it was, in a method that a patch reaches.
Supplies that have not been started yet are ahead. -/
theorem weave_fails_without_internal_error {w : Weaver} {program : Program} {mixins : List Mixin}
    {e : WeaveError} (hruns : HasRun w program) (hnames : (mixins.map (·.name)).Nodup)
    (h : (w.weave program mixins).outcome = .error e) :
    e.isInternal = false
      ∧ (program.Labelled → ∀ m cause, e = .stackAnalysis m cause →
          (scanned program mixins).Unanalysable program m cause) := by
  have hgoes := Weaver.goes_weave hruns.accurate mixins
  generalize w.weave program mixins = result at h hgoes
  cases hgoes with
  | failed excusable _ =>
    obtain rfl := Except.error.inj h
    exact ⟨excusable.external hnames, excusable.analysis hnames⟩
  | succeeded _ _ _ => contradiction

/-! ### A body that takes a value from an empty stack. -/

namespace Faulty

/-- Its first instruction takes a value, and there is none. -/
def body : Body := .ofInstructions [.pop, .ret]

/-- The method with this body. -/
def run : MethodDef := { Twins.run with body := some body }

/-- The reference to the method. -/
def method : MethodRef := run.ref Twins.a

/-- A class with the method, and none of the mixin. -/
def program : Program :=
  ⟨[(Twins.a, { superclass := none, methods := [run] })], by unfold ClassTable.Ordered; decide⟩

/-- One mixin, with a patch for the method. -/
def mixins : List Mixin := [Twins.first]

/-- What its analysis ends with. -/
def cause : MachineError := .stackUnderflow 0 1 0

theorem labelled : program.Labelled := by
  intro m b hb
  have hbodies : (m, b) ∈ [(method, body)] := Program.mem_bodies hb
  obtain ⟨-, rfl⟩ := Prod.mk.inj (List.mem_singleton.mp hbodies)
  exact ⟨by decide, Body.ahead_of_unseeded rfl⟩

theorem weave_mixins :
    ((Weaver.new {}).weave program mixins).outcome = .error (.stackAnalysis method cause) := by
  decide +kernel

end Faulty

/-- The first run fails, as the only body does not pass the analysis. -/
theorem weave_fails_without_internal_error_faulty :
    (WeaveError.stackAnalysis Faulty.method Faulty.cause).isInternal = false
      ∧ (scanned Faulty.program Faulty.mixins).Unanalysable Faulty.program Faulty.method
          Faulty.cause :=
  have hfails := weave_fails_without_internal_error (.new {} Faulty.program) (by decide)
    Faulty.weave_mixins
  ⟨hfails.1, hfails.2 Faulty.labelled _ _ rfl⟩

/-! ### A supply of labels that is behind its body. -/

namespace Stale

/-- A label was drawn before there were any entries, so the supply yields `l1` next. -/
def body : Body :=
  { Body.empty.freshLabel.2 with entries := [⟨⟨1⟩, .declared, .nop⟩,
    ⟨⟨2⟩, .declared, .push (.int 0)⟩, ⟨⟨3⟩, .declared, .branchIf false ⟨1⟩⟩,
    ⟨⟨4⟩, .declared, .ret⟩] }

/-- The stack depths of the body. -/
def depths : Depths := [some 0, some 0, some 1, some 0]

/-- The method with this body. -/
def run : MethodDef := { Twins.run with body := some body }

/-- The reference to the method. -/
def method : MethodRef := run.ref Twins.a

/-- A hook of the jump, for which a value is on the stack. -/
def hook : MixinMethod := { Twins.onA with selectors := [{ kind := .head, shift := some (.by 2) }] }

/-- The method of the hook in the class of the mixin. -/
def hookMethod : MethodDef := { Twins.run with name := hook.name, descriptor := hook.descriptor }

/-- The target and the class of the mixin. -/
def program : Program :=
  ⟨[(Twins.a, { superclass := none, methods := [run] }),
    (Twins.mixin, { superclass := none, methods := [hookMethod] })],
    by unfold ClassTable.Ordered; decide⟩

/-- One mixin, with the hook. -/
def mixins : List Mixin := [{ Twins.first with methods := [hook] }]

theorem depths_body : body.depths = .ok depths := by decide +kernel

theorem weave_mixins :
    ((Weaver.new {}).weave program mixins).outcome
      = .error (.stackAnalysis method (.inconsistentStack 2 1 0)) := by
  decide +kernel

/-- The bodies of the program are this one and that of the hook. -/
theorem of_body? {m : MethodRef} {b : Body} (h : program.body? m = some b) :
    b = body ∨ b = .ofInstructions [.ret] := by
  have hbodies : (m, b) ∈ [(method, body), (hookMethod.ref Twins.mixin, .ofInstructions [.ret])] :=
    Program.mem_bodies h
  rcases List.mem_cons.mp hbodies with heq | hbodies
  · exact .inl (Prod.mk.inj heq).2
  · exact .inr (Prod.mk.inj (List.mem_singleton.mp hbodies)).2

end Stale

/-- **Distinct labels are not enough**: the supply of the body yields labels that the body has
already. Its jump to `l1` then leads to the begin marker of the container that was put in for the
jump itself, where a value is on the stack; the body as it was passes the analysis, and all labels
of the program are distinct. -/
theorem stale_supply_fails_analysis :
    (∀ m b, Stale.program.body? m = some b → b.labelList.Nodup)
      ∧ (Stale.mixins.map (·.name)).Nodup
      ∧ ((Weaver.new {}).weave Stale.program Stale.mixins).outcome
        = .error (.stackAnalysis Stale.method (.inconsistentStack 2 1 0))
      ∧ (∀ m b, Stale.program.body? m = some b → ∃ ds, b.depths = .ok ds)
      ∧ ¬ Stale.body.Ahead := by
  refine ⟨fun m b hb => ?_, by decide, Stale.weave_mixins, fun m b hb => ?_, fun hahead => ?_⟩
  · rcases Stale.of_body? hb with rfl | rfl <;> decide
  · rcases Stale.of_body? hb with rfl | rfl
    · exact ⟨Stale.depths, Stale.depths_body⟩
    · exact ⟨[some 0], by decide +kernel⟩
  · have hfirst : 1 < Stale.body.nextId := hahead ⟨⟨1⟩, .declared, .nop⟩ (List.mem_cons_self ..)
    exact absurd hfirst (by decide)

end PatchWeaver

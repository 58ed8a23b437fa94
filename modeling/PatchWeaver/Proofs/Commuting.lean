/-
  PatchWeaver.Proofs.Commuting
  ────────────────────────────
  **INDEPENDENT MIXINS COMMUTE.**

  The order of declarations decides about much of a run: how patches are
  numbered, which method is selected first, in which order copies are
  declared and bodies are installed.  Where the declarations are independent,
  none of it is left in the program:

      methods of n  =  old declarations with new bodies ++ copies on n

  The new bodies are those that each declaration alone makes
  (`Independent.remakes_iff`), and bodies of distinct methods can be
  installed in any order (`installOn_perm`); the copies on `n` are those of
  the one declaration that targets `n`, in its own order
  (`Independent.filter_copies`).

  Main results:
    * `Realises.woven_perm` — the same changes, class by class.
    * `weave_perm` — the same outcome, and the same program.
-/
import PatchWeaver.Proofs.Independence

namespace PatchWeaver

/-! ## §1. Installing bodies in any order. -/

/-- **Bodies of distinct methods are installed in any order.** -/
theorem updateFirst_comm {m m' : MethodRef} (howner : m.owner = m'.owner) (hne : m ≠ m')
    (body body' : Body) (methods : List MethodDef) :
    updateFirst (·.matches? m') ({ · with body := some body' })
        (updateFirst (·.matches? m) ({ · with body := some body }) methods)
      = updateFirst (·.matches? m) ({ · with body := some body })
          (updateFirst (·.matches? m') ({ · with body := some body' }) methods) := by
  induction methods with
  | nil => rfl
  | cons d rest ih =>
    -- no declaration answers to both methods, and a new body does not change what it answers to
    have hnot : d.matches? m = true → d.matches? m' = false := fun h =>
      Bool.eq_false_iff.mpr fun h' => hne (MethodDef.eq_of_matches? h h' howner)
    cases hm : d.matches? m with
    | true => simp [updateFirst, hm, hnot hm, MethodDef.matches?_withBody]
    | false =>
      cases hm' : d.matches? m' with
      | true => simp [updateFirst, hm, hm', MethodDef.matches?_withBody]
      | false => simpa [updateFirst, hm, hm'] using ih

/-- **The order in which bodies are installed does not matter.** -/
theorem installOn_perm {bodies bodies' : List (MethodRef × Body)} (hperm : bodies.Perm bodies')
    (hdistinct : (bodies.map (·.1)).Nodup) (n : ClassName) (methods : List MethodDef) :
    installOn bodies n methods = installOn bodies' n methods := by
  refine hperm.foldl_eq' (fun x hx y hy methods => ?_) methods
  by_cases heq : x = y
  · rw [heq]
  · have hne : x.1 ≠ y.1 := fun h => heq (List.inj_on_of_nodup_map hdistinct hx hy h)
    by_cases hxn : x.1.owner = n
    · by_cases hyn : y.1.owner = n
      · simp only [hxn, hyn, if_true]
        exact updateFirst_comm (hxn.trans hyn.symm) hne x.2 y.2 methods
      · simp only [hyn, if_false]
    · simp only [hxn, if_false]

/-! ## §2. Declarations in any order. -/

section

variable {settings : Settings} {program : Program} {mixins mixins' : List Mixin}
  {t t' : CopyTable} {bodies bodies' : List (MethodRef × Body)}

/-- Whether a run is feasible does not depend on the order of its declarations. -/
theorem Independent.feasible_perm (h : Independent mixins) (hperm : mixins.Perm mixins')
    (settings : Settings) (program : Program) :
    Feasible settings program mixins ↔ Feasible settings program mixins' := by
  rw [h.feasible_iff, (h.perm hperm).feasible_iff]
  exact forall_congr' fun d => by rw [hperm.mem_iff]

/-- The bodies that are made do not depend on the order of the declarations. -/
theorem Realises.bodies_perm (h : Realises settings program mixins t bodies)
    (h' : Realises settings program mixins' t' bodies') (hindependent : Independent mixins)
    (hperm : mixins.Perm mixins') : bodies.Perm bodies' := by
  rw [List.perm_ext_iff_of_nodup h.distinct.of_map h'.distinct.of_map]
  rintro ⟨m, woven⟩
  rw [h.mem_iff, h'.mem_iff, hindependent.remakes_iff h.copies,
    (hindependent.perm hperm).remakes_iff h'.copies]
  exact exists_congr fun d => by rw [hperm.mem_iff]

/-- The copies on a class, and their order, do not depend on the order of the declarations. -/
theorem Realises.declarationsOn_perm (h : Realises settings program mixins t bodies)
    (h' : Realises settings program mixins' t' bodies') (hindependent : Independent mixins)
    (hperm : mixins.Perm mixins') (n : ClassName) :
    declarationsOn t.copies n = declarationsOn t'.copies n := by
  unfold declarationsOn
  by_cases htarget : ∃ d ∈ mixins, n ∈ d.targets
  · -- both runs copy what the declaration alone would
    obtain ⟨d, hd, hn⟩ := htarget
    obtain ⟨t₀, ht₀⟩ := exists_madeFor_iff.mpr
      (List.forall_mem_singleton.mpr (exists_madeFor_iff.mp ⟨t, h.copies⟩ d hd))
    obtain ⟨done', rest', rfl⟩ := List.mem_iff_append.mp (hperm.mem_iff.mp hd)
    have hindependent' := hindependent.perm hperm
    obtain ⟨done, rest, rfl⟩ := List.mem_iff_append.mp hd
    rw [hindependent.filter_copies hn h.copies ht₀, hindependent'.filter_copies hn h'.copies ht₀]
  · have hnone : ∀ d ∈ mixins, n ∉ d.targets := fun d hd hn => htarget ⟨d, hd, hn⟩
    have hnone' : ∀ d ∈ mixins', n ∉ d.targets := fun d hd => hnone d (hperm.mem_iff.mpr hd)
    rw [filter_copies_eq_nil hnone h.copies, filter_copies_eq_nil hnone' h'.copies]

/-- **The same changes are made, class by class.** -/
theorem Realises.woven_perm (h : Realises settings program mixins t bodies)
    (h' : Realises settings program mixins' t' bodies') (hindependent : Independent mixins)
    (hperm : mixins.Perm mixins') (n : ClassName) (methods : List MethodDef) :
    installOn bodies n methods ++ declarationsOn t.copies n
      = installOn bodies' n methods ++ declarationsOn t'.copies n := by
  rw [installOn_perm (h.bodies_perm h' hindependent hperm) h.distinct,
    h.declarationsOn_perm h' hindependent hperm]

end

/-! ## §3. Runs. -/

theorem Program.ext_classes {p q : Program} (h : p.classes = q.classes) : p = q := by
  cases p
  cases q
  subst h
  rfl

/-- **Independent mixins commute.**  On one program, whatever runs a weaver has done before, a run
on declarations with distinct names, no two of which have a target class in common, succeeds
exactly if a run on the same declarations in any other order does, and both lead to the same
program: the same methods in the same order, with the same bodies, labels and locals. -/
theorem weave_perm {w w' : Weaver} {program : Program} {mixins mixins' : List Mixin}
    (hruns : HasRun w program) (hruns' : HasRun w' program) (hsettings : w'.settings = w.settings)
    (hsnapshot : w.settings.snapshot = none) (hindependent : Independent mixins)
    (hperm : mixins.Perm mixins') :
    ((∃ report, (w.weave program mixins).outcome = .ok report)
        ↔ ∃ report, (w'.weave program mixins').outcome = .ok report)
      ∧ (w.weave program mixins).program = (w'.weave program mixins').program := by
  have hdecides := Weaver.decides_weave hruns hsnapshot mixins
  have hdecides' := Weaver.decides_weave hruns' (hsettings ▸ hsnapshot) mixins'
  have hfeasible := hindependent.feasible_perm hperm w.settings program
  generalize w.weave program mixins = result at hdecides
  generalize w'.weave program mixins' = result' at hdecides'
  cases hdecides with
  | fails infeasible =>
    cases hdecides' with
    | fails _ => exact ⟨⟨fun ⟨_, h⟩ => by contradiction, fun ⟨_, h⟩ => by contradiction⟩, rfl⟩
    | weaves feasible' _ _ =>
      rw [hsettings] at feasible'
      exact absurd (hfeasible.mpr feasible') infeasible
  | weaves feasible realises classes_eq =>
    cases hdecides' with
    | fails infeasible' =>
      rw [hsettings] at infeasible'
      exact absurd (hfeasible.mp feasible) infeasible'
    | weaves _ realises' classes_eq' =>
      -- both programs are given class by class, by the same changes
      rw [hsettings] at realises'
      refine ⟨⟨fun _ => ⟨_, rfl⟩, fun _ => ⟨_, rfl⟩⟩, Program.ext_classes ?_⟩
      refine classes_eq.trans (Eq.trans (List.map_congr_left fun x _ => ?_) classes_eq'.symm)
      rw [realises.woven_perm realises' hindependent hperm]

/-! ### Two mixins, each of which hooks a method on a class of its own. -/

namespace Apart

/-- The second mixin class. -/
def other : ClassName := ⟨"demo/Q", ClassName.legal_of_no_fault rfl⟩

/-- Two classes to be hooked, and the methods of both mixins. -/
def program : Program :=
  ⟨[(Twins.a, { superclass := none, methods := [Twins.run] }),
    (Twins.b, { superclass := none, methods := [Twins.run] }),
    (Twins.mixin, { superclass := none, methods := [Pair.hook] }),
    (other, { superclass := none, methods := [Pair.hook] })],
    by unfold ClassTable.Ordered; decide⟩

/-- The mixin for the first class. -/
def onA : Mixin := { name := Twins.mixin, targets := [Twins.a], methods := [Twins.onBoth] }

/-- The mixin for the second class. -/
def onB : Mixin := { name := other, targets := [Twins.b], methods := [Twins.onBoth] }

theorem independent : Independent [onA, onB] := ⟨by decide, by decide⟩

/-- The run succeeds. -/
theorem isSome_weave :
    ((Weaver.new {}).weave program [onA, onB]).outcome.toOption.isSome = true := by
  decide +kernel

end Apart

/-- Both orders of two mixins, each on a class of its own. -/
theorem weave_perm_apart :
    (∃ report, ((Weaver.new {}).weave Apart.program [Apart.onA, Apart.onB]).outcome = .ok report)
      ∧ (∃ report,
        ((Weaver.new {}).weave Apart.program [Apart.onB, Apart.onA]).outcome = .ok report)
      ∧ ((Weaver.new {}).weave Apart.program [Apart.onA, Apart.onB]).program
          = ((Weaver.new {}).weave Apart.program [Apart.onB, Apart.onA]).program := by
  have hruns : HasRun (Weaver.new {}) Apart.program := .new {} Apart.program
  obtain ⟨hiff, hprogram⟩ :=
    weave_perm hruns hruns rfl rfl Apart.independent (List.Perm.swap Apart.onB Apart.onA [])
  have hsome := Apart.isSome_weave
  cases houtcome : ((Weaver.new {}).weave Apart.program [Apart.onA, Apart.onB]).outcome with
  | error e => simp [houtcome, Except.toOption] at hsome
  | ok report => exact ⟨⟨report, rfl⟩, hiff.mp ⟨report, houtcome⟩, hprogram⟩

end PatchWeaver

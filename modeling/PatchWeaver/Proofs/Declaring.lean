/-
  PatchWeaver.Proofs.Declaring
  ────────────────────────────
  **COPIES THAT ARE CHECKED ARE THE COPIES THAT CAN BE DECLARED.**

  The check looks at the program before the first copy is declared, and
  keeps a list of the places that copies before the present one take.
  Declaring looks at a program that grows with every copy.  Both agree:

      check       class of c in p     c not in p    c not before c
      declare     class of c in pₖ    c not in pₖ

  where `pₖ` is `p` with the copies before `c` declared: its classes are
  those of `p`, and its methods are those of `p` and the copies before `c`.

  Main results:
    * `declarable_of_declareAll` — what can be declared passes the check.
    * `method?_declareAll_of_mem`, `method?_declareAll_of_not_mem` — what
      methods are looked up as afterwards.
    * `check_decides_declare` — the check agrees with what it checks.
-/
import PatchWeaver.Proofs.Effects

namespace PatchWeaver

section

variable {copies : List MethodCopy} {program declared : Program} {added : List MethodRef}

/-- **Copies that are all declared have passed the check.** -/
theorem declarable_of_declareAll (h : declareAll copies program = (.ok added, declared)) :
    Declarable program copies := by
  induction copies generalizing program added with
  | nil => exact ⟨by simp, by simp, by simp⟩
  | cons copy rest ih =>
    obtain ⟨next, added', hadd, hrest, -⟩ := exists_of_declareAll_cons h
    obtain ⟨hfree, hclass, -⟩ := Program.addMethod_eq_ok_iff.mp hadd
    have hnext := ih hrest
    -- the copy has made its own place one of the methods, so no copy behind it takes that
    have hothers : ∀ c ∈ rest, c.ref ≠ copy.ref ∧ program.hasMethod c.ref = false := fun c hc => by
      simpa [Program.hasMethod_addMethod hadd] using hnext.free c hc
    refine ⟨?_, ?_, ?_⟩
    · rw [List.forall_mem_cons]
      refine ⟨hclass, fun c hc => ?_⟩
      rw [← Program.hasClass_addMethod hadd]
      exact hnext.hasClass c hc
    · rw [List.forall_mem_cons]
      exact ⟨hfree, fun c hc => (hothers c hc).2⟩
    · rw [List.map_cons, List.nodup_cons]
      refine ⟨fun hmem => ?_, hnext.distinct⟩
      obtain ⟨c, hc, heq⟩ := List.mem_map.mp hmem
      exact (hothers c hc).1 heq

theorem check_eq_ok_iff {t : CopyTable} :
    t.check program = .ok () ↔ Declarable program t.copies := by
  unfold CopyTable.check
  rw [checkDeclarable_eq_ok_iff]
  simp

/-- The methods added are the copies, in their order. -/
theorem added_of_declareAll (h : declareAll copies program = (.ok added, declared)) :
    added = copies.map (·.ref) := by
  obtain ⟨declared', hdeclared, -⟩ := declareAll_of_declarable (declarable_of_declareAll h)
  exact Except.ok.inj (Prod.mk.inj (h.symm.trans hdeclared)).1

/-- A method that is none of the copies is looked up as before. -/
theorem method?_declareAll_of_not_mem (h : declareAll copies program = (.ok added, declared))
    {m : MethodRef} (hm : m ∉ copies.map (·.ref)) : declared.method? m = program.method? m := by
  induction copies generalizing program added with
  | nil =>
    obtain ⟨-, rfl⟩ := Prod.mk.inj h
    rfl
  | cons copy rest ih =>
    obtain ⟨next, added', hadd, hrest, -⟩ := exists_of_declareAll_cons h
    rw [List.map_cons, List.mem_cons, not_or] at hm
    rw [ih hrest hm.2, Program.method?_addMethod hadd, if_neg hm.1]

/-- A copy is looked up as it has been declared. -/
theorem method?_declareAll_of_mem (h : declareAll copies program = (.ok added, declared))
    {c : MethodCopy} (hc : c ∈ copies) : declared.method? c.ref = some c.declaration := by
  have hdistinct := (declarable_of_declareAll h).distinct
  induction copies generalizing program added with
  | nil => contradiction
  | cons copy rest ih =>
    obtain ⟨next, added', hadd, hrest, -⟩ := exists_of_declareAll_cons h
    rw [List.map_cons, List.nodup_cons] at hdistinct
    rcases List.mem_cons.mp hc with rfl | hc
    · rw [method?_declareAll_of_not_mem hrest hdistinct.1, Program.method?_addMethod hadd,
        if_pos rfl]
      rfl
    · exact ih hrest hc hdistinct.2

/-- Fields are looked up as before. -/
theorem field?_declareAll (h : declareAll copies program = (.ok added, declared)) (f : FieldRef) :
    declared.field? f = program.field? f := by
  induction copies generalizing program added with
  | nil =>
    obtain ⟨-, rfl⟩ := Prod.mk.inj h
    rfl
  | cons copy rest ih =>
    obtain ⟨next, added', hadd, hrest, -⟩ := exists_of_declareAll_cons h
    rw [ih hrest, Program.field?_addMethod hadd]

end

/-- **The check agrees with what it checks.** Copies pass it exactly if all of them can be declared.
Declaring them then adds their places in order; each is looked up as the copy made for it, and what
it is looked up as is static exactly if its place is; every other method and every field is looked
up as before. -/
theorem check_decides_declare (t : CopyTable) (program : Program) :
    (t.check program = .ok () ↔ ∃ added, (t.declare program).1 = .ok added)
      ∧ ∀ added, (t.declare program).1 = .ok added →
        added = t.copies.map (·.ref)
          ∧ (∀ c ∈ t.copies, ∃ d, (t.declare program).2.method? c.ref = some d
            ∧ d.ref c.ref.owner = c.ref ∧ d.body = some c.body
            ∧ d.flags = { c.flags with isStatic := c.ref.isStatic })
          ∧ (∀ m, m ∉ t.copies.map (·.ref) →
            (t.declare program).2.method? m = program.method? m)
          ∧ ∀ f, (t.declare program).2.field? f = program.field? f := by
  have hpair : ∀ {added}, (t.declare program).1 = .ok added →
      declareAll t.copies program = (.ok added, (t.declare program).2) :=
    fun h => Prod.ext h rfl
  refine ⟨⟨fun h => ?_, fun ⟨added, h⟩ => ?_⟩, fun added h => ⟨?_, fun c hc => ?_, ?_, ?_⟩⟩
  · obtain ⟨declared, hdeclared, -⟩ := declareAll_of_declarable (check_eq_ok_iff.mp h)
    exact ⟨_, congrArg Prod.fst hdeclared⟩
  · exact check_eq_ok_iff.mpr (declarable_of_declareAll (hpair h))
  · exact added_of_declareAll (hpair h)
  · exact ⟨_, method?_declareAll_of_mem (hpair h) hc, rfl, rfl, rfl⟩
  · exact fun m hm => method?_declareAll_of_not_mem (hpair h) hm
  · exact field?_declareAll (hpair h)

end PatchWeaver

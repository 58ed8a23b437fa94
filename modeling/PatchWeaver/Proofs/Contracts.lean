/-
  PatchWeaver.Proofs.Contracts
  ────────────────────────────
  **WHAT A COMPUTATION CAN COME TO.**

  A contract says of a computation that can fail which results it can have,
  and which errors.  The contract of a computation is put together from
  those of its steps; that of a loop from an invariant, which is said of the
  inputs that the loop has gone through and of what it has made of them:

      I [] b        I done b  →  every turn leads to I (done ++ [a])
      ──────────────────────────────────────────────────────────────
                     the loop over as leads to I as

  A computation that analyses bodies has its contract for every cache that
  is accurate, and leaves an accurate one behind; so stack depths in it are
  those of the analysis.

  Main results:
    * `Yields.foldlM`, `Ensures.foldlM` — the contract of a loop.
    * `Ensures.depths` — depths are those that the analysis yields.
-/
import PatchWeaver.Proofs.Outcome

namespace PatchWeaver

/-! ## §1. Computations that can fail. -/

/-- Results are of one kind, and errors of another. -/
inductive Yields {ε α : Type} (post : α → Prop) (fails : ε → Prop) : Except ε α → Prop where
  | ok {a : α} (h : post a) : Yields post fails (.ok a)
  | error {e : ε} (h : fails e) : Yields post fails (.error e)

namespace Yields

variable {ε α β : Type} {post : α → Prop} {fails : ε → Prop}

theorem of_ok {x : Except ε α} (h : Yields post fails x) {a : α} (hx : x = .ok a) : post a := by
  subst hx
  cases h
  assumption

theorem of_error {x : Except ε α} (h : Yields post fails x) {e : ε} (hx : x = .error e) :
    fails e := by
  subst hx
  cases h
  assumption

/-- What a computation comes to is a contract, once its errors are known. -/
theorem of_errors {x : Except ε α} (h : ∀ e, x = .error e → fails e) :
    Yields (fun a => x = .ok a) fails x := by
  cases x with
  | ok a => exact .ok rfl
  | error e => exact .error (h e rfl)

theorem mono {post' : α → Prop} {fails' : ε → Prop} {x : Except ε α} (h : Yields post fails x)
    (hpost : ∀ a, post a → post' a) (hfails : ∀ e, fails e → fails' e) :
    Yields post' fails' x := by
  cases h with
  | ok h => exact .ok (hpost _ h)
  | error h => exact .error (hfails _ h)

/-- Where there is a result under some condition, an error means that the condition does not
hold. -/
theorem refuting {P : Prop} {x : Except ε α} (h : Yields post fails x) (hok : P → ∃ a, x = .ok a) :
    Yields post (fun _ => ¬ P) x := by
  cases h with
  | ok h => exact .ok h
  | error h =>
    refine .error fun hP => ?_
    obtain ⟨a, ha⟩ := hok hP
    contradiction

theorem bind {post' : β → Prop} {x : Except ε α} {f : α → Except ε β} (h : Yields post fails x)
    (hf : ∀ a, post a → Yields post' fails (f a)) : Yields post' fails (x >>= f) := by
  cases h with
  | ok h => exact hf _ h
  | error h => exact .error h

/-- **The contract of a loop**, from an invariant of its turns. -/
theorem foldlM {f : β → α → Except ε β} {as : List α} {b : β} (I : List α → β → Prop)
    (hnil : I [] b)
    (hstep : ∀ done a rest b, as = done ++ a :: rest → I done b →
      Yields (I (done ++ [a])) fails (f b a)) :
    Yields (I as) fails (as.foldlM f b) := by
  induction as generalizing b I with
  | nil => exact .ok hnil
  | cons a as ih =>
    rw [List.foldlM_cons]
    -- the invariant of the turns to come is said of what stands behind the first input
    refine (hstep [] a as b rfl hnil).bind fun b' hb' => ?_
    exact ih (fun done => I (a :: done)) hb' fun done a' rest b heq hI =>
      hstep (a :: done) a' rest b (by rw [heq]; rfl) hI

end Yields

/-! ## §2. Computations that analyse bodies. -/

namespace Analysing

/-- Whatever accurate cache a computation starts with, it has the contract and leaves an accurate
cache. -/
def Ensures {α : Type} (body? : MethodRef → Option Body) (post : α → Prop)
    (fails : WeaveError → Prop) (x : Analysing α) : Prop :=
  ∀ cache : DepthCache, cache.Accurate body? →
    (x.run cache).2.Accurate body? ∧ Yields post fails (x.outcome cache)

namespace Ensures

variable {α β : Type} {body? : MethodRef → Option Body} {post : α → Prop}
  {fails : WeaveError → Prop}

theorem pure {a : α} (h : post a) : Ensures body? post fails (Pure.pure a : Analysing α) :=
  fun _ hcache => ⟨hcache, .ok h⟩

theorem lift {x : Traced α} (h : Yields post fails x.outcome) :
    Ensures body? post fails (Analysing.lift x) :=
  fun _ hcache => ⟨hcache, h⟩

theorem lift_ok {x : Traced α} {a : α} (h : x.outcome = .ok a) :
    Ensures body? (fun b => b = a) fails (Analysing.lift x) :=
  .lift (by rw [h]; exact .ok rfl)

/-- **Depths are those that the analysis yields**, and so is the failure to find any. -/
theorem depths {method : MethodRef} {body : Body} (hbody : body? method = some body)
    (hfails : ∀ cause, body.depths = .error cause → fails (.stackAnalysis method cause)) :
    Ensures body? (fun depths => body.depths = .ok depths) fails
      (Analysing.depths method body) := by
  intro cache hcache
  refine ⟨DepthCache.accurate_depths hcache hbody, ?_⟩
  have hanswer := DepthCache.depths_of_accurate hcache hbody
  show Yields _ _ ((cache.depths method body).1.mapError _)
  rw [hanswer]
  cases hdepths : body.depths with
  | ok depths => exact .ok rfl
  | error cause => exact .error (hfails cause hdepths)

theorem mono {post' : α → Prop} {fails' : WeaveError → Prop} {x : Analysing α}
    (h : Ensures body? post fails x) (hpost : ∀ a, post a → post' a)
    (hfails : ∀ e, fails e → fails' e) : Ensures body? post' fails' x :=
  fun cache hcache => ⟨(h cache hcache).1, (h cache hcache).2.mono hpost hfails⟩

theorem bind {post' : β → Prop} {x : Analysing α} {f : α → Analysing β}
    (h : Ensures body? post fails x) (hf : ∀ a, post a → Ensures body? post' fails (f a)) :
    Ensures body? post' fails (x >>= f) := by
  intro cache hcache
  obtain ⟨haccurate, hyields⟩ := h cache hcache
  unfold outcome at hyields
  generalize hrun : x.run cache = first at haccurate hyields
  obtain ⟨⟨result, events⟩, cache'⟩ := first
  unfold outcome
  cases hyields with
  | ok ha =>
    rw [run_bind_of_ok f hrun]
    exact hf _ ha cache' haccurate
  | error he =>
    rw [run_bind_of_error f hrun]
    exact ⟨haccurate, .error he⟩

/-- **The contract of a loop**, from an invariant of its turns. -/
theorem foldlM {f : β → α → Analysing β} {as : List α} {b : β} (I : List α → β → Prop)
    (hnil : I [] b)
    (hstep : ∀ done a rest b, as = done ++ a :: rest → I done b →
      Ensures body? (I (done ++ [a])) fails (f b a)) :
    Ensures body? (I as) fails (as.foldlM f b) := by
  induction as generalizing b I with
  | nil => exact .pure hnil
  | cons a as ih =>
    rw [List.foldlM_cons]
    refine (hstep [] a as b rfl hnil).bind fun b' hb' => ?_
    exact ih (fun done => I (a :: done)) hb' fun done a' rest b heq hI =>
      hstep (a :: done) a' rest b (by rw [heq]; rfl) hI

end Ensures

end Analysing

end PatchWeaver

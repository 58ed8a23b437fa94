/-
  PatchWeaver.Weave.Analysis
  ──────────────────────────
  **COMPUTATIONS THAT ANALYSE BODIES.**

  Stack depths of a method are found once and then kept under the method's
  name, by successive runs too; depths found before a failure stay found.
  So the cache is handed on beside the outcome, whatever the outcome is:

      run (x >>= f) cache = run (f a) cache'    if x yields a and leaves cache'

  A cache holds nothing but what the analysis yields as long as no method
  has changed since it was started (`DepthCache.Accurate`).
-/
import PatchWeaver.Machine.Depth
import PatchWeaver.Weave.Trace

namespace PatchWeaver

/-- A traced computation that reads and extends the depths found so far. -/
structure Analysing (α : Type) where
  run : DepthCache → Traced α × DepthCache

namespace Analysing

/-- Succeed silently. -/
def pure {α : Type} (a : α) : Analysing α := ⟨fun cache => (Traced.pure a, cache)⟩

/-- Go on with the result, unless there is none. -/
def bind {α β : Type} (x : Analysing α) (f : α → Analysing β) : Analysing β where
  run cache :=
    let (t, cache) := x.run cache
    match t.outcome with
    | .error e => (⟨.error e, t.events⟩, cache)
    | .ok a =>
      let (u, cache) := (f a).run cache
      (⟨u.outcome, t.events ++ u.events⟩, cache)

instance : Monad Analysing where
  pure := pure
  bind := bind

/-- A computation that analyses nothing. -/
def lift {α : Type} (x : Traced α) : Analysing α := ⟨fun cache => (x, cache)⟩

/-- The depths of a method with the given body. -/
def depths (method : MethodRef) (body : Body) : Analysing Depths where
  run cache :=
    let (result, cache) := cache.depths method body
    (Traced.lift (result.mapError (.stackAnalysis method)), cache)

@[simp]
theorem run_pure {α : Type} (a : α) (cache : DepthCache) :
    (Pure.pure a : Analysing α).run cache = (Traced.pure a, cache) := rfl

@[simp]
theorem run_lift {α : Type} (x : Traced α) (cache : DepthCache) :
    (lift x).run cache = (x, cache) := rfl

/-- A failure ends the computation and keeps the cache. -/
theorem run_bind_of_error {α β : Type} {x : Analysing α} (f : α → Analysing β)
    {cache cache' : DepthCache} {e : WeaveError} {events : List Event}
    (h : x.run cache = (⟨.error e, events⟩, cache')) :
    (x >>= f).run cache = (⟨.error e, events⟩, cache') := by
  show (bind x f).run cache = _
  simp [bind, h]

/-- A success hands its cache on. -/
theorem run_bind_of_ok {α β : Type} {x : Analysing α} (f : α → Analysing β)
    {cache cache' : DepthCache} {a : α} {events : List Event}
    (h : x.run cache = (⟨.ok a, events⟩, cache')) :
    (x >>= f).run cache
      = (⟨((f a).run cache').1.outcome, events ++ ((f a).run cache').1.events⟩,
          ((f a).run cache').2) := by
  show (bind x f).run cache = _
  simp [bind, h]

end Analysing

/-! ## Accurate caches. -/

/-- Whatever is kept for a method is what the analysis of its body yields. -/
def DepthCache.Accurate (c : DepthCache) (body? : MethodRef → Option Body) : Prop :=
  ∀ method body depths, body? method = some body → c.find? method = some depths →
    body.depths = .ok depths

/-- An accurate cache answers as the analysis does. -/
theorem DepthCache.depths_of_accurate {c : DepthCache} {body? : MethodRef → Option Body}
    (hc : c.Accurate body?) {method : MethodRef} {body : Body} (h : body? method = some body) :
    (c.depths method body).1 = body.depths := by
  unfold depths
  cases hf : c.find? method with
  | some d => exact (hc method body d h hf).symm
  | none => cases body.depths <;> rfl

/-- Answering keeps a cache accurate. -/
theorem DepthCache.accurate_depths {c : DepthCache} {body? : MethodRef → Option Body}
    (hc : c.Accurate body?) {method : MethodRef} {body : Body} (h : body? method = some body) :
    (c.depths method body).2.Accurate body? := by
  unfold depths
  cases hf : c.find? method with
  | some d => exact hc
  | none =>
    cases hb : body.depths with
    | error e => exact hc
    | ok d =>
      intro m b found hm hfound
      simp only [find?, List.find?_cons] at hfound
      split at hfound
      · next heq =>
        have heq : method = m := by simpa using heq
        subst heq
        rw [h] at hm
        injection hm with hm
        subst hm
        simpa [hb] using hfound
      · exact hc m b found hm hfound

end PatchWeaver

/-
  PatchWeaver.Proofs.Outcome
  ──────────────────────────
  **STEPS OF COMPUTATIONS THAT CAN FAIL.**

  A computation in steps succeeds exactly when every step does, and fails
  where its first failing step does.  The same holds beneath a trace of
  events, and beneath a cache of depths that is handed on.
-/
import Mathlib.Data.List.Forall2
import PatchWeaver.Weave.Analysis

namespace PatchWeaver

theorem bind_eq_ok_iff {ε α β : Type} {x : Except ε α} {f : α → Except ε β} {b : β} :
    x >>= f = .ok b ↔ ∃ a, x = .ok a ∧ f a = .ok b := by
  cases x <;> simp [bind, Except.bind]

theorem bind_eq_error_iff {ε α β : Type} {x : Except ε α} {f : α → Except ε β} {e : ε} :
    x >>= f = .error e ↔ x = .error e ∨ ∃ a, x = .ok a ∧ f a = .error e := by
  cases x <;> simp [bind, Except.bind]

/-- What is made of a result cannot make a computation fail. -/
theorem exists_bind_pure_error_iff {ε α β : Type} {x : Except ε α} {f : α → β} :
    (∃ e, (x >>= fun a => pure (f a)) = .error e) ↔ ∃ e, x = .error e := by
  cases x with
  | error e => exact iff_of_true ⟨e, rfl⟩ ⟨e, rfl⟩
  | ok a => exact iff_of_false (fun ⟨_, h⟩ => by contradiction) fun ⟨_, h⟩ => by contradiction

@[simp]
theorem ok_bind {ε α β : Type} (a : α) (f : α → Except ε β) : (Except.ok a >>= f) = f a := rfl

@[simp]
theorem error_bind {ε α β : Type} (e : ε) (f : α → Except ε β) :
    (Except.error e >>= f) = .error e := rfl

@[simp]
theorem mapError_ok {ε ε' α : Type} (f : ε → ε') (a : α) :
    (Except.ok a : Except ε α).mapError f = .ok a := rfl

@[simp]
theorem mapError_error {ε ε' α : Type} (f : ε → ε') (e : ε) :
    (Except.error e : Except ε α).mapError f = .error (f e) := rfl

theorem mapError_eq_ok_iff {ε ε' α : Type} {f : ε → ε'} {x : Except ε α} {a : α} :
    x.mapError f = .ok a ↔ x = .ok a := by
  cases x <;> simp

@[simp]
theorem liftMachine_ok {α : Type} (a : α) : liftMachine (.ok a) = .ok a := rfl

theorem liftMachine_eq_ok_iff {α : Type} {x : Except MachineError α} {a : α} :
    liftMachine x = .ok a ↔ x = .ok a := mapError_eq_ok_iff

/-- Every result comes from one of the inputs. -/
theorem exists_of_mem_mapM {ε α β : Type} {f : α → Except ε β} {as : List α} {bs : List β}
    (h : as.mapM f = .ok bs) {b : β} (hb : b ∈ bs) : ∃ a ∈ as, f a = .ok b := by
  induction as generalizing bs with
  | nil =>
    obtain rfl : [] = bs := by simpa [pure, Except.pure] using h
    simp at hb
  | cons a as ih =>
    rw [List.mapM_cons] at h
    obtain ⟨b', hfirst, hrest⟩ := bind_eq_ok_iff.mp h
    obtain ⟨bs', hmapM, heq⟩ := bind_eq_ok_iff.mp hrest
    obtain rfl : b' :: bs' = bs := by simpa [pure, Except.pure] using heq
    rcases List.mem_cons.mp hb with rfl | hb
    · exact ⟨a, List.mem_cons_self, hfirst⟩
    · obtain ⟨a', ha', hfa'⟩ := ih hmapM hb
      exact ⟨a', List.mem_cons_of_mem _ ha', hfa'⟩

/-- Every input has its result. -/
theorem exists_of_mapM_ok {ε α β : Type} {f : α → Except ε β} {as : List α} {bs : List β}
    (h : as.mapM f = .ok bs) {a : α} (ha : a ∈ as) : ∃ b ∈ bs, f a = .ok b := by
  induction as generalizing bs with
  | nil => simp at ha
  | cons a' as ih =>
    rw [List.mapM_cons] at h
    obtain ⟨b', hfirst, hrest⟩ := bind_eq_ok_iff.mp h
    obtain ⟨bs', hmapM, heq⟩ := bind_eq_ok_iff.mp hrest
    obtain rfl : b' :: bs' = bs := by simpa [pure, Except.pure] using heq
    rcases List.mem_cons.mp ha with rfl | ha
    · exact ⟨b', List.mem_cons_self, hfirst⟩
    · obtain ⟨b, hb, hfa⟩ := ih hmapM ha
      exact ⟨b, List.mem_cons_of_mem _ hb, hfa⟩

/-- What stands in one list has its counterpart in the other one. -/
theorem exists_of_forall₂ {α β : Type} {R : α → β → Prop} {as : List α} {bs : List β}
    (h : List.Forall₂ R as bs) {a : α} (ha : a ∈ as) : ∃ b ∈ bs, R a b := by
  induction h with
  | nil => contradiction
  | @cons a' b as bs hfirst _ ih =>
    rcases List.mem_cons.mp ha with rfl | ha
    · exact ⟨b, List.mem_cons_self, hfirst⟩
    · obtain ⟨b', hb', hrel⟩ := ih ha
      exact ⟨b', List.mem_cons_of_mem _ hb', hrel⟩

/-- A computation for every input succeeds with the results of each, in order. -/
theorem forall₂_of_mapM {ε α β : Type} {f : α → Except ε β} {as : List α} {bs : List β}
    (h : as.mapM f = .ok bs) : List.Forall₂ (fun a b => f a = .ok b) as bs := by
  induction as generalizing bs with
  | nil =>
    obtain rfl : [] = bs := by simpa [pure, Except.pure] using h
    exact .nil
  | cons a as ih =>
    rw [List.mapM_cons] at h
    obtain ⟨b, hfirst, hrest⟩ := bind_eq_ok_iff.mp h
    obtain ⟨bs', hmapM, heq⟩ := bind_eq_ok_iff.mp hrest
    obtain rfl : b :: bs' = bs := by simpa [pure, Except.pure] using heq
    exact .cons hfirst (ih hmapM)

/-- A computation for every input succeeds if each does. -/
theorem mapM_eq_ok {ε α β : Type} {f : α → Except ε β} {g : α → β} {as : List α}
    (h : ∀ a ∈ as, f a = .ok (g a)) : as.mapM f = .ok (as.map g) := by
  induction as with
  | nil => rfl
  | cons a as ih =>
    obtain ⟨hfirst, hrest⟩ := List.forall_mem_cons.mp h
    rw [List.mapM_cons, hfirst, ih hrest]
    rfl

/-- Computations for some inputs and then for others are one for all of them. -/
theorem mapM_append_eq_ok {ε α β : Type} {f : α → Except ε β} {as as' : List α} {bs bs' : List β}
    (h : as.mapM f = .ok bs) (h' : as'.mapM f = .ok bs') :
    (as ++ as').mapM f = .ok (bs ++ bs') := by
  rw [List.mapM_append, h, h']
  rfl

/-- A computation for inputs that were made of others, with results that are made of theirs. -/
theorem mapM_map_eq_map {ε α α' β β' : Type} {f : α → Except ε β} {f' : α' → Except ε β'}
    {g : α → α'} {h : β → β'} {as : List α} (heq : ∀ a ∈ as, f' (g a) = (f a).map h) :
    (as.map g).mapM f' = (as.mapM f).map (List.map h) := by
  induction as with
  | nil => rfl
  | cons a as ih =>
    rw [List.forall_mem_cons] at heq
    rw [List.map_cons, List.mapM_cons, List.mapM_cons, heq.1, ih heq.2]
    cases f a with
    | error e => rfl
    | ok b => cases as.mapM f <;> rfl

/-- A computation for some of the inputs has some of the results. -/
theorem mapM_filter_eq_ok {ε α β : Type} {f : α → Except ε β} {p : α → Bool} {q : β → Bool}
    {as : List α} {bs : List β} (h : as.mapM f = .ok bs) (hq : ∀ a b, f a = .ok b → q b = p a) :
    (as.filter p).mapM f = .ok (bs.filter q) := by
  induction as generalizing bs with
  | nil =>
    obtain rfl : [] = bs := by simpa [pure, Except.pure] using h
    rfl
  | cons a as ih =>
    rw [List.mapM_cons] at h
    obtain ⟨b, hfirst, hrest⟩ := bind_eq_ok_iff.mp h
    obtain ⟨bs', hmapM, heq⟩ := bind_eq_ok_iff.mp hrest
    obtain rfl : b :: bs' = bs := by simpa [pure, Except.pure] using heq
    rw [List.filter_cons, List.filter_cons, hq a b hfirst]
    split
    · rw [List.mapM_cons, hfirst, ih hmapM]
      rfl
    · exact ih hmapM

/-- A computation for every input fails as one of them does. -/
theorem exists_of_mapM_error {ε α β : Type} {f : α → Except ε β} {as : List α} {e : ε}
    (h : as.mapM f = .error e) : ∃ a ∈ as, f a = .error e := by
  induction as with
  | nil => simp [pure, Except.pure] at h
  | cons a as ih =>
    rw [List.mapM_cons] at h
    rcases bind_eq_error_iff.mp h with hfirst | ⟨b, -, hrest⟩
    · exact ⟨a, List.mem_cons_self, hfirst⟩
    · rcases bind_eq_error_iff.mp hrest with hrest | ⟨bs, -, hpure⟩
      · obtain ⟨a', ha', hfa'⟩ := ih hrest
        exact ⟨a', List.mem_cons_of_mem _ ha', hfa'⟩
      · contradiction

/-- A computation for every input fails exactly if one of them does. -/
theorem exists_mapM_error_iff {ε α β : Type} {f : α → Except ε β} {as : List α} :
    (∃ e, as.mapM f = .error e) ↔ ∃ a ∈ as, ∃ e, f a = .error e := by
  constructor
  · rintro ⟨e, h⟩
    obtain ⟨a, ha, hfa⟩ := exists_of_mapM_error h
    exact ⟨a, ha, e, hfa⟩
  · rintro ⟨a, ha, e, hfa⟩
    cases hall : as.mapM f with
    | error e => exact ⟨e, rfl⟩
    | ok bs =>
      obtain ⟨b, -, hb⟩ := exists_of_mapM_ok hall ha
      rw [hfa] at hb
      contradiction

/-- A loop whose turns succeed exactly on some inputs succeeds exactly on lists of these. -/
theorem foldlM_eq_ok_iff {ε α β : Type} {f : β → α → Except ε β} {p : α → Prop} {g : β → α → β}
    (hstep : ∀ b a b', f b a = .ok b' ↔ p a ∧ g b a = b') {as : List α} {b c : β} :
    as.foldlM f b = .ok c ↔ (∀ a ∈ as, p a) ∧ as.foldl g b = c := by
  induction as generalizing b with
  | nil => simp [pure, Except.pure]
  | cons a as ih =>
    rw [List.foldlM_cons, bind_eq_ok_iff]
    constructor
    · rintro ⟨b', hfirst, hrest⟩
      obtain ⟨ha, rfl⟩ := (hstep b a b').mp hfirst
      obtain ⟨has, rfl⟩ := ih.mp hrest
      exact ⟨List.forall_mem_cons.mpr ⟨ha, has⟩, rfl⟩
    · rintro ⟨hall, rfl⟩
      obtain ⟨ha, has⟩ := List.forall_mem_cons.mp hall
      exact ⟨g b a, (hstep b a _).mpr ⟨ha, rfl⟩, ih.mpr ⟨has, rfl⟩⟩

namespace Traced

theorem ext {α : Type} {x y : Traced α} (houtcome : x.outcome = y.outcome)
    (hevents : x.events = y.events) : x = y := by
  cases x
  cases y
  simp_all

/-- Telling before failing and telling before going on compose. -/
instance : LawfulMonad Traced := by
  refine LawfulMonad.mk' Traced (fun x => ?_) (fun a f => ?_) (fun x f g => ?_)
  · show bind x (fun a => pure a) = x
    unfold bind
    cases hx : x.outcome <;> refine ext ?_ ?_ <;> simp [hx, pure]
  · show bind (pure a) f = f a
    exact ext rfl (List.nil_append _)
  · show bind (bind x f) g = bind x fun a => bind (f a) g
    unfold bind
    cases hx : x.outcome with
    | error e => simp
    | ok a => cases hf : (f a).outcome <;> simp [hf]

@[simp]
theorem outcome_map {α β : Type} (f : α → β) (x : Traced α) :
    (f <$> x).outcome = x.outcome.map f := by
  rw [← bind_pure_comp, outcome_bind]
  cases x.outcome <;> rfl

/-- Without its events, a computation for every input is one of outcomes. -/
theorem outcome_mapM {α β : Type} (f : α → Traced β) (as : List α) :
    (as.mapM f).outcome = as.mapM fun a => (f a).outcome := by
  induction as with
  | nil => rfl
  | cons a as ih =>
    rw [List.mapM_cons, List.mapM_cons, outcome_bind]
    simp only [outcome_bind, ih]
    rfl

/-- Without its events, a loop is one of outcomes. -/
theorem outcome_foldlM {α β : Type} (f : β → α → Traced β) (as : List α) (b : β) :
    (as.foldlM f b).outcome = as.foldlM (fun b a => (f b a).outcome) b := by
  induction as generalizing b with
  | nil => rfl
  | cons a as ih =>
    rw [List.foldlM_cons, List.foldlM_cons, outcome_bind]
    simp only [ih]

end Traced

namespace Analysing

/-- What a computation comes to when it starts with a cache. -/
def outcome {α : Type} (x : Analysing α) (cache : DepthCache) : Except WeaveError α :=
  (x.run cache).1.outcome

/-- A successful computation has gone through its first step and then through the rest. -/
theorem exists_of_bind_ok {α β : Type} {x : Analysing α} {f : α → Analysing β} {cache : DepthCache}
    {b : β} (h : (x >>= f).outcome cache = .ok b) :
    ∃ a, x.outcome cache = .ok a ∧ (f a).outcome (x.run cache).2 = .ok b := by
  change (bind x f).outcome cache = .ok b at h
  unfold outcome bind at h
  unfold outcome
  cases hx : (x.run cache).1.outcome with
  | error e => simp [hx] at h
  | ok a => exact ⟨a, rfl, by simpa [hx] using h⟩

@[simp]
theorem outcome_lift {α : Type} (x : Traced α) (cache : DepthCache) :
    (lift x).outcome cache = x.outcome := rfl

end Analysing

end PatchWeaver

/-
  PatchWeaver.Proofs.Growth
  ─────────────────────────
  **HOW A PROGRAM GROWS BY A RUN.**

  Class by class, a run keeps the declarations that there are, gives some of
  them new bodies, and appends the copies that it has made:

      methods of n  ↦  installOn bodies n (methods of n) ++ copies for n

  The body that is installed for a method was woven from the body of the
  first declaration that answers to it, and that declaration is the one that
  gets it.  So what splicing does to one body (`Splicer.Turns`) is what a
  run does to every declaration, and what has been declared stays so.

  Main results:
    * `classes_woven` — the classes of a woven program, as an equation.
    * `exists_copies_of_weave` — the program grows by every successful run,
      whatever of splicing is kept track of.
    * `Program.Grows.hasMethod` — no member is lost.
    * `forall₂_of_redirectBody` — a copy against the method it was made of.
-/
import PatchWeaver.Proofs.Effects
import PatchWeaver.Proofs.Interleaving

namespace PatchWeaver

/-! ## §1. Growing programs. -/

/-- What becomes of a body that a declaration may have. -/
inductive BodyGrows (R : Body → Body → Prop) : Option Body → Option Body → Prop where
  | absent : BodyGrows R none none
  | present {b c : Body} (h : R b c) : BodyGrows R (some b) (some c)

/-- A declaration is kept, and its body has become another one. -/
structure MethodDef.Grows (R : Body → Body → Prop) (d d' : MethodDef) : Prop where
  name_eq : d'.name = d.name
  descriptor_eq : d'.descriptor = d.descriptor
  flags_eq : d'.flags = d.flags
  body : BodyGrows R d.body d'.body

/-- A class is kept with its declarations, behind which new methods stand. -/
structure ClassGrows (R : Body → Body → Prop) (new : ClassName → List MethodDef)
    (x x' : ClassName × ClassDef) : Prop where
  name_eq : x'.1 = x.1
  superclass_eq : x'.2.superclass = x.2.superclass
  fields_eq : x'.2.fields = x.2.fields
  methods_eq : ∃ kept, x'.2.methods = kept ++ new x.1
    ∧ List.Forall₂ (MethodDef.Grows R) x.2.methods kept

/-- Every class of a program is kept, with new methods behind those that it has. -/
def Program.Grows (R : Body → Body → Prop) (new : ClassName → List MethodDef)
    (p p' : Program) : Prop :=
  List.Forall₂ (ClassGrows R new) p.classes p'.classes

theorem BodyGrows.refl {R : Body → Body → Prop} (hrefl : ∀ b, R b b) (body : Option Body) :
    BodyGrows R body body := by
  cases body with
  | none => exact .absent
  | some b => exact .present (hrefl b)

theorem BodyGrows.mono {R R' : Body → Body → Prop} {body body' : Option Body}
    (h : BodyGrows R body body') (hR : ∀ b c, body = some b → R b c → R' b c) :
    BodyGrows R' body body' := by
  cases h with
  | absent => exact .absent
  | present h => exact .present (hR _ _ rfl h)

theorem MethodDef.Grows.ref_eq {R : Body → Body → Prop} {d d' : MethodDef} (h : d.Grows R d')
    (n : ClassName) : d'.ref n = d.ref n := by
  unfold ref
  rw [h.name_eq, h.descriptor_eq, h.flags_eq]

theorem forall₂_imp_of_mem {α β : Type} {R R' : α → β → Prop} {as : List α} {bs : List β}
    (h : List.Forall₂ R as bs) (hR : ∀ a ∈ as, ∀ b, R a b → R' a b) : List.Forall₂ R' as bs := by
  induction h with
  | nil => exact .nil
  | cons hfirst _ ih =>
    rw [List.forall_mem_cons] at hR
    exact .cons (hR.1 _ hfirst) (ih hR.2)

/-- What a look-up finds in one of two lists that are related in place, it finds in the other. -/
theorem exists_find?_of_forall₂ {α β : Type} {R : α → β → Prop} {as : List α} {bs : List β}
    (h : List.Forall₂ R as bs) {test : α → Bool} (test' : β → Bool)
    (htest : ∀ a b, R a b → test' b = test a) {a : α} (hfind : as.find? test = some a) :
    ∃ b, bs.find? test' = some b ∧ R a b := by
  induction h with
  | nil => contradiction
  | @cons a' b' as bs hfirst _ ih =>
    rw [List.find?_cons] at hfind
    rw [List.find?_cons, htest a' b' hfirst]
    -- the test agrees on related elements, so both look-ups stop at the same place
    cases hcase : test a' with
    | true =>
      rw [hcase] at hfind
      obtain rfl := Option.some_inj.mp hfind
      exact ⟨b', rfl, hfirst⟩
    | false =>
      rw [hcase] at hfind
      exact ih hfind

namespace Program.Grows

variable {R : Body → Body → Prop} {new : ClassName → List MethodDef} {p p' : Program}

theorem refl (hrefl : ∀ b, R b b) (p : Program) : p.Grows R (fun _ => []) p := by
  refine List.forall₂_same.mpr fun x _ => ⟨rfl, rfl, rfl, x.2.methods, by simp, ?_⟩
  exact List.forall₂_same.mpr fun d _ => ⟨rfl, rfl, rfl, .refl hrefl d.body⟩

/-- Only bodies of the program have become others. -/
theorem mono {R' : Body → Body → Prop} (h : p.Grows R new p')
    (hR : ∀ m b c, (m, b) ∈ p.bodies → R b c → R' b c) : p.Grows R' new p' := by
  refine forall₂_imp_of_mem h fun x hx x' hgrows =>
    ⟨hgrows.name_eq, hgrows.superclass_eq, hgrows.fields_eq, ?_⟩
  obtain ⟨kept, hmethods, hkept⟩ := hgrows.methods_eq
  refine ⟨kept, hmethods, forall₂_imp_of_mem hkept fun d hd d' hgrown =>
    ⟨hgrown.name_eq, hgrown.descriptor_eq, hgrown.flags_eq, ?_⟩⟩
  refine hgrown.body.mono fun b c hb => hR (d.ref x.1) b c ?_
  exact List.mem_flatMap.mpr ⟨x, hx, List.mem_filterMap.mpr ⟨d, hd, by rw [hb]; rfl⟩⟩

/-- A class is found as what it has become. -/
theorem exists_class? (h : p.Grows R new p') {n : ClassName} {c : ClassDef}
    (hc : p.class? n = some c) : ∃ c', p'.class? n = some c' ∧ ClassGrows R new (n, c) (n, c') := by
  obtain ⟨⟨n', c'⟩, hfind, rfl⟩ := Option.map_eq_some_iff.mp hc
  obtain rfl : n' = n := by simpa using List.find?_some hfind
  obtain ⟨⟨m, d⟩, hfind', hgrows⟩ := exists_find?_of_forall₂ h (·.1 = n')
    (fun x x' hx => by rw [hx.name_eq]) hfind
  obtain rfl : m = n' := hgrows.name_eq
  refine ⟨d, ?_, hgrows⟩
  unfold class?
  rw [hfind']
  rfl

/-- **No method is lost.** -/
theorem hasMethod (h : p.Grows R new p') {m : MethodRef} (hm : p.hasMethod m = true) :
    p'.hasMethod m = true := by
  obtain ⟨c, hc, d, hd, href⟩ := hasMethod_iff.mp hm
  obtain ⟨c', hc', hgrows⟩ := h.exists_class? hc
  obtain ⟨kept, hmethods, hkept⟩ := hgrows.methods_eq
  obtain ⟨d', hd', hgrown⟩ := exists_of_forall₂ hkept hd
  refine hasMethod_iff.mpr ⟨c', hc', d', ?_, ?_⟩
  · rw [hmethods]
    exact List.mem_append_left _ hd'
  · rw [hgrown.ref_eq, href]

/-- **No field is lost.** -/
theorem hasField (h : p.Grows R new p') {f : FieldRef} (hf : p.hasField f = true) :
    p'.hasField f = true := by
  obtain ⟨d, hd⟩ := Option.isSome_iff_exists.mp hf
  obtain ⟨c, hc, hfind⟩ := Option.bind_eq_some_iff.mp hd
  obtain ⟨c', hc', hgrows⟩ := h.exists_class? hc
  unfold Program.hasField field?
  rw [hc', Option.bind_eq_bind, Option.bind_some, hgrows.fields_eq, hfind]
  rfl

/-- What is new on a class that there is is declared. -/
theorem hasMethod_of_new (h : p.Grows R new p') {m : MethodRef} (hclass : p.hasClass m.owner = true)
    {d : MethodDef} (hd : d ∈ new m.owner) (hm : d.ref m.owner = m) : p'.hasMethod m = true := by
  obtain ⟨c, hc⟩ := Option.isSome_iff_exists.mp hclass
  obtain ⟨c', hc', hgrows⟩ := h.exists_class? hc
  obtain ⟨kept, hmethods, -⟩ := hgrows.methods_eq
  refine hasMethod_iff.mpr ⟨c', hc', d, ?_, hm⟩
  rw [hmethods]
  exact List.mem_append_right _ hd

/-- A body of the grown program is new with its method, or a body has become it. -/
theorem exists_of_mem_bodies (h : p.Grows R new p') {m : MethodRef} {c : Body}
    (hc : (m, c) ∈ p'.bodies) :
    (∃ b, (m, b) ∈ p.bodies ∧ R b c) ∨ ∃ d ∈ new m.owner, d.body = some c := by
  obtain ⟨⟨n, after⟩, hx', hmem⟩ := List.mem_flatMap.mp hc
  obtain ⟨d', hd', hbody⟩ := List.mem_filterMap.mp hmem
  obtain ⟨b, hb, heq⟩ := Option.map_eq_some_iff.mp hbody
  obtain ⟨rfl, rfl⟩ := Prod.mk.inj heq
  obtain ⟨x, hx, hgrows⟩ := exists_of_forall₂ (List.Forall₂.flip h) hx'
  obtain rfl : n = x.1 := hgrows.name_eq
  obtain ⟨kept, hmethods, hkept⟩ := hgrows.methods_eq
  dsimp only at hmethods hd'
  rw [hmethods] at hd'
  rcases List.mem_append.mp hd' with hold | hnew
  · -- a declaration that was kept had a body before, as one is only replaced by another
    left
    obtain ⟨d, hd, hgrown⟩ := exists_of_forall₂ hkept.flip hold
    have hbodies := hgrown.body
    rw [hb] at hbodies
    generalize hold : d.body = old at hbodies
    cases hbodies with
    | @present b _ hrel =>
      refine ⟨b, List.mem_flatMap.mpr ⟨x, hx, List.mem_filterMap.mpr ⟨d, hd, ?_⟩⟩, hrel⟩
      rw [hold, hgrown.ref_eq]
      rfl
  · exact .inr ⟨d', hnew, hb⟩

end Program.Grows

/-! ## §2. Bodies on declarations. -/

theorem updateFirst_append {α : Type} {test : α → Bool} {f : α → α} {as bs : List α}
    (h : ∃ a ∈ as, test a = true) :
    updateFirst test f (as ++ bs) = updateFirst test f as ++ bs := by
  induction as with
  | nil =>
    obtain ⟨a, ha, -⟩ := h
    contradiction
  | cons a as ih =>
    simp only [List.cons_append, updateFirst]
    split
    · rfl
    · next hfirst =>
      -- the item that is changed stands further behind
      obtain ⟨a', ha', htest⟩ := h
      rcases List.mem_cons.mp ha' with rfl | ha'
      · contradiction
      · rw [ih ⟨a', ha', htest⟩]
        rfl

section

variable {n : ClassName} {methods : List MethodDef} {bodies : List (MethodRef × Body)}

/-- Installing bodies takes no declaration away. -/
theorem exists_matches_updateFirst {m m' : MethodRef} (body : Body)
    (h : ∃ d ∈ methods, d.matches? m' = true) :
    ∃ d ∈ updateFirst (·.matches? m) ({ · with body := some body }) methods,
      d.matches? m' = true := by
  induction methods with
  | nil => exact h
  | cons d rest ih =>
    unfold updateFirst
    -- a declaration keeps its name with a new body
    obtain ⟨d', hd', hmatches⟩ := h
    rcases List.mem_cons.mp hd' with rfl | hd'
    · split
      · exact ⟨_, List.mem_cons_self, hmatches⟩
      · exact ⟨_, List.mem_cons_self, hmatches⟩
    · split
      · exact ⟨d', List.mem_cons_of_mem _ hd', hmatches⟩
      · obtain ⟨d'', hd'', hmatches'⟩ := ih ⟨d', hd', hmatches⟩
        exact ⟨d'', List.mem_cons_of_mem _ hd'', hmatches'⟩

/-- **Bodies of methods that there are are installed on those**, whatever stands behind them. -/
theorem installOn_append_of_declared {new : List MethodDef}
    (h : ∀ x ∈ bodies, x.1.owner = n → ∃ d ∈ methods, d.matches? x.1 = true) :
    installOn bodies n (methods ++ new) = installOn bodies n methods ++ new := by
  induction bodies generalizing methods with
  | nil => rfl
  | cons entry rest ih =>
    obtain ⟨m, body⟩ := entry
    rw [List.forall_mem_cons] at h
    unfold installOn
    rw [List.foldl_cons, List.foldl_cons]
    -- a body of this class finds its method among the old ones, which keep their names
    by_cases howner : m.owner = n
    · simp only [howner, if_true]
      rw [updateFirst_append (h.1 howner)]
      exact ih fun x hx hxowner => exists_matches_updateFirst body (h.2 x hx hxowner)
    · simp only [howner, if_false]
      exact ih h.2

/-- Declarations after some bodies have been installed: a method that has got none has kept its
own. -/
structure MethodDef.Grown (R : Body → Body → Prop) (n : ClassName) (done : List MethodRef)
    (d d' : MethodDef) : Prop where
  grows : d.Grows R d'
  eq_of_not_mem : d.ref n ∉ done → d' = d

variable {R : Body → Body → Prop} {done : List MethodRef} {current : List MethodDef}

/-- **A body goes to the first declaration of its method**, which still has the body that it had. -/
theorem forall₂_grown_updateFirst {m : MethodRef} {body : Body}
    (h : List.Forall₂ (MethodDef.Grown R n done) methods current) (howner : m.owner = n)
    (hm : m ∉ done)
    (hfirst : ∀ d, methods.find? (·.matches? m) = some d → ∃ b, d.body = some b ∧ R b body) :
    List.Forall₂ (MethodDef.Grown R n (m :: done)) methods
      (updateFirst (·.matches? m) ({ · with body := some body }) current) := by
  have hmono : ∀ d d', MethodDef.Grown R n done d d' → MethodDef.Grown R n (m :: done) d d' :=
    fun d d' hd => ⟨hd.grows, fun hnot => hd.eq_of_not_mem fun hmem => hnot (.tail _ hmem)⟩
  induction h with
  | nil => exact .nil
  | @cons d d' rest rest' hd hrest ih =>
    have href : d'.ref n = d.ref n := hd.grows.ref_eq n
    unfold updateFirst
    split
    · next hmatches =>
      -- nothing has been installed for this method, so it still has the body that it had
      have hd' : d'.ref n = m := by simpa [MethodDef.matches?, howner] using hmatches
      obtain rfl : d' = d := hd.eq_of_not_mem (by rwa [← href, hd'])
      obtain ⟨b, hb, hrel⟩ := hfirst d' (by rw [List.find?_cons, hmatches])
      refine .cons ⟨⟨rfl, rfl, rfl, ?_⟩, fun hnot => ?_⟩ (hrest.imp hmono)
      · rw [hb]
        exact .present hrel
      · exact absurd (hd' ▸ List.mem_cons_self) hnot
    · next hmatches =>
      -- the first declaration of the method stands further behind
      have hnot : d.matches? m = false := by
        have hne : ¬ d'.ref n = m := by simpa [MethodDef.matches?, howner] using hmatches
        rw [href] at hne
        simpa [MethodDef.matches?, howner] using hne
      refine .cons (hmono d d' hd) (ih fun d'' hfind => hfirst d'' ?_)
      rw [List.find?_cons, hnot]
      exact hfind

/-- Installing the bodies that are left over makes declarations grow. -/
theorem forall₂_grows_installOn_of_grown
    (h : List.Forall₂ (MethodDef.Grown R n done) methods current)
    (hdone : ∀ x ∈ bodies, x.1 ∉ done) (hdistinct : (bodies.map (·.1)).Nodup)
    (hfirst : ∀ x ∈ bodies, x.1.owner = n → ∀ d, methods.find? (·.matches? x.1) = some d →
      ∃ b, d.body = some b ∧ R b x.2) :
    List.Forall₂ (MethodDef.Grows R) methods (installOn bodies n current) := by
  induction bodies generalizing done current with
  | nil => exact h.imp fun d d' hd => hd.grows
  | cons entry rest ih =>
    obtain ⟨m, body⟩ := entry
    rw [List.forall_mem_cons] at hdone hfirst
    rw [List.map_cons, List.nodup_cons] at hdistinct
    show List.Forall₂ _ _ (installOn rest n
      (if m.owner = n then updateFirst (·.matches? m) ({ · with body := some body }) current
        else current))
    split
    · next howner =>
      have hnext := forall₂_grown_updateFirst h howner hdone.1 (hfirst.1 howner)
      refine ih hnext (fun x hx hin => ?_) hdistinct.2 hfirst.2
      -- this method does not come up again
      rcases List.mem_cons.mp hin with heq | hin
      · have hmem : x.1 ∈ rest.map (·.1) := List.mem_map_of_mem hx
        exact hdistinct.1 (heq ▸ hmem)
      · exact hdone.2 x hx hin
    · exact ih h hdone.2 hdistinct.2 hfirst.2

/-- **Installing bodies makes declarations grow.** -/
theorem forall₂_grows_installOn (hrefl : ∀ b, R b b) (hdistinct : (bodies.map (·.1)).Nodup)
    (hfirst : ∀ x ∈ bodies, x.1.owner = n → ∀ d, methods.find? (·.matches? x.1) = some d →
      ∃ b, d.body = some b ∧ R b x.2) :
    List.Forall₂ (MethodDef.Grows R) methods (installOn bodies n methods) := by
  have hstart : List.Forall₂ (MethodDef.Grown R n []) methods methods :=
    List.forall₂_same.mpr fun d _ => ⟨⟨rfl, rfl, rfl, .refl hrefl d.body⟩, fun _ => rfl⟩
  exact forall₂_grows_installOn_of_grown hstart (fun x _ => List.not_mem_nil) hdistinct hfirst

end

/-! ## §3. The program after a run. -/

theorem Program.class?_of_mem {p : Program} {x : ClassName × ClassDef} (hx : x ∈ p.classes) :
    p.class? x.1 = some x.2 := by
  have hordered := p.ordered
  unfold ClassTable.Ordered at hordered
  unfold class?
  generalize p.classes = classes at hx hordered
  induction classes with
  | nil => contradiction
  | cons y rest ih =>
    rw [List.map_cons, List.pairwise_cons] at hordered
    rcases List.mem_cons.mp hx with rfl | hx
    · simp
    · have hlt : y.1 < x.1 := hordered.1 _ (List.mem_map_of_mem hx)
      have hne : y.1 ≠ x.1 := fun heq => String.lt_irrefl _ (heq ▸ hlt)
      rw [List.find?_cons]
      simp only [hne, decide_false]
      exact ih hx hordered.2

/-- **The classes of a woven program.** -/
theorem classes_woven {program declared woven : Program} {copies : List MethodCopy}
    {bodies : List (MethodRef × Body)} {added patched : List MethodRef}
    (hdeclare : declareAll copies program = (.ok added, declared))
    (hinstall : installAll bodies declared = (.ok patched, woven))
    (hdeclared : ∀ x ∈ bodies, program.hasMethod x.1 = true) :
    woven.classes = program.classes.map fun x =>
      (x.1, { x.2 with
        methods := installOn bodies x.1 x.2.methods ++ declarationsOn copies x.1 }) := by
  rw [classes_installAll hinstall, classes_declareAll hdeclare, List.map_map]
  refine List.map_congr_left fun x hx => ?_
  -- each body belongs to a method that the class had before copies were declared
  have hold : ∀ y ∈ bodies, y.1.owner = x.1 → ∃ d ∈ x.2.methods, d.matches? y.1 = true := by
    intro y hy howner
    obtain ⟨c, hc, d, hd, href⟩ := Program.hasMethod_iff.mp (hdeclared y hy)
    rw [howner, Program.class?_of_mem hx] at hc
    obtain rfl := Option.some_inj.mp hc
    exact ⟨d, hd, by simpa [MethodDef.matches?] using href⟩
  simp only [Function.comp, installOn_append_of_declared hold]

/-- **A successful run lets the program grow** by copies, which have been made for the places of the
registry, and its bodies become others as splicing makes them.  What splicing does to a body may be
put in many ways; it has to hold of a body that stays, too. -/
theorem exists_copies_of_weave {w : Weaver} {program : Program} {mixins : List Mixin}
    {report : WeaveReport} (hruns : HasRun w program)
    (h : (w.weave program mixins).outcome = .ok report) :
    ∃ t : CopyTable, t.MadeFor program (scanned program mixins).places
      ∧ Declarable program t.copies
      ∧ ∀ R : Body → Body → Prop, (∀ b, R b b) →
        (∀ selected run woven,
          Splicer.Weaves ⟨w.settings.debugMarkers, scanned program mixins, t⟩ program selected run
            woven → ∃ body, program.body? selected.1 = some body ∧ R body woven) →
        program.Grows R (declarationsOn t.copies) (w.weave program mixins).program := by
  have hgoes := Weaver.goes_weave hruns.accurate mixins
  generalize w.weave program mixins = result at h hgoes
  cases hgoes with
  | failed _ _ => contradiction
  | @succeeded c events declared woven prepared declares installs =>
    obtain ⟨-, hregistry, hcopies, ⟨selection, hholds, hmade⟩, hchecked, hinstallable⟩ := prepared
    rw [hregistry] at hcopies hholds hmade
    obtain ⟨hdeclarable, -⟩ := checkDeclarable_eq_ok_iff.mp hchecked
    refine ⟨c.copies, hcopies, hdeclarable, fun R hrefl hsplicing => ?_⟩
    have hdistinct : (c.bodies.map (·.1)).Nodup := by
      have hselected : c.bodies.map (·.1) = selection.methods.map (·.1) := hmade.map_fst_bodies
      rw [hselected]
      exact hholds.tidy.distinct
    unfold Program.Grows
    show List.Forall₂ _ program.classes woven.classes
    rw [classes_woven declares installs (checkInstallable_eq_ok_iff.mp hinstallable),
      List.forall₂_map_right_iff, List.forall₂_same]
    intro x hx
    refine ⟨rfl, rfl, rfl, _, rfl, forall₂_grows_installOn hrefl hdistinct ?_⟩
    rintro ⟨m, body⟩ hmem howner d hfind
    obtain ⟨offsets, run, -, hweaves⟩ := hmade.exists_of_mem hmem
    obtain ⟨old, hold, hbecomes⟩ := hsplicing _ _ _ hweaves
    refine ⟨old, ?_, hbecomes⟩
    -- the declaration that is looked up is the first one of its class
    dsimp only at hold howner hfind
    unfold Program.body? at hold
    rw [Program.method?_eq, howner, Program.class?_of_mem hx] at hold
    have hold' : ((some x.2).bind fun c => c.methods.find? (·.matches? m)) = some d := hfind
    rw [hold'] at hold
    exact hold

/-- **By a successful run, entries of the program are kept between entries of the run.** -/
theorem grows_of_weave {w : Weaver} {program : Program} {mixins : List Mixin}
    {report : WeaveReport} (hruns : HasRun w program)
    (h : (w.weave program mixins).outcome = .ok report) :
    ∃ t : CopyTable, t.MadeFor program (scanned program mixins).places
      ∧ Declarable program t.copies
      ∧ program.Grows (Splicer.Turns ⟨w.settings.debugMarkers, scanned program mixins, t⟩)
          (declarationsOn t.copies) (w.weave program mixins).program := by
  obtain ⟨t, hmade, hdeclarable, hgrows⟩ := exists_copies_of_weave hruns h
  refine ⟨t, hmade, hdeclarable, hgrows _ (Splicer.Turns.refl _) ?_⟩
  intro selected run woven hweaves
  exact hweaves.turns

/-! ## §4. Copies. -/

/-- What an entry of a mixin method has become in a copy. -/
structure Entry.RedirectsTo (program : Program) (mixin : MixinInfo) (owner : ClassName)
    (e e' : Entry) : Prop where
  label_eq : e'.label = e.label
  origin_eq : e'.origin = e.origin
  instruction : redirectInstruction program mixin owner e.instruction = .ok e'.instruction

/-- **A copy differs from the method it was made of in the members that it names only.** -/
theorem forall₂_of_redirectBody {program : Program} {mixin : MixinInfo} {owner : ClassName}
    {body copy : Body} (h : redirectBody program mixin owner body = .ok copy) :
    List.Forall₂ (Entry.RedirectsTo program mixin owner) body.entries copy.entries
      ∧ copy.locals = body.locals ∧ copy.labels = body.labels := by
  obtain ⟨entries, hentries, heq⟩ := bind_eq_ok_iff.mp h
  obtain rfl := Except.ok.inj heq
  refine ⟨(forall₂_of_mapM hentries).imp fun e e' he => ?_, rfl, rfl⟩
  obtain ⟨i, hi, heq⟩ := bind_eq_ok_iff.mp he
  obtain rfl := Except.ok.inj heq
  exact ⟨rfl, rfl, hi⟩

/-- The body of a new method is that of a copy. -/
theorem exists_copy_of_declarationsOn {copies : List MethodCopy} {n : ClassName} {d : MethodDef}
    (hd : d ∈ declarationsOn copies n) :
    ∃ c ∈ copies, c.ref.owner = n ∧ d.ref n = c.ref ∧ d.body = some c.body := by
  obtain ⟨c, hc, rfl⟩ := List.mem_map.mp hd
  obtain ⟨hmem, howner⟩ := List.mem_filter.mp hc
  obtain rfl : c.ref.owner = n := by simpa using howner
  exact ⟨c, hmem, rfl, rfl, rfl⟩

end PatchWeaver

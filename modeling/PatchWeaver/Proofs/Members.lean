/-
  PatchWeaver.Proofs.Members
  ──────────────────────────
  **WHAT CHANGES OF A PROGRAM DO TO LOOK-UPS.**

  Declaring a method and installing a body each change what one method is
  looked up as, and nothing else:

      p.addMethod m flags body = ok q   →   q.method? m  = the new declaration
      p.install m body = ok q           →   q.method? m  = the old one with the body
                                            q.method? m' = p.method? m'   for m' ≠ m

  Several equal declarations on a class are allowed; the first one is
  changed, and it is the one that is looked up.
-/
import PatchWeaver.Program.Basic

namespace PatchWeaver

/-! ## §1. Classes. -/

namespace Program

theorem classes_modifyClass (p : Program) (name : ClassName) (f : ClassDef → ClassDef) :
    (p.modifyClass name f).classes
      = p.classes.map fun x => (x.1, if x.1 = name then f x.2 else x.2) := rfl

/-- Changing a class changes what its name is looked up as, and no other name. -/
theorem class?_modifyClass (p : Program) (name n : ClassName) (f : ClassDef → ClassDef) :
    (p.modifyClass name f).class? n = if n = name then (p.class? n).map f else p.class? n := by
  unfold class?
  show ((p.classes.modify name f).find? (·.1 = n)).map (·.2) = _
  unfold ClassTable.modify
  rw [List.find?_map]
  show (((p.classes.find? (·.1 = n)).map _).map _) = _
  cases hc : p.classes.find? (·.1 = n) with
  | none => simp
  | some entry =>
    have hname : entry.1 = n := by simpa using List.find?_some hc
    simp only [Option.map_some, hname]
    split <;> rfl

theorem hasClass_modifyClass (p : Program) (name n : ClassName) (f : ClassDef → ClassDef) :
    (p.modifyClass name f).hasClass n = p.hasClass n := by
  unfold hasClass
  rw [class?_modifyClass]
  split <;> simp

end Program

/-! ## §2. Methods. -/

namespace MethodDef

/-- A declaration answers to one reference on each class. -/
theorem eq_of_matches? {d : MethodDef} {m m' : MethodRef} (h : d.matches? m = true)
    (h' : d.matches? m' = true) (howner : m.owner = m'.owner) : m = m' := by
  have hm : d.ref m.owner = m := by simpa [matches?] using h
  have hm' : d.ref m'.owner = m' := by simpa [matches?] using h'
  rw [← hm, ← hm', howner]

/-- A new body does not change what a declaration answers to. -/
theorem matches?_withBody (d : MethodDef) (m : MethodRef) (body : Option Body) :
    ({ d with body } : MethodDef).matches? m = d.matches? m := rfl

/-- Giving a body to the first declaration that answers to a reference. -/
theorem find?_updateFirst_self (methods : List MethodDef) (m : MethodRef) (body : Body) :
    (updateFirst (·.matches? m) ({ · with body := some body }) methods).find? (·.matches? m)
      = (methods.find? (·.matches? m)).map ({ · with body := some body }) := by
  induction methods with
  | nil => rfl
  | cons d rest ih =>
    unfold updateFirst
    by_cases hd : d.matches? m = true
    · simp [hd, matches?_withBody]
    · simpa [hd] using ih

/-- That leaves all declarations alone that answer to another reference on the class. -/
theorem find?_updateFirst_of_ne (methods : List MethodDef) {m m' : MethodRef} (body : Body)
    (howner : m.owner = m'.owner) (hne : m' ≠ m) :
    (updateFirst (·.matches? m) ({ · with body := some body }) methods).find? (·.matches? m')
      = methods.find? (·.matches? m') := by
  induction methods with
  | nil => rfl
  | cons d rest ih =>
    unfold updateFirst
    by_cases hd : d.matches? m = true
    · have hd' : ¬ d.matches? m' = true := fun h => hne (eq_of_matches? h hd howner.symm)
      simp [hd, hd', matches?_withBody]
    · rw [if_neg hd, List.find?_cons, List.find?_cons, ih]

end MethodDef

namespace Program

theorem method?_eq (p : Program) (m : MethodRef) :
    p.method? m = (p.class? m.owner).bind fun c => c.methods.find? (·.matches? m) := rfl

/-- A method is declared if one of the declarations of its class answers to it. -/
theorem hasMethod_iff {p : Program} {m : MethodRef} :
    p.hasMethod m = true ↔ ∃ c, p.class? m.owner = some c ∧ ∃ d ∈ c.methods, d.ref m.owner = m := by
  unfold hasMethod
  rw [method?_eq]
  cases p.class? m.owner <;> simp [MethodDef.matches?]

/-- The body of a method is among the bodies of the program. -/
theorem mem_bodies {p : Program} {m : MethodRef} {body : Body} (h : p.body? m = some body) :
    (m, body) ∈ p.bodies := by
  obtain ⟨d, hd, hbody⟩ := Option.bind_eq_some_iff.mp h
  rw [method?_eq] at hd
  obtain ⟨c, hc, hfound⟩ := Option.bind_eq_some_iff.mp hd
  obtain ⟨⟨n, c'⟩, hentry, rfl⟩ := Option.map_eq_some_iff.mp hc
  obtain rfl : n = m.owner := by simpa using List.find?_some hentry
  have hmatches : d.ref m.owner = m := by
    simpa [MethodDef.matches?] using List.find?_some hfound
  refine List.mem_flatMap.mpr ⟨_, List.mem_of_find?_eq_some hentry, ?_⟩
  refine List.mem_filterMap.mpr ⟨d, List.mem_of_find?_eq_some hfound, ?_⟩
  simp [hbody, hmatches]

/-! ### Declaring a method. -/

/-- A declaration goes through exactly if the class exists and the method does not. -/
theorem addMethod_eq_ok_iff {p q : Program} {m : MethodRef} {flags : MethodFlags}
    {body : Option Body} :
    p.addMethod m flags body = .ok q ↔ p.hasMethod m = false ∧ p.hasClass m.owner = true
      ∧ q = p.modifyClass m.owner fun c =>
        { c with methods := c.methods ++ [declare m flags body] } := by
  unfold addMethod
  by_cases hm : p.hasMethod m = true
  · simp [hm]
  · by_cases hc : p.hasClass m.owner = true
    · simp [hm, hc, eq_comm]
    · simp [hm, hc]

/-- **Declaring a method changes what that method is looked up as, and no other.** -/
theorem method?_addMethod {p q : Program} {m : MethodRef} {flags : MethodFlags}
    {body : Option Body} (h : p.addMethod m flags body = .ok q) (m' : MethodRef) :
    q.method? m' = if m' = m then some (declare m flags body) else p.method? m' := by
  obtain ⟨hnew, hclass, rfl⟩ := addMethod_eq_ok_iff.mp h
  have hnone := method?_eq_none_of_not_hasMethod hnew
  rw [method?_eq] at hnone
  rw [method?_eq, method?_eq, class?_modifyClass]
  by_cases howner : m'.owner = m.owner
  · obtain ⟨c, hc⟩ : ∃ c, p.class? m.owner = some c := Option.isSome_iff_exists.mp hclass
    rw [hc] at hnone
    have hnone' : c.methods.find? (·.matches? m) = none := by simpa using hnone
    rw [if_pos howner, howner, hc]
    show List.find? (·.matches? m') (c.methods ++ [declare m flags body]) = _
    rw [List.find?_append]
    by_cases heq : m' = m
    · subst heq
      simp [hnone', matches?_declare]
    · have hlast : ¬ (declare m flags body).matches? m' = true := fun hmatch =>
        heq (MethodDef.eq_of_matches? hmatch (matches?_declare m flags body) howner)
      simp [heq, hlast]
  · have hne : m' ≠ m := fun heq => howner (heq ▸ rfl)
    simp [howner, hne]

theorem hasMethod_addMethod {p q : Program} {m : MethodRef} {flags : MethodFlags}
    {body : Option Body} (h : p.addMethod m flags body = .ok q) (m' : MethodRef) :
    q.hasMethod m' = (decide (m' = m) || p.hasMethod m') := by
  unfold hasMethod
  rw [method?_addMethod h]
  by_cases heq : m' = m <;> simp [heq]

theorem hasClass_addMethod {p q : Program} {m : MethodRef} {flags : MethodFlags}
    {body : Option Body} (h : p.addMethod m flags body = .ok q) (n : ClassName) :
    q.hasClass n = p.hasClass n := by
  obtain ⟨-, -, rfl⟩ := addMethod_eq_ok_iff.mp h
  exact hasClass_modifyClass p _ n _

/-- Declaring a method changes no field. -/
theorem field?_addMethod {p q : Program} {m : MethodRef} {flags : MethodFlags}
    {body : Option Body} (h : p.addMethod m flags body = .ok q) (f : FieldRef) :
    q.field? f = p.field? f := by
  obtain ⟨-, -, rfl⟩ := addMethod_eq_ok_iff.mp h
  show (Program.class? _ f.owner).bind (fun c => c.fields.find? (·.matches? f))
    = (p.class? f.owner).bind fun c => c.fields.find? (·.matches? f)
  rw [class?_modifyClass]
  split
  · cases p.class? f.owner <;> rfl
  · rfl

/-! ### Installing a body. -/

/-- A body can be installed exactly on a declared method. -/
theorem install_eq_ok_iff {p q : Program} {m : MethodRef} {body : Body} :
    p.install m body = .ok q ↔ p.hasMethod m = true
      ∧ q = p.modifyClass m.owner fun c =>
        { c with
          methods := updateFirst (·.matches? m) ({ · with body := some body }) c.methods } := by
  unfold install
  by_cases hm : p.hasMethod m = true <;> simp [hm, eq_comm]

/-- **Installing a body changes the body of that method, and no other.** -/
theorem method?_install {p q : Program} {m : MethodRef} {body : Body}
    (h : p.install m body = .ok q) (m' : MethodRef) :
    q.method? m'
      = if m' = m then (p.method? m').map ({ · with body := some body }) else p.method? m' := by
  obtain ⟨-, rfl⟩ := install_eq_ok_iff.mp h
  rw [method?_eq, method?_eq, class?_modifyClass]
  by_cases howner : m'.owner = m.owner
  · rw [if_pos howner]
    cases p.class? m'.owner with
    | none => simp
    | some c =>
      by_cases heq : m' = m
      · subst heq
        simpa using MethodDef.find?_updateFirst_self c.methods m' body
      · simpa [heq] using MethodDef.find?_updateFirst_of_ne c.methods body howner.symm heq
  · have hne : m' ≠ m := fun heq => howner (heq ▸ rfl)
    simp [howner, hne]

theorem hasMethod_install {p q : Program} {m : MethodRef} {body : Body}
    (h : p.install m body = .ok q) (m' : MethodRef) : q.hasMethod m' = p.hasMethod m' := by
  unfold hasMethod
  rw [method?_install h]
  split <;> simp

theorem hasClass_install {p q : Program} {m : MethodRef} {body : Body}
    (h : p.install m body = .ok q) (n : ClassName) : q.hasClass n = p.hasClass n := by
  obtain ⟨-, rfl⟩ := install_eq_ok_iff.mp h
  exact hasClass_modifyClass p _ n _

end Program

end PatchWeaver

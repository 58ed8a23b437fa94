/-
  PatchWeaver.Program.Basic
  ─────────────────────────
  **PROGRAMS.**

  A program maps class names to classes, in ascending order of the names;
  the order is part of the type, so no operation can lose it.  A class has
  its methods and fields in the order of their declaration.  Members are
  looked up by all that identifies them, and of several equal declarations
  the first one counts.

  Methods are only ever appended (`addMethod`) or given a new body
  (`install`).
-/
import PatchWeaver.Machine.Body
import PatchWeaver.Machine.Error

namespace PatchWeaver

/-! ## §1. Classes and their members. -/

/-- A method as declared by a class. -/
structure MethodDef where
  name : MemberName
  descriptor : MethodDescriptor
  flags : MethodFlags
  body : Option Body
  deriving Repr, DecidableEq

namespace MethodDef

/-- The identity of a method that a class declares. -/
def ref (m : MethodDef) (owner : ClassName) : MethodRef :=
  ⟨owner, m.name, m.descriptor, m.flags.isStatic⟩

/-- Whether a declaration, made by the class of the reference, is the one referred to. -/
def matches? (m : MethodDef) (method : MethodRef) : Bool := m.ref method.owner = method

end MethodDef

/-- A field as declared by a class. -/
structure FieldDef where
  name : MemberName
  descriptor : FieldType
  isStatic : Bool
  deriving Repr, DecidableEq

namespace FieldDef

/-- The identity of a field that a class declares. -/
def ref (f : FieldDef) (owner : ClassName) : FieldRef := ⟨owner, f.name, f.descriptor, f.isStatic⟩

/-- Whether a declaration, made by the class of the reference, is the one referred to. -/
def matches? (f : FieldDef) (field : FieldRef) : Bool := f.ref field.owner = field

end FieldDef

/-- A class. -/
structure ClassDef where
  superclass : Option ClassName
  methods : List MethodDef := []
  fields : List FieldDef := []
  deriving Repr, DecidableEq

/-! ## §2. Ordered class tables. -/

/-- The first item that satisfies a test, changed. -/
def updateFirst {α : Type} (test : α → Bool) (f : α → α) : List α → List α
  | [] => []
  | a :: rest => if test a then f a :: rest else a :: updateFirst test f rest

/-- A list of named classes. -/
abbrev ClassTable := List (ClassName × ClassDef)

namespace ClassTable

/-- The names ascend strictly. -/
def Ordered (t : ClassTable) : Prop := (t.map (·.1)).Pairwise (· < ·)

/-- Put a class at its place in an ordered table; a class of that name gives way. -/
def put (name : ClassName) (c : ClassDef) : ClassTable → ClassTable
  | [] => [(name, c)]
  | (n, d) :: rest =>
    if name < n then (name, c) :: (n, d) :: rest
    else if name = n then (name, c) :: rest
    else (n, d) :: put name c rest

/-- Change the class of a name. -/
def modify (name : ClassName) (f : ClassDef → ClassDef) (t : ClassTable) : ClassTable :=
  t.map fun (n, d) => (n, if n = name then f d else d)

/-- Of two different class names one comes first. -/
theorem lt_of_not_lt {a b : ClassName} (h : ¬ a < b) (hne : a ≠ b) : b < a := by
  refine Decidable.byContradiction fun hba => hne ?_
  have hab : b.text ≤ a.text := String.not_lt.mp h
  have hba : a.text ≤ b.text := String.not_lt.mp hba
  have := String.le_antisymm hba hab
  cases a
  cases b
  simp_all

theorem lt_trans {a b c : ClassName} (h : a < b) (h' : b < c) : a < c := String.lt_trans h h'

theorem mem_map_put {name n : ClassName} {c : ClassDef} {t : ClassTable}
    (h : n ∈ (put name c t).map (·.1)) : n = name ∨ n ∈ t.map (·.1) := by
  induction t with
  | nil => simpa [put] using h
  | cons head rest ih =>
    obtain ⟨m, d⟩ := head
    unfold put at h
    split at h
    · simpa using h
    · split at h
      · next heq => subst heq; right; simpa using h
      · simp only [List.map_cons, List.mem_cons] at h ⊢
        rcases h with h | h
        · exact .inr (.inl h)
        · rcases ih h with h | h
          · exact .inl h
          · exact .inr (.inr h)

/-- Putting a class at its place keeps the order. -/
theorem ordered_put {name : ClassName} {c : ClassDef} {t : ClassTable} (h : t.Ordered) :
    (put name c t).Ordered := by
  induction t with
  | nil => simp [put, Ordered]
  | cons head rest ih =>
    obtain ⟨n, d⟩ := head
    have hn := (List.pairwise_cons.mp h).1
    have hrest : Ordered rest := (List.pairwise_cons.mp h).2
    unfold put
    split
    · next hlt =>
      refine List.pairwise_cons.mpr ⟨fun m hm => ?_, h⟩
      rcases List.mem_cons.mp hm with rfl | hm
      · exact hlt
      · exact lt_trans hlt (hn m hm)
    · next hge =>
      split
      · next heq => subst heq; exact h
      · next hne =>
        refine List.pairwise_cons.mpr ⟨fun m hm => ?_, ih hrest⟩
        rcases mem_map_put hm with rfl | hm
        · exact lt_of_not_lt hge hne
        · exact hn m hm

@[simp]
theorem names_modify (name : ClassName) (f : ClassDef → ClassDef) (t : ClassTable) :
    (t.modify name f).map (·.1) = t.map (·.1) := by
  simp [modify, Function.comp_def]

theorem ordered_modify {name : ClassName} {f : ClassDef → ClassDef} {t : ClassTable}
    (h : t.Ordered) : (t.modify name f).Ordered := by
  unfold Ordered
  rw [names_modify]
  exact h

end ClassTable

/-! ## §3. Programs. -/

/-- A program: its classes in ascending order of their names. -/
structure Program where
  classes : ClassTable
  ordered : classes.Ordered
  deriving Repr, DecidableEq

namespace Program

/-- The program without classes. -/
def empty : Program := ⟨[], List.Pairwise.nil⟩

/-- Put a class into the program; a class of that name gives way. -/
def putClass (p : Program) (name : ClassName) (c : ClassDef) : Program :=
  ⟨p.classes.put name c, ClassTable.ordered_put p.ordered⟩

/-- The program of named classes, of which the last of a name counts. -/
def ofList (classes : List (ClassName × ClassDef)) : Program :=
  classes.foldl (fun p (name, c) => p.putClass name c) empty

/-- Change the class of a name. -/
def modifyClass (p : Program) (name : ClassName) (f : ClassDef → ClassDef) : Program :=
  ⟨p.classes.modify name f, ClassTable.ordered_modify p.ordered⟩

/-- The class of a name. -/
def class? (p : Program) (name : ClassName) : Option ClassDef :=
  (p.classes.find? (·.1 = name)).map (·.2)

/-- Whether there is a class of a name. -/
def hasClass (p : Program) (name : ClassName) : Bool := (p.class? name).isSome

/-- The declaration of a method. -/
def method? (p : Program) (m : MethodRef) : Option MethodDef := do
  (← p.class? m.owner).methods.find? (·.matches? m)

/-- Whether a method is declared. -/
def hasMethod (p : Program) (m : MethodRef) : Bool := (p.method? m).isSome

/-- The body of a method. -/
def body? (p : Program) (m : MethodRef) : Option Body := do (← p.method? m).body

/-- The declaration of a field. -/
def field? (p : Program) (f : FieldRef) : Option FieldDef := do
  (← p.class? f.owner).fields.find? (·.matches? f)

/-- Whether a field is declared. -/
def hasField (p : Program) (f : FieldRef) : Bool := (p.field? f).isSome

/-- The methods of a name that a class declares, in order of declaration. -/
def methodsNamed (p : Program) (owner : ClassName) (name : MemberName) : List MethodRef :=
  match p.class? owner with
  | none => []
  | some c => (c.methods.filter (·.name = name)).map (·.ref owner)

/-- Every method with its body, by class and then by declaration. -/
def bodies (p : Program) : List (MethodRef × Body) :=
  p.classes.flatMap fun (owner, c) =>
    c.methods.filterMap fun m => m.body.map fun body => (m.ref owner, body)

/-! ## §4. Changes. -/

/-- Add a class, unless there is one of that name. -/
def addClass (p : Program) (name : ClassName) (superclass : Option ClassName) : Program :=
  if p.hasClass name then p else p.putClass name { superclass }

/-- The declaration that `addMethod` makes: whether it is static is for the reference to say. -/
def declare (m : MethodRef) (flags : MethodFlags) (body : Option Body) : MethodDef where
  name := m.name
  descriptor := m.descriptor
  flags := { flags with isStatic := m.isStatic }
  body := body

/-- Declare a method on an existing class. -/
def addMethod (p : Program) (m : MethodRef) (flags : MethodFlags) (body : Option Body) :
    Except MachineError Program :=
  if p.hasMethod m then .error (.duplicateMethod m)
  else if p.hasClass m.owner then
    .ok (p.modifyClass m.owner fun c => { c with methods := c.methods ++ [declare m flags body] })
  else .error (.missingClass m.owner)

/-- Declare a field on an existing class. -/
def addField (p : Program) (f : FieldRef) : Except MachineError Program :=
  if p.hasClass f.owner then
    .ok (p.modifyClass f.owner fun c =>
      { c with fields := c.fields ++ [⟨f.name, f.descriptor, f.isStatic⟩] })
  else .error (.missingClass f.owner)

/-- Give a declared method a body. -/
def install (p : Program) (m : MethodRef) (body : Body) : Except MachineError Program :=
  if p.hasMethod m then
    .ok (p.modifyClass m.owner fun c =>
      { c with methods := updateFirst (·.matches? m) ({ · with body := some body }) c.methods })
  else .error (.missingMember m)

/-- Take a class out of the program. -/
def removeClass (p : Program) (name : ClassName) : Program where
  classes := p.classes.filter (·.1 ≠ name)
  ordered := p.ordered.sublist (List.filter_sublist.map _)

/-- Keep the classes whose names satisfy a test. -/
def filterClasses (p : Program) (test : ClassName → Bool) : Program where
  classes := p.classes.filter (test ·.1)
  ordered := p.ordered.sublist (List.filter_sublist.map _)

/-! ### Small facts. -/

/-- A declaration just made answers to its reference. -/
theorem matches?_declare (m : MethodRef) (flags : MethodFlags) (body : Option Body) :
    (declare m flags body).matches? m = true := by
  simp [MethodDef.matches?, declare, MethodDef.ref]

theorem method?_eq_none_of_not_hasMethod {p : Program} {m : MethodRef}
    (h : p.hasMethod m = false) : p.method? m = none := by
  simpa [hasMethod] using h

end Program

end PatchWeaver

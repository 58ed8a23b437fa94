/-
  PatchWeaver.Codec.Manifest
  ──────────────────────────
  **MANIFESTS.**

  A manifest is a program together with the mixins to weave into it.  The
  classes of the mixins, with the bodies of their methods, are part of the
  program.  The support classes of woven code need not be: they are added
  as far as they are missing.
-/
import PatchWeaver.Codec.Mixin
import PatchWeaver.Json.Reader
import PatchWeaver.Program.Support

namespace PatchWeaver

open Json

/-- A program and the mixins to weave into it. -/
structure Manifest where
  program : Program
  mixins : List Mixin
  deriving Repr, DecidableEq

namespace Manifest

/-- The manifest as it is written. -/
def ofJson? (j : Json) : Option Manifest := do
  let r ← j.record? ["program", "mixins"]
  return {
    program := ← r.field? "program" Program.ofJson?
    mixins := ← r.listD? "mixins" Mixin.ofJson? }

/-- Read a manifest, whose program gets the support classes. -/
def parse? (text : String) : Option Manifest := do
  let m ← ofJson? (← Json.parse? text)
  return { m with program := m.program.addSupport }

end Manifest

end PatchWeaver

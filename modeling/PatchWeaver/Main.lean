/-
  PatchWeaver.Main
  ────────────────
  **THE COMMAND LINE TOOL.**

  Reads the manifest, leaves the decisions to `runTool`, and carries out
  what it decided.
-/
import PatchWeaver.Command.Tool

namespace PatchWeaver

/-- The text of a file, if it can be read. -/
def readText? (path : String) : IO (Option String) := do
  try
    return String.fromUTF8? (← IO.FS.readBinFile path)
  catch _ => return none

/-- The files that a call may read: the manifest. -/
def surroundings (arguments : List String) : IO FileSystem := do
  match parseArguments arguments with
  | .ok (.weave path _) =>
    let text ← readText? path
    return ⟨fun p => if p = path then text else none, fun _ => true⟩
  | _ => return ⟨fun _ => none, fun _ => true⟩

end PatchWeaver

/-- Runs the tool on the arguments of the command line. -/
def main (arguments : List String) : IO UInt32 := do
  let result := PatchWeaver.runTool (← PatchWeaver.surroundings arguments) arguments
  try
    for (path, text) in result.files do
      IO.FS.writeFile path text
  catch e =>
    IO.eprintln (toString e)
    return 1
  IO.eprint result.stderr
  IO.print result.stdout
  return result.exitCode

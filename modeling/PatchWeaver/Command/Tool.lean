/-
  PatchWeaver.Command.Tool
  ────────────────────────
  **WHAT THE COMMAND LINE TOOL DOES.**

  The tool reads a manifest, weaves its mixins into its program, and writes
  the program to a file or to standard output.  It succeeds (0), fails (1),
  or has been called in a wrong way (2).

  Files are written in order: the patches found, even if the run fails
  later on, and the woven program, only if it does not.
-/
import PatchWeaver.Codec.Manifest
import PatchWeaver.Command.Arguments
import PatchWeaver.Weave.Weaver

namespace PatchWeaver

/-- The files around the tool. -/
structure FileSystem where
  /-- The text of a file, if it can be read. -/
  read : String → Option String
  /-- Whether a file can be written. -/
  canWrite : String → Bool

/-- How a call of the tool ends. -/
structure ToolResult where
  exitCode : UInt32
  stdout : String := ""
  stderr : String := ""
  /-- The files written, in order. -/
  files : List (String × String) := []
  deriving Repr, DecidableEq

namespace ToolResult

/-- The call was wrong. -/
def misused (error : UsageError) : ToolResult :=
  { exitCode := 2, stderr := "error: " ++ error.message ++ "\n" }

/-- The call failed, having written some files. -/
def failed (message : String) (files : List (String × String)) : ToolResult :=
  { exitCode := 1, stderr := "error: " ++ message ++ "\n", files }

end ToolResult

/-- Name and version of the tool. -/
def versionLine : String := "mixweave 0.1.0\n"

/-- The settings of a run. -/
def Options.settings (o : Options) (fs : FileSystem) : Settings where
  debugMarkers := o.debugMarkers
  snapshot := o.dumpPatches.map fun path => ⟨path, fs.canWrite path⟩

/-- The listings of patched methods. -/
def disassembly (program : Program) (patched : List MethodRef) : String :=
  String.join (patched.filterMap fun method =>
    (program.body? method).map fun body => s!"{method}:\n{body}\n")

/-- The end of a successful run, which has written some files. -/
def deliver (o : Options) (fs : FileSystem) (program : Program) (report : WeaveReport)
    (files : List (String × String)) : ToolResult :=
  let stderr := if o.disassemble then disassembly program report.patched else ""
  match o.output with
  | none => { exitCode := 0, stdout := program.text, stderr, files }
  | some path =>
    if fs.canWrite path then { exitCode := 0, stderr, files := files ++ [(path, program.text)] }
    else .failed ("cannot write " ++ path) files

/-- Weave what is in a manifest. -/
def weaveManifest (o : Options) (fs : FileSystem) (m : Manifest) : ToolResult :=
  let result := (Weaver.new (o.settings fs)).weave m.program m.mixins
  let files := result.events.filterMap Event.file?
  match result.outcome with
  | .error e => .failed e.message files
  | .ok report => deliver o fs result.program report files

/-- Run the tool. -/
def runTool (fs : FileSystem) (arguments : List String) : ToolResult :=
  match parseArguments arguments with
  | .error error => .misused error
  | .ok .version => { exitCode := 0, stdout := versionLine }
  | .ok (.weave path o) =>
    match fs.read path with
    | none => .failed ("cannot read " ++ path) []
    | some text =>
      match Manifest.parse? text with
      | none => .failed ("no manifest in " ++ path) []
      | some m => weaveManifest o fs m

end PatchWeaver

/-
  PatchWeaver.Command.Arguments
  ─────────────────────────────
  **ARGUMENTS OF THE COMMAND LINE.**

      MANIFEST                the file with the program and the mixins
      --output PATH           where to write the woven program
      --dump-patches PATH     where to write the patches found
      --debug-markers         mark the regions of woven code
      --disassemble           show the patched bodies
      --version, -V           show the version, whatever else is given

  Arguments are taken from left to right, and the first mistake is the one
  that counts: asking for the version helps only if it comes before.  A
  path may be joined to its option by `=`; otherwise it is the argument
  that follows, which must not look like an option itself.  Behind `--`,
  everything is a path of a manifest.
-/

namespace PatchWeaver

/-! ## §1. Requests. -/

/-- Options that are followed by a path. -/
inductive PathOption where
  | output
  | dumpPatches
  deriving Repr, DecidableEq

/-- Options that stand alone. -/
inductive Switch where
  | debugMarkers
  | disassemble
  deriving Repr, DecidableEq

/-- What is given on the command line. -/
structure Options where
  manifest : Option String := none
  output : Option String := none
  dumpPatches : Option String := none
  debugMarkers : Bool := false
  disassemble : Bool := false
  deriving Repr, DecidableEq

/-- What the command line asks for. -/
inductive Request where
  | version
  | weave (manifest : String) (options : Options)
  deriving Repr, DecidableEq

/-- Mistakes on the command line. -/
inductive UsageError where
  | missingValue (argument : String)
  | unexpectedValue (argument : String)
  | repeated (argument : String)
  | unexpected (argument : String)
  | missingManifest
  deriving Repr, DecidableEq

/-- The wording of a mistake. -/
def UsageError.message : UsageError → String
  | .missingValue argument => "a path is required behind '" ++ argument ++ "'"
  | .unexpectedValue argument => "no value is taken by '" ++ argument ++ "'"
  | .repeated argument => "given more than once: '" ++ argument ++ "'"
  | .unexpected argument => "unexpected argument '" ++ argument ++ "'"
  | .missingManifest => "a manifest is required"

/-! ## §2. Single arguments. -/

/-- What an argument is by its looks. -/
inductive Argument where
  | path (option : PathOption) (joined : Option String)
  | switch (switch : Switch)
  | version
  /-- The rest are paths of manifests. -/
  | separator
  | manifest
  | mistaken (error : UsageError)
  deriving Repr, DecidableEq

/-- The text in front of the first `=` and, if there is one, the text behind it. -/
def splitJoined (cs : List Char) : String × Option String :=
  let name := String.ofList (cs.takeWhile (· ≠ '='))
  match cs.dropWhile (· ≠ '=') with
  | [] => (name, none)
  | _ :: value => (name, some (String.ofList value))

/-- An option that takes no value. -/
def Argument.alone (argument : String) (a : Argument) : Option String → Argument
  | none => a
  | some _ => .mistaken (.unexpectedValue argument)

/-- The option of a name, as it was given. -/
def Argument.ofName (argument name : String) (joined : Option String) : Argument :=
  match name with
  | "output" => .path .output joined
  | "dump-patches" => .path .dumpPatches joined
  | "debug-markers" => .alone argument (.switch .debugMarkers) joined
  | "disassemble" => .alone argument (.switch .disassemble) joined
  | "version" => .alone argument .version joined
  | _ => .mistaken (.unexpected argument)

/-- What an argument is by its looks. -/
def Argument.ofString (argument : String) : Argument :=
  match argument.toList with
  | ['-', '-'] => .separator
  | '-' :: '-' :: cs => .ofName argument (splitJoined cs).1 (splitJoined cs).2
  | '-' :: 'V' :: _ => .version
  | '-' :: _ :: _ => .mistaken (.unexpected argument)
  | _ => .manifest

/-- Whether an argument can be the path of an option in front of it. -/
def isPath (argument : String) : Bool := Argument.ofString argument = .manifest

/-! ## §3. All arguments. -/

namespace Options

/-- Take the path of an option. -/
def setPath (o : Options) (option : PathOption) (argument path : String) :
    Except UsageError Options :=
  match option with
  | .output => if o.output.isSome then .error (.repeated argument) else
    .ok { o with output := some path }
  | .dumpPatches => if o.dumpPatches.isSome then .error (.repeated argument) else
    .ok { o with dumpPatches := some path }

/-- Take a switch. -/
def setSwitch (o : Options) (switch : Switch) (argument : String) : Except UsageError Options :=
  match switch with
  | .debugMarkers => if o.debugMarkers then .error (.repeated argument) else
    .ok { o with debugMarkers := true }
  | .disassemble => if o.disassemble then .error (.repeated argument) else
    .ok { o with disassemble := true }

/-- Take the path of the manifest. -/
def setManifest (o : Options) (path : String) : Except UsageError Options :=
  if o.manifest.isSome then .error (.unexpected path) else .ok { o with manifest := some path }

/-- The request of all arguments. -/
def request (o : Options) : Except UsageError Request :=
  match o.manifest with
  | some manifest => .ok (.weave manifest o)
  | none => .error .missingManifest

end Options

/-- The request of the given options and the arguments that follow them. -/
def parseFrom (o : Options) : List String → Except UsageError Request
  | [] => o.request
  | argument :: rest =>
    match Argument.ofString argument with
    | .separator => do (← rest.foldlM Options.setManifest o).request
    | .version => .ok .version
    | .manifest => do parseFrom (← o.setManifest argument) rest
    | .switch switch => do parseFrom (← o.setSwitch switch argument) rest
    | .mistaken error => .error error
    | .path option (some path) => do parseFrom (← o.setPath option argument path) rest
    | .path option none =>
      match rest with
      | [] => .error (.missingValue argument)
      | path :: rest =>
        if isPath path then do parseFrom (← o.setPath option argument path) rest
        else .error (.missingValue argument)

/-- The request of a command line. -/
def parseArguments (arguments : List String) : Except UsageError Request := parseFrom {} arguments

end PatchWeaver

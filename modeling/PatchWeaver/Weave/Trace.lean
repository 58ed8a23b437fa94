/-
  PatchWeaver.Weave.Trace
  ───────────────────────
  **WHAT A RUN TELLS BESIDES ITS RESULT.**

  A run notes what it does, reports problems that do not stop it, and may
  write a file.  All of this is one list of events, in the order in which
  they happen; a failing run keeps the events up to its failure.

      outcome (x >>= f) = outcome x >>= fun a => outcome (f a)

  So results can be reasoned about as if there were no events at all
  (`Traced.outcome_bind`).
-/
import PatchWeaver.Weave.Error

namespace PatchWeaver

/-! ## §1. Diagnostics. -/

/-- How serious an event is. -/
inductive Level where
  | error
  | warn
  | info
  | debug
  | trace
  deriving Repr, DecidableEq

namespace Level

/-- The more there is to see, the larger. -/
def rank : Level → Nat
  | .error => 1
  | .warn => 2
  | .info => 3
  | .debug => 4
  | .trace => 5

/-- Name of a level. -/
def name : Level → String
  | .error => "ERROR"
  | .warn => "WARN"
  | .info => "INFO"
  | .debug => "DEBUG"
  | .trace => "TRACE"

end Level

/-- The part of a run that an event comes from. -/
inductive Phase where
  | scan
  | register
  | select
  | transform
  | disassemble
  deriving Repr, DecidableEq

/-- Name of a phase. -/
def Phase.name : Phase → String
  | .scan => "mixweave::scan"
  | .register => "mixweave::register"
  | .select => "mixweave::select"
  | .transform => "mixweave::transform"
  | .disassemble => "mixweave::disassemble"

/-- Problems that do not stop a run. Patches, targets and selectors are given by their
description. -/
inductive Diagnostic where
  | unresolvedClass (mixin className : ClassName)
  | unresolvedTarget (patch target : String) (className : ClassName)
  | rejectedMethod (patch : String) (method : MethodRef) (reason : Rejection)
  | rejectedInstruction (patch : String) (method : MethodRef) (offset : Nat) (reason : Rejection)
  | shiftOutOfBounds (selector : String) (method : MethodRef) (index : Nat) (shift : Int)
  | unreachableInjection (patch : String) (method : MethodRef) (offset : Nat)
  | unusedSelector (selector : String) (method : MethodRef)
  | injectionCount (patch : String) (count min : Nat) (max : Option Nat)
  deriving Repr, DecidableEq

/-- The wording of a diagnostic. -/
def Diagnostic.message : Diagnostic → String
  | .unresolvedClass mixin className => s!"target class {className} of mixin {mixin} does not exist"
  | .unresolvedTarget patch target className =>
    s!"{patch}: no method on {className} matches {target}"
  | .rejectedMethod patch method reason => s!"{patch} cannot target {method}: " ++ reason.message
  | .rejectedInstruction patch method offset reason =>
    s!"{patch} cannot apply to instruction {offset} of {method}: " ++ reason.message
  | .shiftOutOfBounds selector method index shift =>
    s!"{selector} matched instruction {index} but shifting by {shift} leaves {method}"
  | .unreachableInjection patch method offset =>
    s!"{patch}: injection targets unreachable code at instruction {offset} of {method}"
  | .unusedSelector selector method => s!"{selector} is unused in {method}; is this expected?"
  | .injectionCount patch count min max =>
    s!"{patch} was applied {count} times, expected at least {min}" ++
      (match max with
      | none => ""
      | some max => s!" and at most {max}")

/-- A diagnostic with the place and the seriousness of its report. -/
structure Report where
  level : Level
  phase : Phase
  diagnostic : Diagnostic
  deriving Repr, DecidableEq

/-! ## §2. Events. -/

/-- One thing that a run tells. -/
inductive Event where
  /-- A line of the log. -/
  | note (level : Level) (phase : Phase) (text : String)
  /-- A diagnostic; it is a line of the log, too. -/
  | report (report : Report)
  /-- A file that was written. -/
  | wrote (path text : String)
  deriving Repr, DecidableEq

namespace Event

/-- The diagnostic of an event. -/
def report? : Event → Option Report
  | .report r => some r
  | _ => none

/-- The log line of an event. -/
def logLine? : Event → Option (Level × Phase × String)
  | .note level phase text => some (level, phase, text)
  | .report r => some (r.level, r.phase, r.diagnostic.message)
  | .wrote .. => none

/-- The file of an event. -/
def file? : Event → Option (String × String)
  | .wrote path text => some (path, text)
  | _ => none

/-- A reported error. -/
def error (phase : Phase) (d : Diagnostic) : Event := .report ⟨.error, phase, d⟩

/-- A reported warning. -/
def warn (phase : Phase) (d : Diagnostic) : Event := .report ⟨.warn, phase, d⟩

end Event

/-- The diagnostics among events. -/
def reportsOf (events : List Event) : List Report := events.filterMap Event.report?

/-! ## §3. Computations with events. -/

/-- A computation that may fail, with its events. -/
structure Traced (α : Type) where
  outcome : Except WeaveError α
  events : List Event

namespace Traced

/-- Succeed silently. -/
def pure {α : Type} (a : α) : Traced α := ⟨.ok a, []⟩

/-- Go on with the result, unless there is none. -/
def bind {α β : Type} (x : Traced α) (f : α → Traced β) : Traced β :=
  match x.outcome with
  | .ok a => ⟨(f a).outcome, x.events ++ (f a).events⟩
  | .error e => ⟨.error e, x.events⟩

instance : Monad Traced where
  pure := pure
  bind := bind

/-- A silent computation. -/
def lift {α : Type} (x : Except WeaveError α) : Traced α := ⟨x, []⟩

/-- Fail. -/
def fail {α : Type} (e : WeaveError) : Traced α := ⟨.error e, []⟩

/-- Tell something. -/
def tell (events : List Event) : Traced Unit := ⟨.ok (), events⟩

/-- Add a line to the log. -/
def note (level : Level) (phase : Phase) (text : String) : Traced Unit :=
  tell [.note level phase text]

@[simp]
theorem outcome_pure {α : Type} (a : α) : (Pure.pure a : Traced α).outcome = .ok a := rfl

@[simp]
theorem outcome_bind {α β : Type} (x : Traced α) (f : α → Traced β) :
    (x >>= f).outcome = x.outcome >>= fun a => (f a).outcome := by
  show (bind x f).outcome = _
  unfold bind
  cases x.outcome <;> rfl

@[simp]
theorem outcome_lift {α : Type} (x : Except WeaveError α) : (lift x).outcome = x := rfl

@[simp]
theorem outcome_fail {α : Type} (e : WeaveError) : (fail e : Traced α).outcome = .error e := rfl

@[simp]
theorem outcome_tell (events : List Event) : (tell events).outcome = .ok () := rfl

@[simp]
theorem outcome_note (level : Level) (phase : Phase) (text : String) :
    (note level phase text).outcome = .ok () := rfl

/-- Events of a continued computation come behind those before it. -/
theorem events_bind_of_ok {α β : Type} {x : Traced α} {a : α} (f : α → Traced β)
    (h : x.outcome = .ok a) : (x >>= f).events = x.events ++ (f a).events := by
  show (bind x f).events = _
  simp [bind, h]

/-- A failed computation tells nothing more. -/
theorem events_bind_of_error {α β : Type} {x : Traced α} {e : WeaveError} (f : α → Traced β)
    (h : x.outcome = .error e) : (x >>= f).events = x.events := by
  show (bind x f).events = _
  simp [bind, h]

end Traced

end PatchWeaver

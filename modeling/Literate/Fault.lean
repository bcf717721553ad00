import Literate.Engine.Basic

/-!
# Faults

A fault that an engine raised is passed on as one of two kinds with a message. An engine that gave
up may have left a termination report in its error stream; the report then tells the fault, and it
is taken out of the stream.
-/

namespace Literate

/-- The kinds of faults: those of an invalid argument, and all others. -/
inductive FaultKind
  | value
  | generic
  deriving DecidableEq, Repr

/-- A fault as the runner sees it. -/
structure Fault where
  kind : FaultKind
  message : Text
  deriving DecidableEq, Repr

/-- What a report of abnormal termination tells: the type of an exception and its message. -/
structure TerminationReport where
  type : Text
  what : Text
  deriving DecidableEq, Repr

namespace TerminationReport

/-- What a report begins with, up to the type. -/
def opening : Text := "terminate called after throwing an instance of '".toList

/-- What stands between the type and the message. -/
def middle : Text := "'\n  what():  ".toList

/-- What follows the message. -/
def closing : Text := "\n Generating stack trace...".toList

/-- The report that a text begins with. The type holds no quote and the message no line end. -/
def read? (t : Text) : Option TerminationReport := do
  let rest ← Text.after? opening t
  let type := rest.takeWhile (· ≠ '\x27')
  let rest ← Text.after? middle (rest.dropWhile (· ≠ '\x27'))
  let what := rest.takeWhile (· ≠ '\n')
  let _ ← Text.after? closing (rest.dropWhile (· ≠ '\n'))
  return ⟨type, what⟩

/-- The first report at the beginning of a line, the first of which begins where `atStart` says
so. -/
def findFrom? (atStart : Bool) : Text → Option TerminationReport
  | [] => none
  | c :: rest =>
    (if atStart then read? (c :: rest) else none).or (findFrom? (c == '\n') rest)

/-- The first report in a text. -/
def find? (t : Text) : Option TerminationReport :=
  findFrom? true t

end TerminationReport

namespace Fault

/-- The type of exceptions that report an invalid argument. -/
def invalidArgument : Text := "std::invalid_argument".toList

/-- The fault of an exception of some type. -/
def ofException (type what : Text) : Fault :=
  ⟨if type = invalidArgument then .value else .generic, what⟩

/-- The fault that a raised one is passed on as, and what is left of the error stream. -/
def ofRaised (raised : Raised) (stderr : Text) : Fault × Text :=
  match raised with
  | .native type what => (ofException type what, stderr)
  | .aborted message =>
    match TerminationReport.find? stderr with
    | some report => (ofException report.type report.what, [])
    | none => (⟨.generic, message⟩, stderr)
  | .signal message | .other message => (⟨.generic, message⟩, stderr)

end Fault

end Literate

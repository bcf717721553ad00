import Literate.Engine.Interpreter
import Literate.Program.Files
import Literate.Session.Pipe

/-!
# Settings

Which program is the worker, with what arguments, and how long it is given to end. The environment
may name another program and another time.
-/

namespace Literate

/-- The program that workers run. -/
inductive WorkerProgram
  /-- The one installed beside the runner. -/
  | beside (name : Text)
  | named (path : Text)
  deriving DecidableEq, Repr

/-- How workers are started and ended. -/
structure Settings where
  worker : WorkerProgram := .beside "litrun-worker".toList
  arguments : List Text := []
  /-- How long a worker may take to end, in milliseconds. -/
  graceMillis : Nat := 1000
  deriving DecidableEq, Repr

namespace Settings

/-- A natural number below a bound, with or without a plus sign. -/
def readBelow? (bound : Nat) (t : Text) : Option Nat :=
  let digits := match t with
    | '+' :: rest => rest
    | _ => t
  if digits ≠ [] ∧ digits.all Char.isDigit ∧ Decimal.value digits < bound then
    some (Decimal.value digits)
  else none

/-- The variable of the environment that names the worker. -/
def workerVariable : Text := "LITRUN_WORKER".toList

/-- The variable of the environment that sets the time a worker is given. -/
def graceVariable : Text := "LITRUN_GRACE_MS".toList

/-- The settings that an environment asks for. An empty name and what is not a time in range are
left out. -/
def ofEnvironment (env : Text → Option Text) : Settings where
  worker :=
    match env workerVariable with
    | some (c :: rest) => .named (c :: rest)
    | _ => .beside "litrun-worker".toList
  graceMillis := ((env graceVariable).bind (readBelow? UInt64.size ·.trim)).getD 1000

/-- The directory of the installed programs. -/
def programs : Text := "/usr/bin".toList

/-- Where a program is looked for. A name without a slash is one of an installed program. -/
def programPath (name : Text) : Text :=
  if name.contains '/' || name = [] then name else Path.join programs [name]

/-- Why the program of a name cannot be started. -/
def spawnFailure (find : Text → Except FileError Files) (name : Text) : Text :=
  if name.contains '\x00' then "nul byte found in provided data".toList
  else
    match find (programPath name) with
    | .error e => e.message
    | .ok _ => FileError.denied.message

/-- Starts a worker. Only the one beside the runner can be. -/
def launch (settings : Settings) (find : Text → Except FileError Files) (precision : Nat) :
    Except SessionError (Pipe Interpreter) :=
  match settings.worker with
  | .beside _ => .ok (.connect { engine := {}, preparation := { precision } })
  | .named name => .error (.spawn name (spawnFailure find name))

end Settings

end Literate

import Literate.Text.Basic

/-!
# Execution engines

An engine runs the code of examples: it takes definitions and statement blocks, keeps a state
between calls, and says what it wrote and whether it raised a fault. It may also end the process it
runs in. Its fault mode decides what a signal does, and a guarded call runs in the mode that
catches it.
-/

namespace Literate

/-- What an engine wrote during one call, or during several. -/
structure Captured where
  stdout : Text := []
  stderr : Text := []
  deriving DecidableEq, Repr, Inhabited

namespace Captured

/-- Appends a chunk to a buffer. Two nonempty ones are separated by a line feed. -/
def join (buffer chunk : Text) : Text :=
  if buffer ≠ [] ∧ chunk ≠ [] then buffer ++ '\n' :: chunk else buffer ++ chunk

/-- Appends what a further call wrote. -/
def record (buffer chunk : Captured) : Captured where
  stdout := join buffer.stdout chunk.stdout
  stderr := join buffer.stderr chunk.stderr

@[simp] theorem join_nil_left (chunk : Text) : join [] chunk = chunk := by simp [join]

@[simp] theorem join_nil_right (buffer : Text) : join buffer [] = buffer := by simp [join]

end Captured

/-- What a signal-level fault does: it takes the process down, or it is raised as a fault. -/
inductive FaultMode
  | fatal
  | catchable
  deriving DecidableEq, Repr, Inhabited

/-- How code under test ends its process: by an abort, or by an exit with a code. -/
inductive Ending
  | aborted
  | exited (code : Int32)
  deriving DecidableEq, Repr

/-- The status that is left of a process: the lowest eight bits of its exit code. A process that is
aborted leaves none. -/
def Ending.status? : Ending → Option UInt8
  | aborted => none
  | exited code => some code.toUInt32.toUInt8

/-- A fault as an engine reports it. -/
inductive Raised
  /-- An exception of the language, with its type and message. -/
  | native (type what : Text)
  /-- A signal that was caught. -/
  | signal (message : Text)
  /-- The engine gave up. Details may stand in what it wrote to its error stream. -/
  | aborted (message : Text)
  /-- Anything else: faulty code, unknown names, a failure of the engine itself. -/
  | other (message : Text)
  deriving DecidableEq, Repr

/-- The text of a fault. -/
def Raised.message : Raised → Text
  | native type what => type ++ ": ".toList ++ what
  | signal message | aborted message | other message => message

/-- What one call of an engine came to. -/
inductive Answer
  | done (output : Captured)
  | raised (fault : Raised) (output : Captured)
  /-- The engine itself failed; its last words are kept if they are a text. -/
  | panicked (words : Option Text)
  deriving DecidableEq, Repr

namespace Answer

/-- What the call wrote. A failed engine leaves nothing. -/
def output : Answer → Captured
  | done output | raised _ output => output
  | panicked _ => {}

/-- The fault that the call ended in, if any. The failure of an engine counts as one. -/
def fault? : Answer → Option Raised
  | done _ => none
  | raised fault _ => some fault
  | panicked none => some (.other "engine panicked".toList)
  | panicked (some words) => some (.other ("engine panicked: ".toList ++ words))

end Answer

/-- A language backend with states `σ`. Each call ends the process or answers and leaves a
state. -/
class Engine (σ : Type) where
  /-- Takes a top-level fragment such as an include directive. -/
  define : Text → σ → Except Ending (Answer × σ)
  /-- Runs one block of statements. -/
  execute : Text → σ → Except Ending (Answer × σ)
  mode : σ → FaultMode
  setMode : FaultMode → σ → σ

/-- Runs a block with signals caught, and goes back to the mode before, whatever the answer. -/
def Engine.guarded {σ : Type} [Engine σ] (block : Text) (s : σ) : Except Ending (Answer × σ) :=
  (execute block (setMode .catchable s)).map fun r => (r.1, setMode (mode s) r.2)

end Literate

import Literate.Wire.Message

/-!
# Sessions

A session runs examples one after another over a channel to one worker. What an example defines is
there for those after it. A channel that fails ends the session: the worker is let go, once, and
nothing is sent any more.
-/

namespace Literate

/-- A channel to a worker, in a state `τ`. -/
class Transport (τ : Type) where
  send : Request → τ → Except ChannelError Unit × τ
  receive : τ → Except ChannelError Response × τ
  /-- Closes the channel and lets the worker go. -/
  shutdown : τ → τ

/-- Why a session has no verdict for an example, or cannot begin. -/
inductive SessionError
  | spawn (program reason : Text)
  | notRunning
  /-- The channel failed while the example named was on its way. -/
  | crashed (exampleName : Text) (cause : ChannelError)
  deriving DecidableEq, Repr

def SessionError.message : SessionError → Text
  | spawn program reason =>
    "failed to spawn worker `".toList ++ program ++ "`: ".toList ++ reason
  | notRunning => "worker is not running".toList
  | crashed exampleName cause =>
    "worker crashed while running ".toList ++ exampleName ++ ": ".toList ++ cause.message

/-- A channel, and whether it is still in use. -/
structure Session (τ : Type) where
  channel : τ
  running : Bool := true

namespace Session

variable {τ : Type} [Transport τ]

/-- Lets the worker go, unless that has been done. -/
def shutdown (s : Session τ) : Session τ :=
  if s.running then ⟨Transport.shutdown s.channel, false⟩ else s

@[simp] theorem running_shutdown (s : Session τ) : s.shutdown.running = false := by
  unfold shutdown
  split
  · rfl
  · next h => simpa using h

/-- Letting the worker go twice is letting it go once. -/
theorem shutdown_shutdown (s : Session τ) : s.shutdown.shutdown = s.shutdown := by
  rw [shutdown, running_shutdown]
  rfl

/-- Sends one request and waits for the response. -/
def exchange (request : Request) (channel : τ) : Except ChannelError Response × τ :=
  match Transport.send request channel with
  | (.error e, channel) => (.error e, channel)
  | (.ok _, channel) => Transport.receive channel

/-- The verdict on one example. A fault inside the example is part of it. -/
def run (e : Example) (s : Session τ) : Except SessionError Text × Session τ :=
  if s.running then
    match exchange (.ofExample e) s.channel with
    | (.ok response, channel) => (.ok (Verdict.ofResponse response), { s with channel := channel })
    | (.error cause, channel) =>
      (.error (.crashed e.display cause), shutdown { s with channel := channel })
  else (.error .notRunning, s)

/-- A session that is over runs nothing. -/
theorem run_of_not_running {s : Session τ} (h : s.running = false) (e : Example) :
    s.run e = (.error .notRunning, s) := by
  simp [run, h]

/-- Begins a session over a new channel, unless one is running. -/
def start (launch : Except SessionError τ) (s : Session τ) :
    Except SessionError Unit × Session τ :=
  if s.running then (.ok (), s)
  else match launch with
    | .ok channel => (.ok (), ⟨channel, true⟩)
    | .error e => (.error e, s)

end Session

end Literate

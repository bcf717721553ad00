import Literate.Session.Basic
import Literate.Worker

/-!
# Pipes

A pipe is a channel of bytes to a worker of its own. Frames arrive at the worker as they are sent,
and its answers wait to be received. Code that ends the process takes the worker with it, and then
the channel is found closed.
-/

namespace Literate

/-- A worker at the other end of a channel, if it is still there, and the bytes it has written
that have not been read. -/
structure Pipe (σ : Type) where
  worker : Option (Worker σ)
  pending : Bytes := []

namespace Pipe

variable {σ : Type} [Engine σ]

/-- A pipe to a new worker. -/
def connect (w : Worker σ) : Pipe σ :=
  ⟨some w, []⟩

/-- Hands data to the worker, which answers it and waits for more. One that stops on an error is
gone after what it has written. -/
def deliver (data : Bytes) (p : Pipe σ) (w : Worker σ) : Pipe σ :=
  match w.serveFrames (Frame.split data) with
  | .error _ => ⟨none, p.pending⟩
  | .ok served =>
    ⟨if served.error.isNone then some served.worker else none, p.pending ++ served.output⟩

def send (request : Request) (p : Pipe σ) : Except ChannelError Unit × Pipe σ :=
  match p.worker with
  | none => (.error (.io "Broken pipe (os error 32)".toList), p)
  | some w => (.ok (), p.deliver (Frame.write request) w)

def receive (p : Pipe σ) : Except ChannelError Response × Pipe σ :=
  let r := Frame.receive p.pending
  (r.1, { p with pending := r.2 })

instance : Transport (Pipe σ) where
  send := send
  receive := receive
  shutdown _ := ⟨none, []⟩

end Pipe

end Literate

import Literate.Engine.Basic
import Literate.Wire.Message

/-!
# Workers

A worker runs requests on one engine, one at a time. The definitions of a request come first, then
its block under guard, and the first fault ends it. A response holds what this request wrote and
nothing of those before, while the state of the engine stays. Serving a channel answers each frame
with one, until the data ends, which terminates the worker, or a frame holds no request.
-/

namespace Literate

/-- What a request has written so far, and the fault that ended it, if any. -/
abbrev Progress := Captured × Option Raised

/-- Where a worker is in its life. -/
inductive WorkerState
  /-- It waits for the next request. -/
  | ready
  /-- It runs a request. -/
  | executing
  /-- Its channel has come to an end. -/
  | terminated
  deriving DecidableEq, Repr

/-- An engine, how requests to it are prepared, and where the worker is in its life. -/
structure Worker (σ : Type) where
  engine : σ
  preparation : Preparation := {}
  state : WorkerState := .ready

namespace Worker

variable {σ : Type} [Engine σ]

/-- A worker that takes up a request. -/
def begin (w : Worker σ) : Worker σ :=
  { w with state := .executing }

/-- A worker whose channel comes to an end. -/
def terminate (w : Worker σ) : Worker σ :=
  { w with state := .terminated }

/-- The output so far with that of an answer, and the fault of the answer. -/
def settle (output : Captured) (a : Answer) : Progress :=
  (output.record a.output, a.fault?)

/-- Makes definitions up to the first that fails. -/
def define (output : Captured) : List Text → σ → Except Ending (Progress × σ)
  | [], s => .ok ((output, none), s)
  | d :: rest, s => do
    let (a, s) ← Engine.define d s
    match settle output a with
    | (output, none) => define output rest s
    | (output, some raised) => .ok ((output, some raised), s)

/-- Makes the definitions of a request and, unless one fails, runs its block. -/
def run (p : Prepared) (s : σ) : Except Ending (Progress × σ) := do
  let (r, s) ← define {} p.definitions s
  match r with
  | (output, none) => do
    let (a, s) ← Engine.guarded p.block s
    .ok (settle output a, s)
  | (output, some raised) => .ok ((output, some raised), s)

/-- The response to what a request wrote and the fault it ended in. -/
def respond (output : Captured) : Option Raised → Response
  | none => ⟨output.stdout, output.stderr, none⟩
  | some raised =>
    let r := Fault.ofRaised raised output.stderr
    ⟨output.stdout, r.2, some r.1⟩

/-- Runs one request. Unless it ends the process, the worker is ready for another one. -/
def handle (w : Worker σ) (request : Request) : Except Ending (Response × Worker σ) := do
  let w := w.begin
  let ((output, raised), s) ← run (w.preparation.prepare request) w.engine
  .ok (respond output raised, { w with engine := s, state := .ready })

/-- What comes of serving a channel. -/
structure Served (σ : Type) where
  /-- The frames written. -/
  output : Bytes
  worker : Worker σ
  /-- Why serving stopped before the end of the data, if it did. -/
  error : Option ChannelError

/-- Answers frames in order up to the first that holds no request. -/
def serveFrames (w : Worker σ) : List Bytes → Except Ending (Served σ)
  | [] => .ok ⟨[], w, none⟩
  | frame :: rest =>
    match Frame.read frame with
    | .error e => .ok ⟨[], w, some e⟩
    | .ok request => do
      let (response, w) ← w.handle request
      let later ← serveFrames w rest
      .ok { later with output := Frame.write response ++ later.output }

/-- The end of the data terminates a worker that has not stopped before it. -/
def Served.finish (r : Served σ) : Served σ :=
  if r.error.isNone then { r with worker := r.worker.terminate } else r

/-- Serves a channel on which the given data arrives and then ends. -/
def serve (w : Worker σ) (data : Bytes) : Except Ending (Served σ) :=
  (w.serveFrames (Frame.split data)).map Served.finish

end Worker

end Literate

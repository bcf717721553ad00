import Literate.Proofs.Worker.Serving
import Literate.Session.Pipe

/-!
# The channel does not show

A session over a pipe says of every example what the same worker says of it at hand, since each
request and each response comes out of the channel as it went in. Code that ends the process is
found out by the closed channel, and nothing is run after it.
-/

namespace Literate

namespace Session

variable {τ : Type} [Transport τ]

/-- Runs examples in order: what is said of each, and the session that is left. -/
def runAll (s : Session τ) : List Example → List (Except SessionError Text) × Session τ
  | [] => ([], s)
  | e :: rest =>
    let r := s.run e
    let later := runAll r.2 rest
    (r.1 :: later.1, later.2)

/-- A session that is over runs none of the examples. -/
theorem runAll_of_not_running {s : Session τ} (h : s.running = false) (es : List Example) :
    s.runAll es = (es.map fun _ => .error .notRunning, s) := by
  induction es with
  | nil => rfl
  | cons e rest ih => simp only [runAll, run_of_not_running h, ih, List.map_cons]

end Session

namespace Pipe

variable {σ : Type} [Engine σ] {w w' : Worker σ} {request : Request} {response : Response}

/-- A request that is handled leaves its response in the pipe. -/
theorem deliver_of_handle (h : w.handle request = .ok (response, w')) (p : Pipe σ) :
    p.deliver (Frame.write request) w = ⟨some w', p.pending ++ Frame.write response⟩ := by
  rw [deliver, Worker.serveFrames_write, h]
  rfl

/-- Code that ends the process takes the worker away. -/
theorem deliver_of_ended {ending : Ending} (h : w.handle request = .error ending) (p : Pipe σ) :
    p.deliver (Frame.write request) w = ⟨none, p.pending⟩ := by
  rw [deliver, Worker.serveFrames_write, h]
  rfl

private theorem send_connect (request : Request) (w : Worker σ) :
    send request (connect w) = (.ok (), (connect w).deliver (Frame.write request) w) := rfl

/-- The response to a request that is handled is received, and the pipe is empty again. -/
theorem exchange_of_handle (h : w.handle request = .ok (response, w')) :
    Session.exchange request (connect w) = (.ok response, connect w') := by
  have hsend : send request (connect w) = (.ok (), ⟨some w', Frame.write response⟩) := by
    rw [send_connect, deliver_of_handle h]
    rfl
  have hreceive : receive (⟨some w', Frame.write response⟩ : Pipe σ) =
      (.ok response, connect w') := by
    have hframe := Frame.receive_write_append response []
    rw [List.append_nil] at hframe
    rw [receive, hframe]
    rfl
  simp only [Session.exchange, Transport.send, hsend, Transport.receive, hreceive]

/-- Where the code of a request ends the process, the pipe is found closed. -/
theorem exchange_of_ended {ending : Ending} (h : w.handle request = .error ending) :
    Session.exchange request (connect w) = (.error .closed, ⟨none, []⟩) := by
  have hsend : send request (connect w) = (.ok (), ⟨none, []⟩) := by
    rw [send_connect, deliver_of_ended h]
    rfl
  have hreceive : receive (⟨none, []⟩ : Pipe σ) = (.error .closed, ⟨none, []⟩) := rfl
  simp only [Session.exchange, Transport.send, hsend, Transport.receive, hreceive]

end Pipe

namespace Session

variable {σ : Type} [Engine σ] {w w' : Worker σ} {e : Example}

/-- A session over a pipe to a worker that waits for a request. -/
def overPipe (w : Worker σ) : Session (Pipe σ) :=
  ⟨Pipe.connect w, true⟩

/-- What a session says of an example that got a response. -/
def said (response : Response) : Except SessionError Text :=
  .ok (Verdict.ofResponse response)

/-- An example that is handled gets its verdict, and the session goes on. -/
theorem run_overPipe_of_handle {response : Response}
    (h : w.handle (.ofExample e) = .ok (response, w')) :
    (overPipe w).run e = (said response, overPipe w') := by
  simp [run, overPipe, Pipe.exchange_of_handle h, said]

/-- An example that ends the process is the last one that is run. -/
theorem run_overPipe_of_ended {ending : Ending} (h : w.handle (.ofExample e) = .error ending) :
    (overPipe w).run e = (.error (.crashed e.display .closed), ⟨⟨none, []⟩, false⟩) := by
  simp [run, overPipe, Pipe.exchange_of_ended h, shutdown, Transport.shutdown]

/-- A session over a pipe says of every example what the worker says of it at hand, and goes on
with what is left of that worker. From the example on that ends the process, if there is one, it
says that the channel was closed and then that nothing is running. What crosses the channel is one
stream of frames, which the worker serves to the end. -/
theorem runAll_overPipe (w : Worker σ) (es : List Example) :
    let requests := es.map Request.ofExample
    let handled := w.handleAll requests
    (w.serve (Frame.writeAll requests) =
      handled.2.map fun w' => ⟨Frame.writeAll handled.1, w'.terminate, none⟩) ∧
    match handled.2 with
    | .ok w' => (overPipe w).runAll es = (handled.1.map said, overPipe w')
    | .error ending => ∃ before e after last, es = before ++ e :: after ∧
        w.handleAll (before.map .ofExample) = (handled.1, .ok last) ∧
        last.handle (.ofExample e) = .error ending ∧
        ((overPipe w).runAll es).1 = handled.1.map said ++
          .error (.crashed e.display .closed) :: after.map fun _ => .error .notRunning := by
  refine ⟨w.serve_writeAll _, ?_⟩
  induction es generalizing w with
  | nil => rfl
  | cons e rest ih =>
    rw [List.map_cons]
    cases h : w.handle (.ofExample e) with
    | error ending =>
      have hrest := runAll_of_not_running (s := ⟨(⟨none, []⟩ : Pipe σ), false⟩) rfl rest
      rw [Worker.handleAll_cons_of_error h]
      refine ⟨[], e, rest, w, rfl, rfl, h, ?_⟩
      simp only [runAll, run_overPipe_of_ended h, hrest, List.map_nil, List.nil_append]
    | ok r =>
      obtain ⟨response, w'⟩ := r
      have ih := ih w'
      rw [Worker.handleAll_cons_of_ok h]
      simp only [runAll, run_overPipe_of_handle h]
      cases hall : (w'.handleAll (rest.map Request.ofExample)).2 with
      | ok last =>
        rw [hall] at ih
        simp only [ih, List.map_cons]
      | error ending =>
        rw [hall] at ih
        obtain ⟨before, e', after, last, hes, hbefore, hlast, hsaid⟩ := ih
        have hbefore' : w.handleAll ((e :: before).map .ofExample) =
            (response :: (w'.handleAll (rest.map .ofExample)).1, .ok last) := by
          rw [List.map_cons, Worker.handleAll_cons_of_ok h, hbefore]
        refine ⟨e :: before, e', after, last, by rw [hes, List.cons_append], hbefore', hlast, ?_⟩
        rw [hsaid, List.map_cons, List.cons_append]

end Session

end Literate

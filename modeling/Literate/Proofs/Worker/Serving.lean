import Literate.Proofs.Wire.Framing
import Literate.Proofs.Worker.Requests

/-!
# Serving is handling

A worker that serves a channel handles the requests whose frames arrive and writes one frame for
each response, in order. The end of the channel terminates it.
-/

namespace Literate.Worker

variable {σ : Type} [Engine σ] {w w' : Worker σ} {frame : Bytes} {request : Request}
  {response : Response}

/-- A frame that holds a request is answered, and serving goes on with the worker that is left. -/
theorem serveFrames_cons_of_ok (hread : Frame.read frame = .ok request)
    (h : w.handle request = .ok (response, w')) (rest : List Bytes) :
    w.serveFrames (frame :: rest) = (w'.serveFrames rest).map fun later =>
      { later with output := Frame.write response ++ later.output } := by
  simp only [serveFrames, hread, h, bind, Except.bind]
  cases w'.serveFrames rest <;> rfl

/-- A request that ends the process ends serving. -/
theorem serveFrames_cons_of_ended (hread : Frame.read frame = .ok request) {ending : Ending}
    (h : w.handle request = .error ending) (rest : List Bytes) :
    w.serveFrames (frame :: rest) = .error ending := by
  simp only [serveFrames, hread, h, bind, Except.bind]

/-- A frame that holds no request is where serving stops. -/
theorem serveFrames_cons_of_refused {e : ChannelError}
    (hread : Frame.read (α := Request) frame = .error e) (rest : List Bytes) :
    w.serveFrames (frame :: rest) = .ok ⟨[], w, some e⟩ := by
  simp only [serveFrames, hread]

/-- Frames that hold requests are answered in order, and serving goes on with the frames after
them, unless one of the requests ends the process. -/
theorem serveFrames_append {frames : List Bytes} {requests : List Request}
    (hread : frames.map Frame.read = requests.map .ok) (tail : List Bytes) :
    w.serveFrames (frames ++ tail) = (w.handleAll requests).2 >>= fun w' =>
      (w'.serveFrames tail).map fun later =>
        { later with output := Frame.writeAll (w.handleAll requests).1 ++ later.output } := by
  induction frames generalizing w requests with
  | nil =>
    obtain rfl : requests = [] := List.map_eq_nil_iff.mp hread.symm
    cases h : w.serveFrames tail with
    | error ending => simp [handleAll, h, bind, Except.bind, Except.map]
    | ok served => simp [handleAll, h, bind, Except.bind, Except.map, Frame.writeAll]
  | cons frame frames ih =>
    obtain ⟨request, requests, rfl, hframe, hread⟩ :=
      List.map_eq_cons_iff.mp hread.symm
    have hframe : Frame.read frame = .ok request := hframe.symm
    rw [List.cons_append]
    cases h : w.handle request with
    | error ending => rw [serveFrames_cons_of_ended hframe h, handleAll_cons_of_error h]; rfl
    | ok r =>
      obtain ⟨response, w'⟩ := r
      rw [serveFrames_cons_of_ok hframe h, handleAll_cons_of_ok h, ih hread.symm]
      cases (w'.handleAll requests).2 with
      | error ending => rfl
      | ok last =>
        simp only [bind, Except.bind]
        cases last.serveFrames tail with
        | error ending => rfl
        | ok served => simp [Except.map, Frame.writeAll]

/-- Requests that arrive as frames are handled in order, and the frames of their responses are
written, unless one of them ends the process. The worker is terminated after them. -/
theorem serve_writeAll (w : Worker σ) (requests : List Request) :
    w.serve (Frame.writeAll requests) = (w.handleAll requests).2.map fun w' =>
      ⟨Frame.writeAll (w.handleAll requests).1, w'.terminate, none⟩ := by
  have hread : (requests.map Frame.write).map Frame.read =
      requests.map (.ok : Request → Except ChannelError Request) := by
    rw [List.map_map]
    exact List.map_congr_left fun r _ => Frame.read_write r
  have hserve := serveFrames_append (w := w) hread []
  rw [List.append_nil] at hserve
  rw [serve, Frame.split_writeAll, hserve]
  cases (w.handleAll requests).2 with
  | error ending => rfl
  | ok w' => simp [bind, Except.bind, Except.map, serveFrames, Served.finish]

/-- One request is answered by one frame. -/
theorem serveFrames_write (w : Worker σ) (request : Request) :
    w.serveFrames (Frame.split (Frame.write request)) = (w.handle request).map fun r =>
      ⟨Frame.write r.1, r.2, none⟩ := by
  have hread : Frame.read (Frame.write request) = .ok request := Frame.read_write request
  rw [Frame.split_write]
  cases h : w.handle request with
  | error ending => exact serveFrames_cons_of_ended hread h []
  | ok r =>
    obtain ⟨response, w'⟩ := r
    rw [serveFrames_cons_of_ok hread h, serveFrames]
    simp only [Except.map, List.append_nil]

end Literate.Worker

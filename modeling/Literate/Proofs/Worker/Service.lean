import Mathlib.Logic.Relation
import Literate.Proofs.Worker.Serving

/-!
# Serving step by step

A worker that serves a channel waits for a frame, or runs the request that it has read. Each step
reads one frame or answers one request. The end of the data terminates the worker; a frame that
holds no request stops it where it was ready, and what comes after that frame stays unread. Serving
does what these steps do: it handles the requests of the leading lines and writes their responses.
-/

namespace Literate

/-- A worker that serves a channel: the request that it runs, if it runs one, the data it has not
read, what it has written, and what serving has come to, once it is over. -/
structure Service (σ : Type) where
  worker : Worker σ
  pending : Option Request
  unread : Bytes
  written : Bytes
  result : Option (Except ChannelError Unit)

namespace Service

variable {σ : Type} [Engine σ]

/-- A worker that begins to serve a channel. -/
def start (w : Worker σ) (data : Bytes) : Service σ :=
  ⟨w, none, data, [], none⟩

/-- One step of serving. A request that ends the process has no step after it. -/
inductive Step : Service σ → Service σ → Prop
  /-- A frame that holds a request is read, and the worker begins to run it. -/
  | read {w : Worker σ} {data rest out : Bytes} {request : Request}
      (h : Frame.next? data = some (.ok request, rest)) :
      Step ⟨w, none, data, out, none⟩ ⟨w.begin, some request, rest, out, none⟩
  /-- The request is handled and its response written. -/
  | answer {w w' : Worker σ} {data out : Bytes} {request : Request} {response : Response}
      (h : w.handle request = .ok (response, w')) :
      Step ⟨w, some request, data, out, none⟩
        ⟨w', none, data, out ++ Frame.write response, none⟩
  /-- A frame that holds no request is an error. -/
  | refuse {w : Worker σ} {data rest out : Bytes} {e : ChannelError}
      (h : Frame.next? (α := Request) data = some (.error e, rest)) :
      Step ⟨w, none, data, out, none⟩ ⟨w, none, rest, out, some (.error e)⟩
  /-- The data has come to an end. -/
  | terminate {w : Worker σ} {data out : Bytes} (h : Frame.next? (α := Request) data = none) :
      Step ⟨w, none, data, out, none⟩ ⟨w.terminate, none, data, out, some (.ok ())⟩

/-- Serving goes from one point to another in some steps. -/
abbrev Steps : Service σ → Service σ → Prop :=
  Relation.ReflTransGen Step

/-- Serving comes to a point where no step is left. -/
def EndsAt (s last : Service σ) : Prop :=
  Steps s last ∧ ∀ next, ¬Step last next

variable {w w' : Worker σ} {data out : Bytes}

/-- No two steps can be taken from one point. -/
theorem Step.unique {s t t' : Service σ} (h : Step s t) (h' : Step s t') : t = t' := by
  cases h with
  | read h =>
    cases h' with
    | read h' =>
      obtain ⟨⟨⟩, rfl⟩ := Prod.mk.inj (Option.some.inj (h.symm.trans h'))
      rfl
    | refuse h' => cases h.symm.trans h'
    | terminate h' => cases h.symm.trans h'
  | answer h =>
    cases h' with
    | answer h' =>
      obtain ⟨rfl, rfl⟩ := Prod.mk.inj (Except.ok.inj (h.symm.trans h'))
      rfl
  | refuse h =>
    cases h' with
    | read h' => cases h.symm.trans h'
    | refuse h' =>
      obtain ⟨⟨⟩, rfl⟩ := Prod.mk.inj (Option.some.inj (h.symm.trans h'))
      rfl
    | terminate h' => cases h.symm.trans h'
  | terminate h =>
    cases h' with
    | read h' => cases h.symm.trans h'
    | refuse h' => cases h.symm.trans h'
    | terminate h' => rfl

/-- Where a worker is in its life at a point of serving: it runs the request that it has read, its
data has come to an end, or it waits. -/
def life (s : Service σ) : WorkerState :=
  match s.pending, s.result with
  | some _, _ => .executing
  | none, some (.ok _) => .terminated
  | none, _ => .ready

/-- A step takes the worker on in its life. -/
theorem Step.state_eq {s t : Service σ} (h : Step s t) (hs : s.worker.state = s.life) :
    t.worker.state = t.life := by
  cases h with
  | read h => rfl
  | answer h => exact Worker.state_of_handle h
  | refuse h => exact hs
  | terminate h => rfl

/-- A worker that begins to serve when it is ready is always where serving says it is. -/
theorem state_of_steps {s : Service σ} (hw : w.state = .ready) (h : Steps (start w data) s) :
    s.worker.state = s.life := by
  induction h with
  | refl => exact hw
  | tail _ hstep ih => exact hstep.state_eq ih

/-- Serving ends at one point at most. -/
theorem EndsAt.unique {s last last' : Service σ} (h : s.EndsAt last) (h' : s.EndsAt last') :
    last = last' := by
  have hunique : Relator.RightUnique (Step (σ := σ)) := fun _ _ _ => Step.unique
  rcases Relation.ReflTransGen.total_of_right_unique hunique h.1 h'.1 with hsteps | hsteps
  · rcases hsteps.cases_head with heq | ⟨next, hstep, -⟩
    · exact heq
    · exact absurd hstep (h.2 next)
  · rcases hsteps.cases_head with heq | ⟨next, hstep, -⟩
    · exact heq.symm
    · exact absurd hstep (h'.2 next)

/-- A frame that holds a request is read and answered in two steps. -/
theorem steps_request {rest : Bytes} {request : Request} {response : Response}
    (hread : Frame.next? data = some (.ok request, rest))
    (h : w.handle request = .ok (response, w')) (out : Bytes) :
    Steps ⟨w, none, data, out, none⟩ ⟨w', none, rest, out ++ Frame.write response, none⟩ := by
  have hbegun : w.begin.handle request = .ok (response, w') := h
  exact .head (.read hread) (.single (.answer hbegun))

/-- Frames that hold requests are read and answered one after another, and the frames after them
stay unread. -/
theorem steps_handleAll {frames tail : List Bytes} {requests : List Request}
    (hsplit : Frame.split data = frames ++ tail)
    (hread : frames.map Frame.read = requests.map .ok)
    (h : (w.handleAll requests).2 = .ok w') (out : Bytes) :
    Steps ⟨w, none, data, out, none⟩
      ⟨w', none, tail.flatten, out ++ Frame.writeAll (w.handleAll requests).1, none⟩ := by
  induction frames generalizing w data out requests with
  | nil =>
    obtain rfl : requests = [] := List.map_eq_nil_iff.mp hread.symm
    obtain rfl : w = w' := Except.ok.inj h
    have hdata : tail.flatten = data := by
      rw [← Frame.flatten_split data, hsplit, List.nil_append]
    rw [hdata, Worker.handleAll, Frame.writeAll, List.flatMap_nil, List.append_nil]
  | cons frame frames ih =>
    obtain ⟨request, requests, rfl, hframe, hread⟩ := List.map_eq_cons_iff.mp hread.symm
    have hnext := Frame.next?_of_split (α := Request) hsplit
    rw [← hframe] at hnext
    cases hhandle : w.handle request with
    | error ending =>
      rw [Worker.handleAll_cons_of_error hhandle] at h
      cases h
    | ok r =>
      obtain ⟨response, w₁⟩ := r
      rw [Worker.handleAll_cons_of_ok hhandle] at h ⊢
      have hlater := ih (Frame.split_flatten_of_split [frame] hsplit) hread.symm h
        (out ++ Frame.write response)
      rw [List.append_assoc] at hlater
      exact (steps_request hnext hhandle out).trans hlater

/-- Where the data has come to an end, the worker terminates. -/
theorem endsAt_terminated {s : Service σ} {out : Bytes}
    (h : Steps s ⟨w, none, [], out, none⟩) :
    s.EndsAt ⟨w.terminate, none, [], out, some (.ok ())⟩ := by
  refine ⟨h.tail (.terminate rfl), ?_⟩
  rintro next ⟨⟩

/-- A frame that holds no request is the last that is read. -/
theorem endsAt_refused {s : Service σ} {out rest : Bytes} {e : ChannelError}
    (h : Steps s ⟨w, none, data, out, none⟩)
    (hread : Frame.next? (α := Request) data = some (.error e, rest)) :
    s.EndsAt ⟨w, none, rest, out, some (.error e)⟩ := by
  refine ⟨h.tail (.refuse hread), ?_⟩
  rintro next ⟨⟩

end Service

namespace Worker

variable {σ : Type} [Engine σ]

/-- Serving handles the requests of the leading lines of the data, one after another, and writes the
frames of their responses and nothing more, unless one of them ends the process. Where every line
holds a request, the worker is terminated. Otherwise it stops on the first line that holds none,
with the error of this line: it is ready if it was, and it has not read the lines after that one. -/
theorem serve_refines_handleAll (w : Worker σ) (data : Bytes) :
    ∃ (frames later : List Bytes) (requests : List Request),
      Frame.Lines data (frames ++ later) ∧
      frames.map Frame.read = requests.map .ok ∧
      (∀ line ∈ later.head?, ∃ e, Frame.read (α := Request) line = .error e) ∧
      let output := Frame.writeAll (w.handleAll requests).1
      match (w.handleAll requests).2, later with
      | .error ending, _ => w.serve data = .error ending
      | .ok w', [] =>
        (w.handleAll requests).1.length = requests.length ∧
        w.serve data = .ok ⟨output, { w' with state := .terminated }, none⟩ ∧
        (Service.start w data).EndsAt
          ⟨{ w' with state := .terminated }, none, [], output, some (.ok ())⟩
      | .ok w', line :: rest =>
        (w.handleAll requests).1.length = requests.length ∧
        (w.state = .ready → w'.state = .ready) ∧
        ∃ e, Frame.read (α := Request) line = .error e ∧
          w.serve data = .ok ⟨output, w', some e⟩ ∧
          (Service.start w data).EndsAt ⟨w', none, rest.flatten, output, some (.error e)⟩ := by
  obtain ⟨frames, later, requests, hsplit, hread, hlater⟩ :=
    Frame.exists_leading (α := Request) (Frame.split data)
  refine ⟨frames, later, requests, Frame.lines_iff.mpr hsplit, hread, hlater, ?_⟩
  have hserve : w.serve data = ((w.handleAll requests).2 >>= fun w' =>
      (w'.serveFrames later).map fun served =>
        { served with output := Frame.writeAll (w.handleAll requests).1 ++ served.output }).map
          Served.finish := by
    rw [serve, hsplit, serveFrames_append hread]
  cases hall : (w.handleAll requests).2 with
  | error ending =>
    rw [hall] at hserve
    exact hserve
  | ok w' =>
    have hlength := length_handleAll hall
    have hsteps := Service.steps_handleAll hsplit hread hall []
    rw [hall] at hserve
    cases later with
    | nil =>
      refine ⟨hlength, ?_, Service.endsAt_terminated hsteps⟩
      simpa [bind, Except.bind, Except.map, serveFrames, Served.finish, terminate] using hserve
    | cons line rest =>
      obtain ⟨e, he⟩ := hlater line rfl
      have hnext := Frame.next?_of_split (α := Request) (Frame.split_flatten_of_split frames hsplit)
      rw [he] at hnext
      refine ⟨hlength, fun hw => Service.state_of_steps hw hsteps, e, he, ?_,
        Service.endsAt_refused hsteps hnext⟩
      simpa [bind, Except.bind, Except.map, serveFrames_cons_of_refused he, Served.finish]
        using hserve

end Worker

end Literate

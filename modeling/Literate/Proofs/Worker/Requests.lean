import Literate.Proofs.Result
import Literate.Worker

/-!
# Requests one after another

A worker takes requests in order and keeps the state of its engine from each to the next. Where a
request ends the process, the ones after it are not run.
-/

namespace Literate.Worker

variable {σ : Type} [Engine σ]

/-- Runs requests in order: the responses up to where the process ends, and the worker that is
left, or how the process ends. -/
def handleAll (w : Worker σ) : List Request → List Response × Except Ending (Worker σ)
  | [] => ([], .ok w)
  | request :: rest =>
    match w.handle request with
    | .error ending => ([], .error ending)
    | .ok (response, w) =>
      let later := handleAll w rest
      (response :: later.1, later.2)

variable {w w' : Worker σ} {request : Request} {response : Response}

/-- A request that is answered goes before the others. -/
theorem handleAll_cons_of_ok (h : w.handle request = .ok (response, w')) (rest : List Request) :
    w.handleAll (request :: rest) = (response :: (w'.handleAll rest).1, (w'.handleAll rest).2) := by
  simp only [handleAll, h]

/-- A request that ends the process is the last. -/
theorem handleAll_cons_of_error {ending : Ending} (h : w.handle request = .error ending)
    (rest : List Request) : w.handleAll (request :: rest) = ([], .error ending) := by
  simp only [handleAll, h]

/-- What every request that is answered preserves, requests in order preserve. -/
theorem handleAll_preserves {P : Worker σ → Prop}
    (hstep : ∀ w request response w', P w → w.handle request = .ok (response, w') → P w')
    {last : Worker σ} (hw : P w) {requests : List Request}
    (h : (w.handleAll requests).2 = .ok last) : P last := by
  induction requests generalizing w with
  | nil =>
    obtain rfl : w = last := Except.ok.inj h
    exact hw
  | cons request rest ih =>
    cases hhandle : w.handle request with
    | error ending =>
      rw [handleAll_cons_of_error hhandle] at h
      cases h
    | ok r =>
      obtain ⟨response, w'⟩ := r
      rw [handleAll_cons_of_ok hhandle] at h
      exact ih (hstep w request response w' hw hhandle) h

/-- Where the process does not end, every request is answered. -/
theorem length_handleAll {requests : List Request} (h : (w.handleAll requests).2 = .ok w') :
    (w.handleAll requests).1.length = requests.length := by
  induction requests generalizing w with
  | nil => rfl
  | cons request rest ih =>
    cases hhandle : w.handle request with
    | error ending =>
      rw [handleAll_cons_of_error hhandle] at h
      cases h
    | ok r =>
      obtain ⟨response, w₁⟩ := r
      rw [handleAll_cons_of_ok hhandle] at h ⊢
      exact congrArg (· + 1) (ih h)

/-- Where the process ends, it ends at one request, and those before it are answered. -/
theorem exists_of_handleAll_eq_error {requests : List Request} {ending : Ending}
    (h : (w.handleAll requests).2 = .error ending) :
    ∃ before request after last, requests = before ++ request :: after ∧
      w.handleAll before = ((w.handleAll requests).1, .ok last) ∧
      last.handle request = .error ending := by
  induction requests generalizing w with
  | nil => cases h
  | cons request rest ih =>
    cases hhandle : w.handle request with
    | error ending' =>
      rw [handleAll_cons_of_error hhandle] at h ⊢
      obtain rfl : ending' = ending := Except.error.inj h
      exact ⟨[], request, rest, w, rfl, rfl, hhandle⟩
    | ok r =>
      obtain ⟨response, w'⟩ := r
      rw [handleAll_cons_of_ok hhandle] at h ⊢
      obtain ⟨before, request', after, last, rfl, hbefore, hlast⟩ := ih h
      refine ⟨request :: before, request', after, last, rfl, ?_, hlast⟩
      rw [handleAll_cons_of_ok hhandle, hbefore]

/-- A request is run on the engine, and the worker keeps what is left of it. -/
theorem handle_of_run {output : Captured} {raised : Option Raised} {s : σ}
    (h : run (w.preparation.prepare request) w.engine = .ok ((output, raised), s)) :
    w.handle request = .ok (respond output raised, { w with engine := s, state := .ready }) := by
  simp only [handle, begin, h, bind, Except.bind]

/-- A request is answered exactly where its run comes to an end, with what that has written. -/
theorem handle_eq_ok : w.handle request = .ok (response, w') ↔
    ∃ output raised s, run (w.preparation.prepare request) w.engine = .ok ((output, raised), s) ∧
      response = respond output raised ∧ w' = { w with engine := s, state := .ready } := by
  rw [handle, bind_eq_ok]
  simp [begin, eq_comm]

/-- A request ends the process exactly where its run does. -/
theorem handle_eq_error {ending : Ending} : w.handle request = .error ending ↔
    run (w.preparation.prepare request) w.engine = .error ending := by
  rw [handle, bind_eq_error]
  simp [begin]

/-- Workers that prepare requests alike handle two of them alike where these run alike. -/
theorem handle_congr {v : Worker σ} {other : Request} (hp : v.preparation = w.preparation)
    (h : run (v.preparation.prepare other) v.engine =
      run (w.preparation.prepare request) w.engine) : v.handle other = w.handle request := by
  simp only [handle, begin]
  rw [h, hp]

/-- A request that is answered leaves the worker ready. -/
theorem state_of_handle (h : w.handle request = .ok (response, w')) : w'.state = .ready := by
  obtain ⟨output, raised, s, -, -, rfl⟩ := handle_eq_ok.mp h
  rfl

/-- Where a definition fails, the block is not run. -/
theorem run_of_define_failed {p : Prepared} {output : Captured} {raised : Raised} {s s' : σ}
    (h : define {} p.definitions s = .ok ((output, some raised), s')) :
    run p s = .ok ((output, some raised), s') := by
  simp only [run, h, bind, Except.bind]

/-- Where all definitions are made, the block is run under guard. -/
theorem run_of_define {p : Prepared} {output : Captured} {s s' : σ}
    (h : define {} p.definitions s = .ok ((output, none), s')) :
    run p s = (Engine.guarded p.block s').map fun r => (settle output r.1, r.2) := by
  simp only [run, h, bind, Except.bind]
  cases Engine.guarded p.block s' <;> rfl

end Literate.Worker

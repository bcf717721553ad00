import Literate.Proofs.Language.NumberFormat
import Literate.Proofs.Worker.Interpreted

/-!
# The number format does not leak

Two workers whose interpreters differ in no more than the number of significant digits respond alike
to every list of requests, and end the process alike. Every block that starts to run sets the number
of digits first, so that after it the two are the same; a request whose block does not start leaves
both as they were.
-/

namespace Literate

namespace Interpreter

/-- The statement that sets the number format leaves nothing of the number of digits before it. -/
theorem runAll_formatted (s : Interpreter) (digits n : Nat) (rest : List Statement) :
    Statement.runAll ⟨{ s with precision := digits }, {}⟩ (Preparation.formatted n :: rest) =
      Statement.runAll ⟨s, {}⟩ (Preparation.formatted n :: rest) := rfl

/-- The answer to a block that has run does not depend on the state before it. -/
theorem answer_ran (m : Machine) (stop : Option Interrupt) (s t : Interpreter) :
    (Execution.ran m stop).answer s = (Execution.ran m stop).answer t := by
  rcases stop with _ | e | ending <;> rfl

/-- A block that starts to run does the same whatever the number of digits was. -/
theorem execute_precision {s : Interpreter} {p : Preparation} {r : Request}
    {statements : List Statement} (h : s.check (p.prepare r).block = .ok statements)
    (digits : Nat) :
    ({ s with precision := digits } : Interpreter).execute (p.prepare r).block =
      s.execute (p.prepare r).block := by
  have h' : ({ s with precision := digits } : Interpreter).check (p.prepare r).block =
      .ok statements := h
  obtain ⟨rest, rfl⟩ := Preparation.exists_of_ofText_block (check_eq_ok.mp h).1
  rw [execute_of_check h, execute_of_check h', runAll_formatted]
  exact answer_ran _ _ _ _

end Interpreter

namespace Worker

/-- Whether a request comes to run its block: its definitions succeed, and the block is cut into
tokens, read as statements and has its names resolved. -/
def Starts (w : Worker Interpreter) (request : Request) : Prop :=
  ∃ output s statements,
    define {} (w.preparation.prepare request).definitions w.engine = .ok ((output, none), s) ∧
      s.check (w.preparation.prepare request).block = .ok statements

/-- A request that does not come to run its block leaves the worker as it was, and the response does
not depend on the number of digits. -/
theorem handle_of_not_starts {s : Interpreter} {p : Preparation} {request : Request}
    (h : ¬({ engine := s, preparation := p } : Worker Interpreter).Starts request) :
    ∃ response, ∀ digits,
      let w : Worker Interpreter := { engine := { s with precision := digits }, preparation := p }
      w.handle request = .ok (response, w) := by
  obtain ⟨output, raised?, hdefine, -⟩ := define_interpreter {} (p.prepare request).definitions
  cases raised? with
  | some raised =>
    exact ⟨_, fun digits => handle_of_run (run_of_define_failed (hdefine _))⟩
  | none =>
    cases hcheck : s.check (p.prepare request).block with
    | ok statements => exact absurd ⟨output, s, statements, hdefine s, hcheck⟩ h
    | error e =>
      refine ⟨respond (output.record {}) (some (.other e.message)), fun digits => ?_⟩
      have hrun := run_of_define (hdefine { s with precision := digits })
      have hcheck' : ({ s with precision := digits } : Interpreter).check
          (p.prepare request).block = .error e := hcheck
      rw [Interpreter.guarded_of_check_error hcheck'] at hrun
      exact handle_of_run hrun

/-- A request that comes to run its block does the same whatever the number of digits was. -/
theorem handle_of_starts {s : Interpreter} {p : Preparation} {request : Request}
    (h : ({ engine := s, preparation := p } : Worker Interpreter).Starts request) (digits : Nat) :
    let w : Worker Interpreter := { engine := { s with precision := digits }, preparation := p }
    w.handle request =
      ({ engine := s, preparation := p } : Worker Interpreter).handle request := by
  intro w
  obtain ⟨output, s', statements, hdefine, hcheck⟩ := h
  obtain ⟨output', raised?, hdefine', -⟩ := define_interpreter {} (p.prepare request).definitions
  cases (hdefine' s).symm.trans hdefine
  have hguarded : Engine.guarded (p.prepare request).block
      ({ s with precision := digits } : Interpreter) =
      Engine.guarded (p.prepare request).block s := by
    have hexecute := Interpreter.execute_precision
      (show ({ s with mode := .catchable } : Interpreter).check (p.prepare request).block =
        .ok statements from hcheck) digits
    simp only [Engine.guarded, Engine.execute, Engine.setMode, Engine.mode, hexecute]
  have hrun := run_of_define hdefine
  have hrun' := run_of_define (hdefine' { s with precision := digits })
  rw [hguarded, ← hrun] at hrun'
  exact handle_congr rfl hrun'

/-- Two workers whose interpreters differ in no more than the number of digits: they respond alike
to every list of requests, and the process ends for both or for neither, and in the same way. Their
interpreters still differ in no more, and a request that comes to run its block leaves them
equal. -/
theorem handleAll_precision (p : Preparation) (s : Interpreter) (digits : Nat)
    (requests : List Request) :
    let v : Worker Interpreter := { engine := s, preparation := p }
    let w : Worker Interpreter := { engine := { s with precision := digits }, preparation := p }
    (w.handleAll requests).1 = (v.handleAll requests).1 ∧
    (∀ ending, (w.handleAll requests).2 = .error ending ↔
      (v.handleAll requests).2 = .error ending) ∧
    ∀ v', (v.handleAll requests).2 = .ok v' →
      ∃ digits' : Nat,
        (w.handleAll requests).2 =
          .ok { v' with engine := { v'.engine with precision := digits' } } ∧
        ∀ request, v'.Starts request →
          handle { v' with engine := { v'.engine with precision := digits' } } request =
            v'.handle request := by
  induction requests generalizing s digits with
  | nil =>
    refine ⟨rfl, fun ending => by simp [handleAll], ?_⟩
    rintro v' ⟨⟩
    exact ⟨digits, rfl, fun request hstarts => handle_of_starts hstarts digits⟩
  | cons request requests ih =>
    intro v w
    by_cases hstarts : v.Starts request
    · have hsame : w.handleAll (request :: requests) = v.handleAll (request :: requests) := by
        rw [handleAll, handleAll, handle_of_starts hstarts digits]
      rw [hsame]
      exact ⟨rfl, fun ending => Iff.rfl, fun v' hv' =>
        ⟨v'.engine.precision, hv', fun request _ => rfl⟩⟩
    · obtain ⟨response, hhandle⟩ := handle_of_not_starts hstarts
      have hv : v.handle request = .ok (response, v) := hhandle s.precision
      have hw : w.handle request = .ok (response, w) := hhandle digits
      obtain ⟨hresponses, hending, hafter⟩ := ih s digits
      rw [handleAll_cons_of_ok hv, handleAll_cons_of_ok hw]
      exact ⟨congrArg (response :: ·) hresponses, hending, hafter⟩

end Worker

end Literate

import Literate.Proofs.Language.Guard
import Literate.Proofs.Worker.Requests

/-!
# Requests to an interpreter

A request to a worker over an interpreter either leaves the interpreter as it is, because a
definition fails or the block is refused, or its block runs with signals caught. The mode of the
interpreter is the same afterwards.
-/

namespace Literate.Worker

/-- What comes of definitions does not depend on the interpreter and does not change it. -/
theorem define_interpreter (output : Captured) (ds : List Text) :
    ∃ output' raised?, (∀ s : Interpreter, define output ds s = .ok ((output', raised?), s)) ∧
      ∀ raised ∈ raised?, ∃ message, raised = Raised.other message := by
  induction ds generalizing output with
  | nil => exact ⟨output, none, fun s => rfl, by simp⟩
  | cons d ds ih =>
    cases hd : Header.ofDefinition d with
    | ok name =>
      obtain ⟨output', raised?, hdefine, hraised⟩ := ih (output.record {})
      refine ⟨output', raised?, fun s => ?_, hraised⟩
      rw [← hdefine s]
      simp only [define, Engine.define, Interpreter.define, hd, bind, Except.bind, settle,
        Answer.output, Answer.fault?]
    | error e =>
      refine ⟨output.record {}, some (.other e.message), fun s => ?_, by simp⟩
      simp only [define, Engine.define, Interpreter.define, hd, bind, Except.bind, settle,
        Answer.output, Answer.fault?]

/-- A worker accepts a request as some statements: its definitions succeed, and its block reads as
these statements with every name resolved. -/
structure Accepts (w : Worker Interpreter) (request : Request) (statements : List Statement) :
    Prop where
  define : ∃ output, Worker.define {} (w.preparation.prepare request).definitions w.engine =
    .ok ((output, none), w.engine)
  check : w.engine.check (w.preparation.prepare request).block = .ok statements

variable {w w' : Worker Interpreter} {request : Request} {response : Response}

/-- A request that is accepted runs its block with signals caught, and the mode is what it was
unless the process ends. -/
theorem Accepts.run {statements : List Statement} (h : w.Accepts request statements) :
    let r := Statement.runAll ⟨w.engine.catching, {}⟩ statements
    ∃ output, run (w.preparation.prepare request) w.engine =
      match r.2 with
      | none => .ok ((output, none), r.1.state.inMode w.engine.mode)
      | some (.error e) => .ok ((output, some e.raised), r.1.state.inMode w.engine.mode)
      | some (.ended ending) => .error ending := by
  obtain ⟨⟨output, hdefine⟩, hcheck⟩ := h
  have hguarded := Interpreter.guarded_of_check hcheck
  simp only [run_of_define hdefine, hguarded]
  generalize Statement.runAll ⟨w.engine.catching, {}⟩ statements = r
  rcases r with ⟨m, _ | e | ending⟩
  · exact ⟨_, rfl⟩
  · exact ⟨_, rfl⟩
  · exact ⟨{}, rfl⟩

/-- A request that is not accepted fails and leaves the interpreter as it is. -/
theorem accepts_or_refused (w : Worker Interpreter) (request : Request) :
    (∃ statements, w.Accepts request statements) ∨
      ∃ output message, run (w.preparation.prepare request) w.engine =
        .ok ((output, some (.other message)), w.engine) := by
  obtain ⟨output, raised?, hdefine, hraised⟩ :=
    define_interpreter {} (w.preparation.prepare request).definitions
  cases raised? with
  | some raised =>
    obtain ⟨message, rfl⟩ := hraised raised rfl
    exact .inr ⟨output, message, run_of_define_failed (hdefine w.engine)⟩
  | none =>
    cases hcheck : w.engine.check (w.preparation.prepare request).block with
    | ok statements => exact .inl ⟨statements, ⟨output, hdefine w.engine⟩, hcheck⟩
    | error e =>
      refine .inr ⟨output.record {}, e.message, ?_⟩
      rw [run_of_define (hdefine w.engine), Interpreter.guarded_of_check_error hcheck]
      rfl

/-- The mode of the interpreter is the same after every request. -/
theorem mode_handle (h : w.handle request = .ok (response, w')) :
    w'.engine.mode = w.engine.mode := by
  obtain ⟨output, raised?, s, hrun, -, rfl⟩ := handle_eq_ok.mp h
  rcases accepts_or_refused w request with ⟨statements, haccepts⟩ | ⟨output', message, hrefused⟩
  · obtain ⟨output', haccepted⟩ := haccepts.run
    rw [haccepted] at hrun
    generalize Statement.runAll ⟨w.engine.catching, {}⟩ statements = r at hrun
    rcases r with ⟨m, _ | e | ending⟩ <;> cases hrun <;> rfl
  · rw [hrefused] at hrun
    cases hrun
    rfl

end Literate.Worker

import Literate.Proofs.Language.Stops
import Literate.Proofs.Worker.Interpreted

/-!
# Requests do not abort the process

An interpreter that serves requests rests in the fatal mode, and every block runs with signals
caught. So however many requests have been answered, and whatever they failed with, a division of an
integer by zero is a fault of the request that makes it. Only an exit ends the process.
-/

namespace Literate.Worker

/-- Running the block of a request comes to a statement in a machine. -/
def ComesTo (w : Worker Interpreter) (request : Request) (s : Statement) (m : Machine) : Prop :=
  ∃ statements, w.Accepts request statements ∧
    Statement.Reaches ⟨w.engine.catching, {}⟩ statements s m

/-- Whether a request divides an integer by zero. -/
def DividesByZero (w : Worker Interpreter) (request : Request) : Prop :=
  ∃ s m, w.ComesTo request s m ∧ s.DividesByZero m

/-- Whether a request comes to an exit whose value gives the code. -/
def Exits (w : Worker Interpreter) (request : Request) (code : Int32) : Prop :=
  ∃ e v n m, w.ComesTo request (.exit e) m ∧ m.eval e = .ok v ∧
    v.toInt64 "std::exit".toList = .ok n ∧ code = n.toInt32

variable {w : Worker Interpreter} {request : Request}

/-- The run of a request raises the signal exactly where the request divides by zero. -/
theorem run_raises_signal_iff :
    (∃ output s, run (w.preparation.prepare request) w.engine =
      .ok ((output, some RunError.divisionByZero.raised), s)) ↔ w.DividesByZero request := by
  constructor
  · rintro ⟨output, s, hrun⟩
    rcases accepts_or_refused w request with ⟨statements, haccepts⟩ | ⟨output', message, hrefused⟩
    · obtain ⟨output', haccepted⟩ := haccepts.run
      generalize hr : Statement.runAll ⟨w.engine.catching, {}⟩ statements = r at haccepted
      rw [haccepted] at hrun
      rcases r with ⟨m, _ | e | ending⟩
      · cases hrun
      · simp only [Except.ok.injEq, Prod.mk.injEq, Option.some.injEq] at hrun
        obtain rfl : e = .divisionByZero := RunError.eq_of_raised_eq_signal hrun.1.2
        obtain ⟨s, m₀, hreaches, hdivides⟩ :=
          (Statement.runAll_eq_divisionByZero_iff rfl).mp (congrArg Prod.snd hr)
        exact ⟨s, m₀, ⟨statements, haccepts, hreaches⟩, hdivides⟩
      · cases hrun
    · rw [hrefused] at hrun
      cases hrun
  · rintro ⟨s, m, ⟨statements, haccepts, hreaches⟩, hdivides⟩
    have hstop := (Statement.runAll_eq_divisionByZero_iff rfl).mpr ⟨s, m, hreaches, hdivides⟩
    obtain ⟨output, haccepted⟩ := haccepts.run
    simp only [hstop] at haccepted
    exact ⟨output, _, haccepted⟩

/-- A request ends the process exactly where it exits, and with the code of the exit. -/
theorem handle_ends_iff {ending : Ending} :
    w.handle request = .error ending ↔ ∃ code, w.Exits request code ∧
      ending = .exited code := by
  rw [handle_eq_error]
  constructor
  · intro hrun
    rcases accepts_or_refused w request with ⟨statements, haccepts⟩ | ⟨output', message, hrefused⟩
    · obtain ⟨output', haccepted⟩ := haccepts.run
      generalize hr : Statement.runAll ⟨w.engine.catching, {}⟩ statements = r at haccepted
      rw [haccepted] at hrun
      rcases r with ⟨m, _ | e | ending'⟩
      · cases hrun
      · cases hrun
      · obtain rfl : ending' = ending := Except.error.inj hrun
        obtain ⟨e, v, n, m₀, hreaches, hv, hn, hending⟩ :=
          (Statement.runAll_eq_ended_iff rfl statements ending').mp (congrArg Prod.snd hr)
        exact ⟨_, ⟨e, v, n, m₀, ⟨statements, haccepts, hreaches⟩, hv, hn, rfl⟩, hending⟩
    · rw [hrefused] at hrun
      cases hrun
  · rintro ⟨code, ⟨e, v, n, m, ⟨statements, haccepts, hreaches⟩, hv, hn, rfl⟩, rfl⟩
    have hstop := (Statement.runAll_eq_ended_iff rfl statements _).mpr
      ⟨e, v, n, m, hreaches, hv, hn, rfl⟩
    obtain ⟨output, haccepted⟩ := haccepts.run
    simp only [hstop] at haccepted
    exact haccepted

/-- A request that divides by zero is answered with the signal as its fault. -/
theorem handle_of_dividesByZero (h : w.DividesByZero request) :
    ∃ response w', w.handle request = .ok (response, w') ∧
      response.fault = some ⟨.generic, "SIGFPE: integer division by zero".toList⟩ := by
  obtain ⟨output, s, hrun⟩ := run_raises_signal_iff.mpr h
  exact ⟨_, _, handle_of_run hrun, rfl⟩

/-- Requests to a new interpreter never abort the process. Where the process ends, one request comes
to an exit and the others before it are answered. After every request that is answered the
interpreter is in the fatal mode again, and the next request fails with the signal exactly where it
divides an integer by zero, which its response reports. -/
theorem handleAll_never_aborts (p : Preparation) (requests : List Request) :
    let w : Worker Interpreter := { engine := {}, preparation := p }
    (w.handleAll requests).2 ≠ .error .aborted ∧
    (∀ ending, (w.handleAll requests).2 = .error ending →
      ∃ before request after last code, requests = before ++ request :: after ∧
        (w.handleAll before).2 = .ok last ∧ last.Exits request code ∧
        ending = .exited code) ∧
    ∀ last, (w.handleAll requests).2 = .ok last →
      last.engine.mode = .fatal ∧
      ∀ request,
        ((∃ output s, run (last.preparation.prepare request) last.engine =
          .ok ((output, some RunError.divisionByZero.raised), s)) ↔ last.DividesByZero request) ∧
        (last.DividesByZero request → ∃ response next,
          last.handle request = .ok (response, next) ∧
          response.fault = some ⟨.generic, "SIGFPE: integer division by zero".toList⟩) := by
  intro w
  have hending : ∀ ending, (w.handleAll requests).2 = .error ending →
      ∃ before request after last code, requests = before ++ request :: after ∧
        (w.handleAll before).2 = .ok last ∧ last.Exits request code ∧
        ending = .exited code := by
    intro ending h
    obtain ⟨before, request, after, last, rfl, hbefore, hlast⟩ := exists_of_handleAll_eq_error h
    obtain ⟨code, hexits, rfl⟩ := handle_ends_iff.mp hlast
    exact ⟨before, request, after, last, code, rfl, congrArg Prod.snd hbefore, hexits, rfl⟩
  refine ⟨?_, hending, ?_⟩
  · intro haborted
    obtain ⟨_, _, _, _, _, -, -, -, hexited⟩ := hending _ haborted
    cases hexited
  · intro last hlast
    refine ⟨?_, fun request => ⟨run_raises_signal_iff, handle_of_dividesByZero⟩⟩
    refine handleAll_preserves (P := fun w => w.engine.mode = .fatal) ?_ rfl hlast
    intro w request response w' hw h
    exact (mode_handle h).trans hw

end Literate.Worker

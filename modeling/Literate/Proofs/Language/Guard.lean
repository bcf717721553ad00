import Literate.Engine.Interpreter
import Literate.Proofs.Language.Failure
import Literate.Proofs.Language.Join

/-!
# What the guard changes

A block that runs with signals caught does what it does without, up to the first division of an
integer by zero: there it fails where it would take the process down. Two runs are followed side by
side, one in each mode. Evaluation passes every failure on as it is, so the two part only at the
signal.
-/

namespace Literate

/-- How one operation fails with signals fatal and with signals caught: in the same way, unless the
failure is the signal. -/
inductive Interrupt.Caught : Interrupt → Interrupt → Prop
  | error {e : RunError} (he : e ≠ .divisionByZero) : Caught (.error e) (.error e)
  | signal : Caught FaultMode.fatal.divisionByZero FaultMode.catchable.divisionByZero

/-- What comes of a step with signals fatal and with signals caught: the same value, or two
failures of which the second is the first one caught. -/
inductive Caught {α : Type} : Except Interrupt α → Except Interrupt α → Prop
  | ok (a : α) : Caught (.ok a) (.ok a)
  | error {i j : Interrupt} (h : i.Caught j) : Caught (.error i) (.error j)

namespace Caught

variable {α β : Type}

/-- Steps one after another part only where one of them does. -/
theorem bind {r r' : Except Interrupt α} {f f' : α → Except Interrupt β} (hr : Caught r r')
    (hf : ∀ a, Caught (f a) (f' a)) : Caught (r >>= f) (r' >>= f') := by
  cases hr with
  | ok a => exact hf a
  | error h => exact .error h

/-- A step that never raises the signal is the same in both modes. -/
theorem refl {r : Except Interrupt α}
    (h : ∀ i, r = .error i → ∃ e, i = .error e ∧ e ≠ .divisionByZero) : Caught r r := by
  cases r with
  | ok a => exact .ok a
  | error i =>
    obtain ⟨e, rfl, he⟩ := h i rfl
    exact .error (.error he)

/-- With signals caught no step ends the process. -/
theorem ne_ended {r r' : Except Interrupt α} (h : Caught r r') (ending : Ending) :
    r' ≠ .error (.ended ending) := by
  rintro rfl
  rcases h with _ | h
  cases h

/-- An operation on one value is the same in both modes. -/
theorem unary (op : UnaryOp) (v : Value) : Caught (op.apply v) (op.apply v) :=
  refl fun _ h => ⟨_, UnaryOp.apply_eq_error h, by simp⟩

/-- An operation on two values is the same in both modes but for the division by zero. -/
theorem binary (op : BinaryOp) (a b : Value) :
    Caught (op.apply .fatal a b) (op.apply .catchable a b) := by
  by_cases hzero : op.DividesByZero a b
  · rw [BinaryOp.apply_of_dividesByZero hzero, BinaryOp.apply_of_dividesByZero hzero]
    exact .error .signal
  · obtain ⟨hsame, herror⟩ := BinaryOp.apply_of_not_dividesByZero hzero .fatal .catchable
    rw [← hsame]
    exact refl fun i h => ⟨_, herror i h, by simp⟩

/-- A call is the same in both modes. -/
theorem call (name : Text) (vs : List Value) :
    Caught (Function.call name vs) (Function.call name vs) :=
  refl fun _ h => ⟨_, Function.call_eq_error h, by simp⟩

/-- A conversion is the same in both modes. -/
theorem convert (type : VarType) (v : Value) :
    Caught (Literate.convert type v) (Literate.convert type v) :=
  refl fun _ h => ⟨_, convert_eq_error h, by simp⟩

/-- Taking a value as an integer is the same in both modes. -/
theorem toInt64 (context : Text) (v : Value) : Caught (v.toInt64 context) (v.toInt64 context) :=
  refl fun _ h => ⟨_, Value.toInt64_eq_error h, by simp⟩

end Caught

namespace Expr

mutual

/-- An expression has the same value in both modes, or fails in both, and differs only at the
signal. -/
theorem caught_eval (store : Store) :
    (e : Expr) → Caught (e.eval .fatal store) (e.eval .catchable store)
  | .int n => by unfold Expr.eval; exact .ok _
  | .double x => by unfold Expr.eval; exact .ok _
  | .bool b => by unfold Expr.eval; exact .ok _
  | .str s => by unfold Expr.eval; exact .ok _
  | .var name => by
    unfold Expr.eval
    cases store.get? name with
    | some b => exact .ok _
    | none => exact .error (.error (by simp))
  | .unary op e => by
    unfold Expr.eval
    exact (caught_eval store e).bind fun v => .unary op v
  | .binary op l r => by
    have hl := caught_eval store l
    have hr := caught_eval store r
    cases op with
    | and =>
      unfold Expr.eval
      refine hl.bind fun a => ?_
      split
      · exact hr.bind fun b => .ok _
      · exact .ok _
    | or =>
      unfold Expr.eval
      refine hl.bind fun a => ?_
      split
      · exact .ok _
      · exact hr.bind fun b => .ok _
    | _ =>
      unfold Expr.eval
      exact hl.bind fun a => hr.bind fun b => .binary _ a b
  | .call name arguments => by
    unfold Expr.eval
    exact (caught_evalAll store arguments).bind fun vs => .call name vs

/-- Expressions in order have the same values in both modes, or fail in both. -/
theorem caught_evalAll (store : Store) :
    (es : List Expr) → Caught (evalAll .fatal store es) (evalAll .catchable store es)
  | [] => .ok _
  | e :: es => by
    unfold Expr.evalAll
    have hes := caught_evalAll store es
    exact (caught_eval store e).bind fun v => hes.bind fun vs => .ok _

end

end Expr

/-- An interpreter in another mode. -/
def Interpreter.inMode (mode : FaultMode) (s : Interpreter) : Interpreter :=
  { s with mode := mode }

/-- An interpreter with signals caught. -/
def Interpreter.catching (s : Interpreter) : Interpreter :=
  s.inMode .catchable

@[simp] theorem Interpreter.mode_catching (s : Interpreter) : s.catching.mode = .catchable := rfl

@[simp] theorem Interpreter.store_catching (s : Interpreter) : s.catching.store = s.store := rfl

/-- The mode that an interpreter was in can be restored. -/
theorem Interpreter.inMode_catching {s : Interpreter} {mode : FaultMode} (hs : s.mode = mode) :
    s.catching.inMode mode = s := by
  rw [← hs]
  rfl

namespace Machine

/-- A machine with signals caught. -/
def catching (m : Machine) : Machine :=
  { m with state := m.state.catching }

@[simp] theorem state_catching (m : Machine) : m.catching.state = m.state.catching := rfl

@[simp] theorem output_catching (m : Machine) : m.catching.output = m.output := rfl

private theorem catching_write (m : Machine) (stream : Stream) (t : Text) :
    (m.write stream t).catching = m.catching.write stream t := by
  cases stream <;> rfl

private theorem mode_write (m : Machine) (stream : Stream) (t : Text) :
    (m.write stream t).state.mode = m.state.mode := by
  cases stream <;> rfl

/-- The value of an expression in a machine, in both modes. -/
theorem caught_eval {m : Machine} (hm : m.state.mode = .fatal) (e : Expr) :
    Caught (m.eval e) (m.catching.eval e) := by
  unfold eval
  rw [hm]
  exact Expr.caught_eval m.state.store e

end Machine

/-- Goes on from what a step leaves, unless that has stopped. -/
def Machine.goOn (r : Machine × Option Interrupt) (next : Machine → Machine × Option Interrupt) :
    Machine × Option Interrupt :=
  match r with
  | (m, none) => next m
  | (m, some stop) => (m, some stop)

/-- Operands are written one after another, up to one that stops. -/
theorem Item.runAll_cons (stream : Stream) (m : Machine) (i : Item) (is : List Item) :
    runAll stream m (i :: is) = Machine.goOn (i.run stream m) fun m => runAll stream m is := rfl

/-- Statements run one after another, up to one that stops. -/
theorem Statement.runAll_cons (m : Machine) (s : Statement) (rest : List Statement) :
    runAll m (s :: rest) = Machine.goOn (s.run m) fun m => runAll m rest := rfl

/-- Where a run stops with signals fatal and with signals caught: nowhere, at a failure in both, or
where both end the process with the same code. -/
inductive StopCaught : Option Interrupt → Option Interrupt → Prop
  | none : StopCaught none none
  | failed {i j : Interrupt} (h : i.Caught j) : StopCaught (some i) (some j)
  | exited (code : Int32) :
      StopCaught (some (.ended (.exited code))) (some (.ended (.exited code)))

/-- What a run leaves with signals fatal and with signals caught: the same machine but for the
mode, stopped at the same place. -/
structure RunCaught (r r' : Machine × Option Interrupt) : Prop where
  fatal : r.1.state.mode = .fatal
  machine : r'.1 = r.1.catching
  stop : StopCaught r.2 r'.2

namespace RunCaught

variable {m : Machine}

private theorem go (hm : m.state.mode = .fatal) : RunCaught (m, none) (m.catching, none) :=
  ⟨hm, rfl, .none⟩

private theorem stopped (hm : m.state.mode = .fatal) {i j : Interrupt} (h : i.Caught j) :
    RunCaught (m, some i) (m.catching, some j) :=
  ⟨hm, rfl, .failed h⟩

/-- A step with its value goes on in both modes, or stops in both. -/
theorem andThen {α : Type} (hm : m.state.mode = .fatal) {r r' : Except Interrupt α}
    {next next' : α → Machine × Option Interrupt} (hr : Caught r r')
    (hn : ∀ a, RunCaught (next a) (next' a)) :
    RunCaught (m.andThen r next) (m.catching.andThen r' next') := by
  cases hr with
  | ok a => exact hn a
  | error h => exact stopped hm h

/-- Runs part only where one of the two steps does. -/
theorem goOn {r r' : Machine × Option Interrupt} {next : Machine → Machine × Option Interrupt}
    (hr : RunCaught r r')
    (hn : ∀ m, m.state.mode = .fatal → RunCaught (next m) (next m.catching)) :
    RunCaught (Machine.goOn r next) (Machine.goOn r' next) := by
  obtain ⟨m, stop⟩ := r
  obtain ⟨m', stop'⟩ := r'
  obtain ⟨hfatal, hmachine, hstop⟩ := hr
  obtain rfl : m' = m.catching := hmachine
  cases hstop with
  | none => exact hn m hfatal
  | failed h => exact ⟨hfatal, rfl, .failed h⟩
  | exited code => exact ⟨hfatal, rfl, .exited code⟩

end RunCaught

namespace Item

variable {m : Machine}

/-- An operand of a print statement is written alike in both modes. -/
theorem caught_run (hm : m.state.mode = .fatal) (stream : Stream) (i : Item) :
    RunCaught (i.run stream m) (i.run stream m.catching) := by
  cases i with
  | value e =>
    refine .andThen hm (m.caught_eval hm e) fun v => ?_
    have hwrite := RunCaught.go
      ((m.mode_write stream (v.render m.state.precision m.state.boolalpha)).trans hm)
    rwa [Machine.catching_write] at hwrite
  | endl =>
    have hwrite := RunCaught.go ((m.mode_write stream ['\n']).trans hm)
    rwa [Machine.catching_write] at hwrite
  | boolalpha on => exact RunCaught.go (m := m.setBoolalpha on) hm
  | precision e =>
    exact .andThen hm (m.caught_eval hm e) fun v => .andThen hm (.toInt64 _ v) fun n =>
      RunCaught.go (m := m.setPrecision (clampPrecision n)) hm

/-- So are all operands of a print statement. -/
theorem caught_runAll (hm : m.state.mode = .fatal) (stream : Stream) (is : List Item) :
    RunCaught (runAll stream m is) (runAll stream m.catching is) := by
  induction is generalizing m with
  | nil => exact .go hm
  | cons i is ih =>
    rw [runAll_cons, runAll_cons]
    exact (caught_run hm stream i).goOn fun m hm => ih hm

end Item

namespace Statement

variable {m : Machine}

/-- A statement does the same in both modes, and differs only where the signal stops it. -/
theorem caught_run (hm : m.state.mode = .fatal) (s : Statement) :
    RunCaught (s.run m) (s.run m.catching) := by
  cases s with
  | declare type name init =>
    cases init with
    | none => exact RunCaught.go (m := m.bind name (.ofDeclared type (.initial type))) hm
    | some e =>
      exact .andThen hm (m.caught_eval hm e) fun v => .andThen hm (.convert type v) fun v =>
        RunCaught.go (m := m.bind name (.ofDeclared type v)) hm
  | assign name op e =>
    refine .andThen hm (m.caught_eval hm e) fun v => ?_
    rw [Machine.state_catching, Interpreter.store_catching]
    cases m.state.store.get? name with
    | none => exact .stopped hm (.error (by simp))
    | some b =>
      refine .andThen hm ?_ fun v => .andThen hm (.convert b.type v) fun v =>
        RunCaught.go (m := m.bind name ⟨b.type, v⟩) hm
      cases op with
      | none => exact .ok v
      | some op =>
        simp only [hm, Interpreter.mode_catching]
        exact .binary op b.value v
  | print stream items => exact Item.caught_runAll hm stream items
  | throw type e =>
    rw [run, run]
    split
    · refine .andThen hm (m.caught_eval hm e) fun v => ?_
      cases v with
      | str what => exact .stopped hm (.error (by simp))
      | _ => exact .stopped hm (.error (by simp))
    · exact .stopped hm (.error (by simp))
  | exit e =>
    exact .andThen hm (m.caught_eval hm e) fun v => .andThen hm (.toInt64 _ v) fun n =>
      ⟨hm, rfl, .exited n.toInt32⟩
  | expr e => exact .andThen hm (m.caught_eval hm e) fun v => .go hm

/-- So are all statements of a block. -/
theorem caught_runAll (hm : m.state.mode = .fatal) (statements : List Statement) :
    RunCaught (runAll m statements) (runAll m.catching statements) := by
  induction statements generalizing m with
  | nil => exact .go hm
  | cons s rest ih =>
    rw [runAll_cons, runAll_cons]
    exact (caught_run hm s).goOn fun m hm => ih hm

end Statement

/-- Only the division of an integer by zero is reported as a signal. -/
theorem RunError.eq_of_raised_eq_signal {e : RunError} {message : Text}
    (h : e.raised = .signal message) : e = .divisionByZero := by
  cases e with
  | divisionByZero => rfl
  | _ => cases h

namespace Interpreter

/-- What comes of a block under guard: what comes of it with signals caught, and the mode is what
it was. -/
theorem guarded_eq (s : Interpreter) (block : Text) :
    Engine.guarded block s =
      (s.catching.execute block).map fun r => (r.1, r.2.inMode s.mode) := rfl

/-- Names are resolved and texts are read alike in both modes. -/
theorem check_catching (s : Interpreter) (block : Text) :
    s.catching.check block = s.check block := rfl

variable {s : Interpreter} {block : Text}

/-- A block that is refused is refused under guard, and nothing changes. -/
theorem guarded_of_check_error {e : BlockError} (h : s.check block = .error e) :
    Engine.guarded block s = .ok (.raised (.other e.message) {}, s) := by
  have hexecute := execute_of_check_error ((check_catching s block).trans h)
  rw [guarded_eq, hexecute]
  simp only [Except.map, inMode_catching]

/-- A block that starts to run under guard runs with signals caught, and the mode is what it was
unless the process ends. -/
theorem guarded_of_check {statements : List Statement} (h : s.check block = .ok statements) :
    let r := Statement.runAll ⟨s.catching, {}⟩ statements
    Engine.guarded block s =
      match r.2 with
      | none => .ok (.done r.1.output, r.1.state.inMode s.mode)
      | some (.error e) => .ok (.raised e.raised r.1.output, r.1.state.inMode s.mode)
      | some (.ended ending) => .error ending := by
  have hexecute := execute_of_check ((check_catching s block).trans h)
  rw [guarded_eq, hexecute]
  generalize Statement.runAll ⟨s.catching, {}⟩ statements = r
  rcases r with ⟨m, _ | e | ending⟩ <;> rfl

/-- What comes of a block with signals fatal and with signals caught: the same refusal, or runs that
leave the same machine but for the mode. -/
inductive Execution.Caught : Execution → Execution → Prop
  | rejected (e : BlockError) : Caught (.rejected e) (.rejected e)
  | ran {m : Machine} {stop stop' : Option Interrupt} (hm : m.state.mode = .fatal)
    (h : StopCaught stop stop') : Caught (.ran m stop) (.ran m.catching stop')

/-- A block that starts to run is run alike in both modes. -/
theorem run_caught (hs : s.mode = .fatal) (block : Text) :
    Execution.Caught (s.run block) (s.catching.run block) := by
  unfold run
  rw [check_catching]
  cases s.check block with
  | error e => exact .rejected e
  | ok statements =>
    obtain ⟨hfatal, hmachine, hstop⟩ := Statement.caught_runAll (m := ⟨s, {}⟩) hs statements
    have hran := Execution.Caught.ran hfatal hstop
    rwa [← hmachine] at hran

/-- The answers without the guard and under it: the process is aborted and the signal is the fault,
or both answer alike and no signal is raised. -/
theorem Execution.Caught.answer {x x' : Execution} (h : x.Caught x') (s : Interpreter)
    (hs : s.mode = .fatal) :
    let guarded := (x'.answer s.catching).map fun r => (r.1, r.2.inMode s.mode)
    (x.answer s = .error .aborted ∧
      ∃ message output after, guarded = .ok (.raised (.signal message) output, after)) ∨
    (x.answer s ≠ .error .aborted ∧ guarded = x.answer s ∧
      ∀ message output after, x.answer s ≠ .ok (.raised (.signal message) output, after)) := by
  rw [hs]
  cases h with
  | rejected e =>
    have hback := inMode_catching hs
    exact .inr ⟨by simp [Execution.answer], by simp [Execution.answer, Except.map, hback],
      by simp [Execution.answer]⟩
  | @ran m stop stop' hm hstop =>
    have hback := inMode_catching hm
    cases hstop with
    | none =>
      exact .inr ⟨by simp [Execution.answer], by simp [Execution.answer, Except.map, hback],
        by simp [Execution.answer]⟩
    | exited code =>
      exact .inr ⟨by simp [Execution.answer], rfl, by simp [Execution.answer]⟩
    | failed h =>
      cases h with
      | signal => exact .inl ⟨rfl, _, _, _, rfl⟩
      | @error e he =>
        refine .inr ⟨by simp [Execution.answer], by simp [Execution.answer, Except.map, hback], ?_⟩
        intro message output after h
        simp only [Execution.answer, Except.ok.injEq, Prod.mk.injEq, Answer.raised.injEq] at h
        exact he (RunError.eq_of_raised_eq_signal h.1.1)

/-- A block under guard does what it does without, except that the signal is caught: where it would
abort the process, and only there, a signal is its fault. Otherwise it answers alike, in the output
and in the state it leaves, or it ends the process with the same code, having written the same
and leaving the same. -/
theorem execute_guarded (s : Interpreter) (block : Text) (hs : s.mode = .fatal) :
    (s.execute block = .error .aborted ↔ ∃ message output after,
      Engine.guarded block s = .ok (.raised (.signal message) output, after)) ∧
    (s.execute block ≠ .error .aborted → Engine.guarded block s = s.execute block) ∧
    ∀ m code, s.run block = .ran m (some (.ended (.exited code))) →
      s.catching.run block = .ran m.catching (some (.ended (.exited code))) := by
  have hcaught := run_caught hs block
  refine ⟨?_, ?_, ?_⟩
  · rw [guarded_eq]
    rcases hcaught.answer s hs with ⟨haborted, hsignal⟩ | ⟨hne, hsame, hnone⟩
    · exact iff_of_true haborted hsignal
    · refine iff_of_false hne ?_
      rintro ⟨message, output, after, h⟩
      exact hnone message output after (hsame.symm.trans h)
  · intro hne
    rcases hcaught.answer s hs with ⟨haborted, -⟩ | ⟨-, hsame, -⟩
    · exact absurd haborted hne
    · exact hsame
  · intro m code h
    rw [h] at hcaught
    generalize s.catching.run block = x at hcaught ⊢
    cases hcaught with
    | ran hm hstop =>
      cases hstop with
      | exited => rfl
      | failed h => cases h

/-- A division by zero behind what is written aborts the process, and is a signal under guard. -/
theorem execute_guarded_division :
    ({} : Interpreter).mode = .fatal ∧
      ({} : Interpreter).execute "int z = 0; std::cout << 2 << 1 / z;".toList = .error .aborted ∧
      ∃ message output after,
        Engine.guarded "int z = 0; std::cout << 2 << 1 / z;".toList ({} : Interpreter) =
          .ok (.raised (.signal message) output, after) := by
  have hscan : Token.scan "int z = 0; std::cout << 2 << 1 / z;".toList =
      .ok [.name "int".toList, .name "z".toList, .sym .eq, .int 0, .sym .semi,
        .name "std::cout".toList, .sym .shl, .int 2, .sym .shl, .int 1, .sym .slash,
        .name "z".toList, .sym .semi] := by decide +kernel
  have hread : Statement.readAll [.name "int".toList, .name "z".toList, .sym .eq, .int 0,
        .sym .semi, .name "std::cout".toList, .sym .shl, .int 2, .sym .shl, .int 1, .sym .slash,
        .name "z".toList, .sym .semi] =
      .ok [.declare .int "z".toList (some (.int 0)),
        .print .out [.value (.int 2),
          .value (.binary .div (.int 1) (.var "z".toList))]] := rfl
  have hcheck : ({} : Interpreter).check _ = .ok _ := check_of_scan hscan hread rfl
  have haborted : ({} : Interpreter).execute _ = .error .aborted :=
    (execute_of_check hcheck).trans rfl
  exact ⟨rfl, haborted, (execute_guarded {} _ rfl).1.mp haborted⟩

end Interpreter

end Literate

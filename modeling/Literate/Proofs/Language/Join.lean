import Literate.Proofs.Language.LineLocal
import Literate.Proofs.Language.Readers
import Literate.Proofs.Language.Scope

/-!
# Blocks one after another

A block that runs to its end can be put in front of another, on lines of its own: the joined block
does what the two do one after another, and writes what they write. Every stage keeps to its part:
the lexer reads line by line, the parser ends a statement where it is complete, resolution starts
from the names that the first block leaves, and a run never looks at what has been written.
-/

namespace Literate

/-- What two calls wrote, without a separator. -/
instance : Append Captured where
  append a b := ⟨a.stdout ++ b.stdout, a.stderr ++ b.stderr⟩

namespace Captured

@[simp] theorem stdout_append (a b : Captured) : (a ++ b).stdout = a.stdout ++ b.stdout := rfl

@[simp] theorem stderr_append (a b : Captured) : (a ++ b).stderr = a.stderr ++ b.stderr := rfl

@[simp] theorem append_empty (a : Captured) : a ++ ({} : Captured) = a := by
  have hout : (a ++ ({} : Captured)).stdout = a.stdout := List.append_nil _
  have herr : (a ++ ({} : Captured)).stderr = a.stderr := List.append_nil _
  cases a
  exact congr (congrArg Captured.mk hout) herr

end Captured

namespace Machine

/-- A machine that has written more before. -/
def after (o : Captured) (m : Machine) : Machine :=
  { m with output := o ++ m.output }

/-- What a machine that has written more before comes to. -/
def resume (o : Captured) (r : Machine × Option Interrupt) : Machine × Option Interrupt :=
  (r.1.after o, r.2)

variable {o : Captured} {m : Machine}

@[simp] theorem state_after : (m.after o).state = m.state := rfl

private theorem write_after (stream : Stream) (t : Text) :
    (m.after o).write stream t = (m.write stream t).after o := by
  cases stream with
  | out =>
    simp only [write, after, Captured.stdout_append, List.append_assoc]
    rfl
  | err =>
    simp only [write, after, Captured.stderr_append, List.append_assoc]
    rfl

private theorem andThen_after {α : Type} (r : Except Interrupt α)
    {next next' : α → Machine × Option Interrupt} (h : ∀ a, next' a = resume o (next a)) :
    (m.after o).andThen r next' = resume o (m.andThen r next) := by
  cases r with
  | ok a => exact h a
  | error i => rfl

end Machine

namespace Item

variable {o : Captured} {m : Machine}

/-- An operand of a print statement is written behind whatever has been written. -/
theorem run_after (stream : Stream) (i : Item) :
    i.run stream (m.after o) = Machine.resume o (i.run stream m) := by
  cases i with
  | value e =>
    refine Machine.andThen_after _ fun v => ?_
    rw [Machine.write_after]
    rfl
  | endl =>
    rw [run, Machine.write_after]
    rfl
  | boolalpha on => rfl
  | precision e => exact Machine.andThen_after _ fun v => Machine.andThen_after _ fun n => rfl

/-- So are all operands of a print statement. -/
theorem runAll_after (stream : Stream) (is : List Item) :
    runAll stream (m.after o) is = Machine.resume o (runAll stream m is) := by
  induction is generalizing m with
  | nil => rfl
  | cons i is ih =>
    rw [runAll, runAll, run_after]
    rcases i.run stream m with ⟨m', _ | stop⟩
    · exact ih
    · rfl

end Item

namespace Statement

variable {o : Captured} {m : Machine}

/-- A statement does the same whatever has been written before it. -/
theorem run_after (s : Statement) : s.run (m.after o) = Machine.resume o (s.run m) := by
  cases s with
  | declare type name init =>
    cases init with
    | none => rfl
    | some e => exact Machine.andThen_after _ fun v => Machine.andThen_after _ fun v => rfl
  | assign name op e =>
    refine Machine.andThen_after _ fun v => ?_
    rw [Machine.state_after]
    cases m.state.store.get? name with
    | none => rfl
    | some b =>
      exact Machine.andThen_after _ fun v => Machine.andThen_after _ fun v => rfl
  | print stream items => exact Item.runAll_after stream items
  | throw type e =>
    rw [run, run]
    split
    · refine Machine.andThen_after _ fun v => ?_
      cases v <;> rfl
    · rfl
  | exit e => exact Machine.andThen_after _ fun v => Machine.andThen_after _ fun n => rfl
  | expr e => exact Machine.andThen_after _ fun v => rfl

/-- Statements run as they do after nothing has been written. -/
theorem runAll_after (statements : List Statement) :
    runAll (m.after o) statements = Machine.resume o (runAll m statements) := by
  induction statements generalizing m with
  | nil => rfl
  | cons s rest ih =>
    rw [runAll, runAll, run_after]
    rcases s.run m with ⟨m', _ | stop⟩
    · exact ih
    · rfl

/-- A text reads as statements if its tokens do. -/
theorem ofText_eq_ok {block : Text} {statements : List Statement} :
    ofText block = .ok statements ↔
      ∃ tokens, Token.scan block = .ok tokens ∧ readAll tokens = .ok statements := by
  unfold ofText
  cases Token.scan block with
  | error e => simp
  | ok tokens => cases h : readAll tokens <;> simp [h]

/-- The statements of two texts on lines of their own are those of the first and then those of the
second. -/
theorem ofText_append {a : Text} {statements : List Statement} (h : ofText a = .ok statements)
    (b : Text) :
    ofText (a ++ '\n' :: b) = (ofText b).map fun more => statements ++ more := by
  obtain ⟨tokens, ha, hs⟩ := ofText_eq_ok.mp h
  have hscan := Token.scan_append_newline a b
  rw [ha] at hscan
  unfold ofText
  cases hb : Token.scan b with
  | error e =>
    rw [hscan, hb]
    rfl
  | ok more =>
    have hread := readAll_append hs more
    rw [hscan, hb]
    simp only [Except.bind, Except.map, hread]
    cases readAll more <;> rfl

end Statement

/-- The answer of a call that has written more before. -/
def Answer.after (o : Captured) : Answer → Answer
  | done output => done (o ++ output)
  | raised fault output => raised fault (o ++ output)
  | panicked words => panicked words

namespace Interpreter

variable {state after : Interpreter} {a : Text} {o : Captured}

/-- A block is accepted where its tokens read as statements whose names can be resolved. -/
theorem check_of_scan {block : Text} {tokens : List Token} {statements : List Statement}
    {known : Known} (hscan : Token.scan block = .ok tokens)
    (hread : Statement.readAll tokens = .ok statements)
    (hresolve : Statement.resolveAll state.store.declares statements = .ok known) :
    state.check block = .ok statements :=
  check_eq_ok.mpr ⟨Statement.ofText_eq_ok.mpr ⟨tokens, hscan, hread⟩, known, hresolve⟩

/-- A block that is done has run to its end. -/
theorem execute_eq_done (h : state.execute a = .ok (.done o, after)) :
    ∃ statements, state.check a = .ok statements ∧
      Statement.runAll ⟨state, {}⟩ statements = (⟨after, o⟩, none) := by
  cases hcheck : state.check a with
  | error e =>
    rw [execute_of_check_error hcheck] at h
    cases h
  | ok statements =>
    refine ⟨statements, rfl, ?_⟩
    rw [execute_of_check hcheck] at h
    generalize Statement.runAll ⟨state, {}⟩ statements = r at h ⊢
    rcases r with ⟨m, _ | e | ending⟩
    · cases h
      rfl
    · cases h
    · cases h

/-- The joined block is checked like the second one in the state that the first one leaves. -/
theorem check_append {statements : List Statement} (hcheck : state.check a = .ok statements)
    (hrun : Statement.runAll ⟨state, {}⟩ statements = (⟨after, o⟩, none)) (b : Text) :
    state.check (a ++ '\n' :: b) = (after.check b).map fun more => statements ++ more := by
  obtain ⟨htext, known, hknown⟩ := check_eq_ok.mp hcheck
  have hdeclares : after.store.declares = known := Statement.declares_runAll hknown hrun
  have hjoined := Statement.ofText_append htext b
  unfold check
  cases hb : Statement.ofText b with
  | error e =>
    rw [hjoined, hb]
    rfl
  | ok more =>
    have hresolve : Statement.resolveAll state.store.declares (statements ++ more) =
        Statement.resolveAll after.store.declares more := by
      rw [Statement.resolveAll_append, hknown, hdeclares]
      rfl
    rw [hjoined, hb]
    simp only [Except.map, hresolve]
    cases Statement.resolveAll after.store.declares more <;> rfl

/-- What follows a block that ran to its end does what it does alone, and writes after it. -/
theorem answer_resume (o : Captured) (r : Machine × Option Interrupt) (s s' : Interpreter) :
    (Execution.ran (Machine.resume o r).1 (Machine.resume o r).2).answer s =
      ((Execution.ran r.1 r.2).answer s').map fun x => (x.1.after o, x.2) := by
  rcases r with ⟨m, _ | e | ending⟩ <;> rfl

/-- A block that is done, joined with another: the joined block is refused where the second one is,
and then writes and changes nothing; or it does what the second one does in the state that the
first one leaves, and writes what the two write one after the other. -/
theorem execute_joined (h : state.execute a = .ok (.done o, after)) (b : Text) :
    (∀ e, after.check b = .error e →
      state.check (a ++ '\n' :: b) = .error e ∧
      after.execute b = .ok (.raised (.other e.message) {}, after) ∧
      state.execute (a ++ '\n' :: b) = .ok (.raised (.other e.message) {}, state)) ∧
    (∀ statements, after.check b = .ok statements →
      state.execute (a ++ '\n' :: b) =
        (after.execute b).map fun r => (r.1.after o, r.2)) := by
  obtain ⟨first, hcheck, hrun⟩ := execute_eq_done h
  have hjoined := check_append hcheck hrun b
  constructor
  · intro e he
    rw [he] at hjoined
    exact ⟨hjoined, execute_of_check_error he, execute_of_check_error hjoined⟩
  · intro second hs
    rw [hs] at hjoined
    have hmachine : (⟨after, o⟩ : Machine) = (⟨after, {}⟩ : Machine).after o := by
      rw [Machine.after, Captured.append_empty]
    have hrunAll : Statement.runAll ⟨state, {}⟩ (first ++ second) =
        Machine.resume o (Statement.runAll ⟨after, {}⟩ second) := by
      rw [Statement.runAll_append, hrun, ← Statement.runAll_after, ← hmachine]
    rw [execute_of_check hjoined, execute_of_check hs, hrunAll]
    exact answer_resume o _ state after

/-- A block that writes a digit, joined with itself, writes it twice. -/
theorem execute_joined_print :
    ({} : Interpreter).execute "std::cout << 1; // one".toList =
        .ok (.done ⟨"1".toList, []⟩, {}) ∧
      ({} : Interpreter).execute
          ("std::cout << 1; // one".toList ++ '\n' :: "std::cout << 1; // one".toList) =
        .ok (.done ⟨"11".toList, []⟩, {}) := by
  have hscan : Token.scan "std::cout << 1; // one".toList =
      .ok [.name "std::cout".toList, .sym .shl, .int 1, .sym .semi] := by decide +kernel
  have hread : Statement.readAll [.name "std::cout".toList, .sym .shl, .int 1, .sym .semi] =
      .ok [.print .out [.value (.int 1)]] := rfl
  have hcheck : ({} : Interpreter).check _ = .ok _ := check_of_scan hscan hread rfl
  have hone : ({} : Interpreter).execute "std::cout << 1; // one".toList =
      .ok (.done ⟨"1".toList, []⟩, {}) := (execute_of_check hcheck).trans rfl
  refine ⟨hone, ?_⟩
  rw [(execute_joined hone _).2 _ hcheck, hone]
  rfl

end Interpreter

end Literate

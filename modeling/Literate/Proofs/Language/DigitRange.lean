import Literate.Proofs.Language.ConfiguredDigits
import Literate.Proofs.Number.WordArithmetic

/-!
# The range of digits

A fresh interpreter writes six digits. Code that asks for a negative number of them gets six again,
and code that asks for more than the largest number gets the largest. So whatever is called, no
machine writes more digits than that, and for as many the arithmetic of a double's text fits 32-bit
words.
-/

namespace Literate

/-- A precision is set no higher than the greatest one. -/
theorem clampPrecision_le (n : Int64) : clampPrecision n ≤ maxPrecision := by
  rw [clampPrecision]
  split
  · decide
  · exact Nat.min_le_right _ _

section

variable {m : Machine} (hm : m.state.precision ≤ maxPrecision)

include hm

private theorem Item.precision_run_le (stream : Stream) (i : Item) :
    (i.run stream m).1.state.precision ≤ maxPrecision := by
  cases i with
  | precision e =>
    apply Machine.andThen_preserves (P := fun m => m.state.precision ≤ maxPrecision) hm
    intro v
    apply Machine.andThen_preserves (P := fun m => m.state.precision ≤ maxPrecision) hm
    exact clampPrecision_le
  | value e => exact (precision_run stream m (i := .value e) rfl).trans_le hm
  | endl => exact (precision_run stream m (i := .endl) rfl).trans_le hm
  | boolalpha on => exact hm

private theorem Item.precision_runAll_le (stream : Stream) (is : List Item) :
    (runAll stream m is).1.state.precision ≤ maxPrecision :=
  runAll_preserves (P := fun m => m.state.precision ≤ maxPrecision)
    (fun i _ _ hm => precision_run_le hm stream i) hm

private theorem Statement.precision_run_le (s : Statement) :
    (s.run m).1.state.precision ≤ maxPrecision := by
  cases s with
  | print stream items => exact Item.precision_runAll_le hm stream items
  | declare | assign | throw | exit | expr => exact (precision_run m rfl).trans_le hm

/-- Statements leave the precision within its bound, however far they run. -/
theorem Statement.precision_runAll_le (statements : List Statement) :
    (runAll m statements).1.state.precision ≤ maxPrecision :=
  runAll_preserves (P := fun m => m.state.precision ≤ maxPrecision)
    (fun s _ _ hm => precision_run_le hm s) hm

end

namespace Interpreter

variable {s s' : Interpreter}

/-- Every step leaves the precision within its bound. -/
theorem precision_le_step (hs : s.precision ≤ maxPrecision) (h : Engine.Step s s') :
    s'.precision ≤ maxPrecision := by
  rcases step_cases h with ⟨mode, rfl⟩ | ⟨mode, mode', block, statements, -, rfl⟩
  · exact hs
  · exact Statement.precision_runAll_le (m := ⟨s.inMode mode, {}⟩) hs statements

/-- In every state that is reached the precision is within its bound. -/
theorem precision_le_of_steps (h : Engine.Steps ({} : Interpreter) s) :
    s.precision ≤ maxPrecision := by
  induction h with
  | refl => decide
  | tail _ hstep ih => exact precision_le_step ih hstep

/-- After any calls no more than 1024 digits are written, not even in the middle of a block, behind
some statements and some operands of a print statement. With so many digits or fewer, no step of the
arithmetic in words fails for a finite double other than zero. -/
theorem formatting_fits_words (h : Engine.Steps ({} : Interpreter) s) :
    s.precision ≤ 1024 ∧
    (∀ statements stream items,
      (Item.runAll stream (Statement.runAll ⟨s, {}⟩ statements).1 items).1.state.precision ≤ 1024) ∧
    ∀ (p : Nat) (x : Double), p ≤ 1024 → x.isNaN = false → x.isInfinite = false →
      x.isZero = false → General.writeInWords x p = .ok (General.write x p) := by
  have hs := precision_le_of_steps h
  refine ⟨hs, fun statements stream items => ?_, fun p x hp hnan hinf hzero => ?_⟩
  · have hm := Statement.precision_runAll_le (m := ⟨s, {}⟩) hs statements
    exact Item.precision_runAll_le hm stream items
  · exact General.writeInWords_eq (hp.trans_lt (by norm_num)) hnan hinf hzero

/-- A block asks for too many digits. The least double is written with the most, and a double that
rounds up to a power of ten with six. -/
theorem formatting_fits_words_largest :
    let least : Double := ⟨1⟩
    let carry : Double := ⟨0x412E847F66666666⟩
    ∃ s : Interpreter, Engine.Steps ({} : Interpreter) s ∧ s.precision = 1024 ∧
      General.writeInWords least s.precision = .ok (General.write least s.precision) ∧
      General.writeInWords carry 6 = .ok "1e+06".toList := by
  intro least carry
  have hscan : Token.scan "std::cout << std::setprecision(4096);".toList =
      .ok [.name "std::cout".toList, .sym .shl, .name "std::setprecision".toList, .sym .lparen,
        .int 4096, .sym .rparen, .sym .semi] := by decide +kernel
  have hcheck : ({} : Interpreter).check _ = .ok [.print .out [.precision (.int 4096)]] :=
    check_of_scan hscan rfl rfl
  have hsteps : Engine.Steps ({} : Interpreter) _ := .single (.execute (execute_of_check hcheck))
  have hcarry : General.write carry 6 = "1e+06".toList := by decide +kernel
  obtain ⟨hle, -, hwords⟩ := formatting_fits_words hsteps
  refine ⟨_, hsteps, rfl, ?_, ?_⟩
  · exact hwords _ least hle (by decide) (by decide) (by decide)
  · rw [← hcarry]
    exact hwords 6 carry (by decide) (by decide) (by decide) (by decide)

end Interpreter

end Literate

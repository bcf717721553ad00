import Literate.Language.Run

/-!
# How operations fail

Each operation on values has one way to fail, which tells of the values it was given. Only the
division of an integer by zero depends on the mode: there it raises the signal, and nothing else
does.
-/

namespace Literate

namespace FaultMode

/-- The signal is an error only where it is caught. -/
@[simp] theorem error_eq_divisionByZero_iff {e : RunError} {mode : FaultMode} :
    Interrupt.error e = mode.divisionByZero ↔ e = .divisionByZero ∧ mode = catchable := by
  cases mode with
  | fatal => simp [divisionByZero]
  | catchable => simp [divisionByZero]

@[simp] theorem exited_ne_divisionByZero (code : Int32) (mode : FaultMode) :
    Interrupt.ended (.exited code) ≠ mode.divisionByZero := by
  cases mode with
  | fatal => simp [divisionByZero]
  | catchable => simp [divisionByZero]

end FaultMode

namespace BinaryOp

/-- Whether an operator divides an integer by zero, for its quotient or for its remainder. -/
def DividesByZero (op : BinaryOp) (left right : Value) : Prop :=
  (op = div ∨ op = rem) ∧ (∃ n, left.number? = some (.int n)) ∧ right.number? = some (.int 0)

variable {op : BinaryOp} {a b : Value}

/-- The division of an integer by zero is the signal, in the mode that it is made in. -/
theorem apply_of_dividesByZero (h : op.DividesByZero a b) (mode : FaultMode) :
    op.apply mode a b = .error mode.divisionByZero := by
  obtain ⟨hop, ⟨n, ha⟩, hb⟩ := h
  rcases hop with rfl | rfl
  · simp [apply, ha, hb, onInts]
  · simp [apply, ha, hb, onInts]

/-- Every other operation is the same in all modes, and fails for its operands or not at all. -/
theorem apply_of_not_dividesByZero (h : ¬op.DividesByZero a b) (mode mode' : FaultMode) :
    op.apply mode a b = op.apply mode' a b ∧
      ∀ i, op.apply mode a b = .error i → i = .error (.badOperands a.typeName b.typeName) := by
  unfold apply
  split
  · next x y ha hb =>
    have hzero : op = div ∨ op = rem → y ≠ 0 := by
      rintro hop rfl
      exact h ⟨hop, ⟨x, ha⟩, hb⟩
    cases op with
    | div => simp [onInts, hzero (.inl rfl)]
    | rem => simp [onInts, hzero (.inr rfl)]
    | _ => simp [onInts]
  · split
    · simp
    · simp [eq_comm]
  · simp [eq_comm]

/-- An operation raises the signal exactly where it divides an integer by zero. -/
theorem apply_eq_divisionByZero_iff {mode : FaultMode} :
    op.apply mode a b = .error mode.divisionByZero ↔ op.DividesByZero a b := by
  refine ⟨fun happly => ?_, fun h => apply_of_dividesByZero h mode⟩
  by_cases hzero : op.DividesByZero a b
  · exact hzero
  · have hsignal := (apply_of_not_dividesByZero hzero mode mode).2 _ happly
    exact absurd hsignal.symm (by simp)

end BinaryOp

/-- An operation on one value fails only for the type of its operand. -/
theorem UnaryOp.apply_eq_error {op : UnaryOp} {v : Value} {i : Interrupt}
    (h : op.apply v = .error i) : i = .error (.badOperand v.typeName) := by
  unfold apply at h
  split at h
  · cases h
  · cases h
  · cases h
  · exact (Except.error.inj h).symm

/-- A call fails only for want of the function. -/
theorem Function.call_eq_error {name : Text} {vs : List Value} {i : Interrupt}
    (h : call name vs = .error i) : i = .error (.noFunction name) := by
  unfold call at h
  split at h
  · cases h
  · exact (Except.error.inj h).symm

/-- A conversion fails only for the types. -/
theorem convert_eq_error {type : VarType} {v : Value} {i : Interrupt}
    (h : convert type v = .error i) : i = .error (.badInit type v.typeName) := by
  unfold convert at h
  split at h
  · cases h
  · exact (Except.error.inj h).symm

/-- Taking a value as an integer fails only for want of a function that does. -/
theorem Value.toInt64_eq_error {context : Text} {v : Value} {i : Interrupt}
    (h : v.toInt64 context = .error i) : i = .error (.noFunction context) := by
  unfold toInt64 at h
  split at h
  · cases h
  · exact (Except.error.inj h).symm

end Literate

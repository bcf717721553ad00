import Mathlib.Data.Int.ModEq
import Literate.Proofs.Language.Typing

/-!
# Integer arithmetic is exact modulo 2 ^ 64

An expression of sums, differences, products and negations has an exact value over all integers.
Each operation wraps around at 64 bits. Taking an integer modulo `2 ^ 64` commutes with all of them,
so the expression has its exact value, wrapped around once. A quotient is cut off after the point,
which fits but for the least integer divided by minus one.
-/

namespace Literate

namespace Expr

/-- Expressions of integer arithmetic and their exact values: integers, truth values, which are one
and zero, variables that hold either, and what negation, addition, subtraction and multiplication
make of such expressions. -/
inductive Exact (store : Store) : Expr → Int → Prop
  | int (n : Int64) : Exact store (.int n) n.toInt
  | bool (b : Bool) : Exact store (.bool b) b.toInt
  | intVar {name : Text} {b : Binding} {n : Int64} (hb : store.get? name = some b)
      (hn : b.value = .int n) : Exact store (.var name) n.toInt
  | boolVar {name : Text} {b : Binding} {truth : Bool} (hb : store.get? name = some b)
      (htruth : b.value = .bool truth) : Exact store (.var name) truth.toInt
  | neg {e : Expr} {a : Int} (he : Exact store e a) : Exact store (.unary .neg e) (-a)
  | add {l r : Expr} {a b : Int} (hl : Exact store l a) (hr : Exact store r b) :
      Exact store (.binary .add l r) (a + b)
  | sub {l r : Expr} {a b : Int} (hl : Exact store l a) (hr : Exact store r b) :
      Exact store (.binary .sub l r) (a - b)
  | mul {l r : Expr} {a b : Int} (hl : Exact store l a) (hr : Exact store r b) :
      Exact store (.binary .mul l r) (a * b)

/-- Whether an expression is an operator with its operands. -/
def IsOperation : Expr → Prop
  | unary _ _ | binary _ _ _ => True
  | _ => False

end Expr

/-- A truth value counts as one or zero. -/
theorem Value.number?_bool (b : Bool) : (bool b).number? = some (.int (.ofInt b.toInt)) := by
  cases b <;> rfl

/-- Values that count as integers are combined as integers. -/
theorem BinaryOp.apply_of_ints {v w : Value} {a b : Int64} (hv : v.number? = some (.int a))
    (hw : w.number? = some (.int b)) (mode : FaultMode) (op : BinaryOp) :
    op.apply mode v w = op.onInts mode a b := by
  simp only [apply, hv, hw]

/-- The quotient of two integers is cut off after the point, and wraps around only where the least
integer is divided by minus one. -/
theorem toInt_div_of_fits {a b : Int64} (h : ¬(a = Int64.minValue ∧ b = -1)) :
    (a / b).toInt = a.toInt.tdiv b.toInt := by
  by_cases ha : a = Int64.minValue
  · exact Int64.toInt_div_of_ne_right a b fun hb => h ⟨ha, hb⟩
  · exact Int64.toInt_div_of_ne_left a b ha

/-- Quotient and remainder give the dividend back modulo `2 ^ 64`. -/
theorem div_mul_add_mod_modEq (a b : Int64) :
    a.toInt ≡ (a / b).toInt * b.toInt + (a % b).toInt [ZMOD 2 ^ 64] := by
  have hwrapped : (a / b).toInt ≡ a.toInt.tdiv b.toInt [ZMOD 2 ^ 64] := by
    rw [Int64.toInt_div]
    exact Int.bmod_emod
  have hdivision : a.toInt.tdiv b.toInt * b.toInt + a.toInt.tmod b.toInt = a.toInt := by
    rw [Int.mul_comm]
    exact Int.mul_tdiv_add_tmod a.toInt b.toInt
  have hsum := (hwrapped.mul_right b.toInt).add_right (a.toInt.tmod b.toInt)
  rw [hdivision] at hsum
  rw [Int64.toInt_mod]
  exact hsum.symm

namespace Expr

variable {store : Store} {mode : FaultMode} {l r e : Expr} {v w : Value} {a b : Int64}

/-- A binary operator other than the logical ones has two integers for its operands. -/
theorem eval_binary_of_ints (hl : l.eval mode store = .ok v) (hr : r.eval mode store = .ok w)
    (hv : v.number? = some (.int a)) (hw : w.number? = some (.int b)) {op : BinaryOp}
    (hand : op ≠ .and) (hor : op ≠ .or) :
    (binary op l r).eval mode store = op.onInts mode a b := by
  rw [← BinaryOp.apply_of_ints hv hw]
  cases op <;> simp_all [eval, bind, Except.bind]

/-- An expression that has an integer of any size, wrapped around, for its value. A value that comes
of no operation may be a truth value that counts as the integer. -/
def Wraps (mode : FaultMode) (store : Store) (e : Expr) (x : Int) : Prop :=
  ∃ v, e.eval mode store = .ok v ∧ v.number? = some (.int (.ofInt x)) ∧
    (e.IsOperation → v = .int (.ofInt x))

/-- An operation that wrapping around commutes with has its exact result wrapped around. -/
theorem Wraps.binary {x y z : Int} (hl : l.Wraps mode store x) (hr : r.Wraps mode store y)
    {op : BinaryOp} (hand : op ≠ .and) (hor : op ≠ .or)
    (hop : op.onInts mode (.ofInt x) (.ofInt y) = .ok (.int (.ofInt z))) :
    (binary op l r).Wraps mode store z := by
  obtain ⟨v, hv, hx, -⟩ := hl
  obtain ⟨w, hw, hy, -⟩ := hr
  exact ⟨_, (eval_binary_of_ints hv hw hx hy hand hor).trans hop, rfl, fun _ => rfl⟩

/-- An expression of integer arithmetic has its exact value wrapped around. -/
theorem Exact.wraps {x : Int} (h : Exact store e x) (mode : FaultMode) : e.Wraps mode store x := by
  induction h with
  | int n => exact ⟨.int n, by rw [eval], by rw [Int64.ofInt_toInt]; rfl, False.elim⟩
  | bool b => exact ⟨.bool b, by rw [eval], Value.number?_bool b, False.elim⟩
  | @intVar name b n hb hn =>
    refine ⟨.int n, ?_, by rw [Int64.ofInt_toInt]; rfl, False.elim⟩
    simp only [eval, hb, hn]
  | @boolVar name b truth hb htruth =>
    refine ⟨.bool truth, ?_, Value.number?_bool truth, False.elim⟩
    simp only [eval, hb, htruth]
  | @neg e x he ih =>
    obtain ⟨v, hv, hx, -⟩ := ih
    refine ⟨.int (.ofInt (-x)), ?_, rfl, fun _ => rfl⟩
    simp [eval, hv, bind, Except.bind, UnaryOp.apply, hx, Int64.ofInt_neg]
  | @add l r x y hl hr ihl ihr =>
    exact ihl.binary ihr (by decide) (by decide) (by rw [Int64.ofInt_add]; rfl)
  | @sub l r x y hl hr ihl ihr =>
    exact ihl.binary ihr (by decide) (by decide) (by rw [Int64.ofInt_sub]; rfl)
  | @mul l r x y hl hr ihl ihr =>
    exact ihl.binary ihr (by decide) (by decide) (by rw [Int64.ofInt_mul]; rfl)

end Expr

namespace Interpreter

variable {s : Interpreter}

/-- In every state that is reached the variables hold values of their types. -/
theorem wellTyped_of_steps (h : Engine.Steps ({} : Interpreter) s) : s.store.WellTyped := by
  induction h with
  | refl => exact Store.wellTyped_empty
  | tail _ hstep ih => exact wellTyped_step ih hstep

/-- A variable of type `int` or `bool` is an expression of integer arithmetic, in every state that
calls lead to. -/
theorem exists_exact_var (h : Engine.Steps ({} : Interpreter) s) {name : Text} {b : Binding}
    (hb : s.store.get? name = some b) (htype : b.type = .int ∨ b.type = .bool) :
    ∃ x, Expr.Exact s.store (.var name) x := by
  have hvalue := wellTyped_of_steps h name b hb
  unfold Binding.WellTyped at hvalue
  rcases htype with htype | htype
  · rw [htype] at hvalue
    generalize hv : b.value = v at hvalue
    cases hvalue with
    | int n => exact ⟨_, .intVar hb hv⟩
  · rw [htype] at hvalue
    generalize hv : b.value = v at hvalue
    cases hvalue with
    | bool truth => exact ⟨_, .boolVar hb hv⟩

/-- An expression of integer arithmetic with at least one operator has an integer for its value,
which is its exact value taken modulo `2 ^ 64` into the signed range. A division by an integer other
than zero does not fail, whatever the mode: its quotient and remainder give the dividend back modulo
`2 ^ 64`, and they are those of the division that cuts off after the point, but for the least
integer divided by minus one, which gives itself and no remainder. -/
theorem arithmetic_exact (s : Interpreter) :
    (∀ e x, Expr.Exact s.store e x → e.IsOperation →
      ∃ n : Int64, e.eval s.mode s.store = .ok (.int n) ∧ n.toInt = x.bmod (2 ^ 64)) ∧
    (Engine.Steps ({} : Interpreter) s → ∀ name b, s.store.get? name = some b →
      b.type = .int ∨ b.type = .bool → ∃ x, Expr.Exact s.store (.var name) x) ∧
    ∀ l r v w a b, l.eval s.mode s.store = .ok v → r.eval s.mode s.store = .ok w →
      v.number? = some (.int a) → w.number? = some (.int b) → b ≠ 0 →
      ∃ q m : Int64, (Expr.binary .div l r).eval s.mode s.store = .ok (.int q) ∧
        (Expr.binary .rem l r).eval s.mode s.store = .ok (.int m) ∧
        a.toInt ≡ q.toInt * b.toInt + m.toInt [ZMOD 2 ^ 64] ∧
        if a = Int64.minValue ∧ b = -1 then q = Int64.minValue ∧ m = 0
        else q.toInt = a.toInt.tdiv b.toInt ∧ m.toInt = a.toInt.tmod b.toInt := by
  refine ⟨fun e x h hoperation => ?_, fun h name b => exists_exact_var h, ?_⟩
  · obtain ⟨v, hv, -, hint⟩ := h.wraps s.mode
    exact ⟨.ofInt x, hv.trans (congrArg Except.ok (hint hoperation)), Int64.toInt_ofInt⟩
  · intro l r v w a b hv hw ha hb hzero
    have hdiv : (Expr.binary .div l r).eval s.mode s.store = .ok (.int (a / b)) :=
      (Expr.eval_binary_of_ints hv hw ha hb (by decide) (by decide)).trans (if_neg hzero)
    have hrem : (Expr.binary .rem l r).eval s.mode s.store = .ok (.int (a % b)) :=
      (Expr.eval_binary_of_ints hv hw ha hb (by decide) (by decide)).trans (if_neg hzero)
    refine ⟨a / b, a % b, hdiv, hrem, div_mul_add_mod_modEq a b, ?_⟩
    split
    · next h =>
      rw [h.1, h.2]
      decide
    · next h => exact ⟨toInt_div_of_fits h, Int64.toInt_mod a b⟩

/-- A product far out of range, and the quotient that does not fit, after two declarations. -/
theorem arithmetic_exact_wrapped :
    let n : Expr := .var "n".toList
    let b : Expr := .var "b".toList
    let least : Expr := .binary .sub (.unary .neg n) b
    ∃ s : Interpreter, Engine.Steps ({} : Interpreter) s ∧
      (∃ x, Expr.Exact s.store n x) ∧ (∃ x, Expr.Exact s.store b x) ∧
      Expr.Exact s.store (.binary .add (.binary .mul n n) b)
        (9223372036854775807 * 9223372036854775807 + 1) ∧
      (∃ m : Int64, (Expr.binary .add (.binary .mul n n) b).eval s.mode s.store = .ok (.int m) ∧
        m.toInt = 2) ∧
      least.eval s.mode s.store = .ok (.int Int64.minValue) ∧
      (Expr.unary .neg b).eval s.mode s.store = .ok (.int (-1)) ∧
      ∃ q m : Int64, (Expr.binary .div least (.unary .neg b)).eval s.mode s.store = .ok (.int q) ∧
        (Expr.binary .rem least (.unary .neg b)).eval s.mode s.store = .ok (.int m) ∧
        q = Int64.minValue ∧ m = 0 := by
  intro n b least
  have hscan : Token.scan "int n = 9223372036854775807; bool b = 7;".toList =
      .ok [.name "int".toList, .name "n".toList, .sym .eq, .int 9223372036854775807, .sym .semi,
        .name "bool".toList, .name "b".toList, .sym .eq, .int 7, .sym .semi] := by decide +kernel
  have hcheck : ({} : Interpreter).check _ =
      .ok [.declare .int "n".toList (some (.int 9223372036854775807)),
        .declare .bool "b".toList (some (.int 7))] := check_of_scan hscan rfl rfl
  obtain ⟨s, hsteps, hn, hb⟩ : ∃ s : Interpreter, Engine.Steps ({} : Interpreter) s ∧
      s.store.get? "n".toList = some ⟨.int, .int 9223372036854775807⟩ ∧
      s.store.get? "b".toList = some ⟨.bool, .bool true⟩ :=
    ⟨_, .single (.execute (execute_of_check hcheck)), rfl, rfl⟩
  obtain ⟨hexact, hvar, hdivision⟩ := arithmetic_exact s
  have hn' : Expr.Exact s.store n 9223372036854775807 := .intVar hn rfl
  have hb' : Expr.Exact s.store b 1 := .boolVar hb rfl
  obtain ⟨sum, hsum, hsum'⟩ := hexact _ _ (.add (.mul hn' hn') hb') trivial
  obtain ⟨dividend, hdividend, hleast⟩ := hexact _ _ (.sub (.neg hn') hb') trivial
  obtain ⟨divisor, hdivisor, hminus⟩ := hexact _ _ (.neg hb') trivial
  obtain rfl : dividend = Int64.minValue := Int64.toInt_inj.mp (hleast.trans (by decide))
  obtain rfl : divisor = -1 := Int64.toInt_inj.mp (hminus.trans (by decide))
  obtain ⟨q, m, hquotient, hrest, -, hwrapped⟩ :=
    hdivision _ _ _ _ _ _ hdividend hdivisor rfl rfl (by decide)
  rw [if_pos ⟨rfl, rfl⟩] at hwrapped
  exact ⟨s, hsteps, hvar hsteps _ _ hn (.inl rfl), hvar hsteps _ _ hb (.inr rfl),
    .add (.mul hn' hn') hb', ⟨sum, hsum, hsum'.trans (by decide)⟩, hdividend, hdivisor, q, m,
    hquotient, hrest, hwrapped⟩

end Interpreter

end Literate

import Literate.Proofs.Language.Independence
import Literate.Proofs.Language.NumberFormat

/-!
# The configured number of digits

The number of digits that blocks are prepared with goes through a text, an integer literal and a
bound before it is the number of digits that doubles are written with. Up to the largest literal it
arrives, cut off at the number past which more digits write nothing, and it stays until the code
sets another. A larger number is refused as a literal, and so is every block.
-/

namespace Literate

/-- A double is written with at least one digit. -/
theorem General.write_max_one (x : Double) (digits : Nat) :
    write x (max 1 digits) = write x digits := by
  simp only [write, Nat.max_comm 1 digits, Nat.max_assoc, Nat.max_self]

/-- A number of digits that is an integer literal is bounded from above only. -/
theorem clampPrecision_ofNat {n : Nat} (h : n < Nat.pow 2 63) :
    clampPrecision (Int64.ofNat n) = min n 1024 := by
  have hvalue : (Int64.ofNat n).toInt = n := Int64.toInt_ofNat_of_lt h
  have hnonneg : ¬Int64.ofNat n < 0 := by
    rw [Int64.lt_iff_toInt_lt, hvalue]
    exact Int.not_lt.mpr (Int.natCast_nonneg n)
  rw [clampPrecision, if_neg hnonneg, hvalue]
  rfl

namespace Item

/-- Whether an operand of a print statement sets the number of digits. -/
def setsPrecision : Item → Bool
  | precision _ => true
  | value _ | endl | boolalpha _ => false

/-- An operand that sets no precision leaves it as it is. -/
theorem precision_run (stream : Stream) (m : Machine) {i : Item} (h : i.setsPrecision = false) :
    (i.run stream m).1.state.precision = m.state.precision := by
  cases i with
  | value e => exact congrArg Prod.fst (settings_run stream m (i := .value e) rfl)
  | endl => exact congrArg Prod.fst (settings_run stream m (i := .endl) rfl)
  | boolalpha on => rfl
  | precision e => cases h

private theorem precision_runAll (stream : Stream) (m : Machine) {is : List Item}
    (h : is.any setsPrecision = false) :
    (runAll stream m is).1.state.precision = m.state.precision :=
  runAll_keeps (f := fun m => m.state.precision) (fun _ m hi => precision_run stream m hi) h m

end Item

namespace Statement

/-- Whether a statement has an operand that sets the number of digits. -/
def setsPrecision : Statement → Bool
  | print _ items => items.any Item.setsPrecision
  | _ => false

/-- A statement changes the number of digits only where an operand of it sets that. -/
theorem precision_run (m : Machine) {s : Statement} (h : s.setsPrecision = false) :
    (s.run m).1.state.precision = m.state.precision := by
  cases s with
  | print stream items => exact Item.precision_runAll stream m h
  | declare type name init => exact congrArg Prod.fst (settings_run m rfl)
  | assign name op e => exact congrArg Prod.fst (settings_run m rfl)
  | throw type e => exact congrArg Prod.fst (settings_run m rfl)
  | exit e => exact congrArg Prod.fst (settings_run m rfl)
  | expr e => exact congrArg Prod.fst (settings_run m rfl)

/-- Statements that set no precision leave it as it is. -/
theorem precision_runAll (m : Machine) {statements : List Statement}
    (h : statements.any setsPrecision = false) :
    (runAll m statements).1.state.precision = m.state.precision :=
  runAll_keeps (f := fun m => m.state.precision) (fun _ m hs => precision_run m hs) h m

/-- Running statements comes to write the value of an expression in some machine, and nothing before
it sets the number of digits. -/
inductive ComesToWrite (m : Machine) (statements : List Statement) (stream : Stream) (e : Expr)
    (m' : Machine) : Prop
  | intro (passed later : List Statement) (before after : List Item) (m₀ : Machine)
    (hstatements : statements = passed ++ .print stream (before ++ .value e :: after) :: later)
    (hpassed : passed.any setsPrecision = false) (hrun : runAll m passed = (m₀, none))
    (hbefore : before.any Item.setsPrecision = false)
    (hwritten : Item.runAll stream m₀ before = (m', none))

/-- The number of digits is the one that the run began with. -/
theorem ComesToWrite.precision_eq {m m' : Machine} {statements : List Statement} {stream : Stream}
    {e : Expr} (h : ComesToWrite m statements stream e m') :
    m'.state.precision = m.state.precision := by
  obtain ⟨passed, later, before, after, m₀, -, hpassed, hrun, hbefore, hwritten⟩ := h
  have hfirst := precision_runAll m hpassed
  have hthen := Item.precision_runAll stream m₀ hbefore
  rw [hrun] at hfirst
  rw [hwritten] at hthen
  exact hthen.trans hfirst

end Statement

/-- A double is written with the number of digits of the machine. -/
theorem Item.run_double {m : Machine} {e : Expr} {x : Double} (h : m.eval e = .ok (.double x))
    (stream : Stream) :
    (Item.value e).run stream m =
      (m.write stream (General.write x (max 1 m.state.precision)), none) := by
  rw [General.write_max_one, Item.run, h]
  rfl

namespace Interpreter

variable {p : Preparation}

/-- Running the statement that sets the number format. -/
theorem runAll_formatStatement (h : p.precision < Nat.pow 2 63) (s : Interpreter) :
    Statement.runAll ⟨s, {}⟩ [Preparation.formatted p.precision] =
      (⟨{ s with precision := min p.precision 1024 }, {}⟩, none) := by
  rw [← clampPrecision_ofNat h]
  rfl

/-- The statement that fixes the number format sets the configured precision, as far as it can be
set, and does nothing else. -/
theorem execute_formatStatement (h : p.precision < Nat.pow 2 63) (s : Interpreter) :
    s.execute p.formatStatement =
      .ok (.done {}, { s with precision := min p.precision 1024 }) := by
  have htext := Preparation.ofText_formatStatement h
  rw [execute_of_check (check_eq_ok.mpr ⟨htext, _, rfl⟩), runAll_formatStatement h]
  rfl

/-- A text that is not cut into tokens is refused. -/
theorem execute_of_scan_error {block : Text} {e : LexError} (h : Token.scan block = .error e)
    (s : Interpreter) : s.execute block = .ok (.raised (.other e.message) {}, s) := by
  have hcheck : s.check block = .error (.lex e) := by
    simp only [check, Statement.ofText, h]
  exact execute_of_check_error hcheck

/-- What comes of a configured number of digits. If it is an integer literal, the statement that
sets it succeeds in every state, writes nothing and changes no more than the number of digits. A
block begins with that statement, and until the block sets another number of digits, all doubles are
written with the configured one, if it is within the bounds. A larger number is refused at its first
digit, and with it every block. -/
theorem precision_configured (p : Preparation) (s : Interpreter) :
    (p.precision < Nat.pow 2 63 →
      s.execute p.formatStatement =
        .ok (.done {}, { s with precision := min p.precision 1024 }) ∧
      ∀ r statements, s.check (p.prepare r).block = .ok statements →
        ∃ rest, statements = Preparation.formatted p.precision :: rest ∧
          Statement.runAll ⟨s, {}⟩ statements =
            Statement.runAll ⟨{ s with precision := min p.precision 1024 }, {}⟩ rest ∧
          ∀ stream e m x,
            Statement.ComesToWrite ⟨{ s with precision := min p.precision 1024 }, {}⟩ rest stream e
              m → m.eval e = .ok (.double x) →
            (Item.value e).run stream m =
              (m.write stream (General.write x (max 1 (min p.precision 1024))), none)) ∧
    (¬p.precision < Nat.pow 2 63 →
      ∃ c ∈ (Decimal.ofNat p.precision).head?,
        let refused := Answer.raised (.other ("error: unexpected character '".toList ++ [c] ++
          "'".toList)) {}
        s.execute p.formatStatement = .ok (refused, s) ∧
          ∀ r, s.execute (p.prepare r).block = .ok (refused, s)) := by
  constructor
  · intro hsmall
    refine ⟨execute_formatStatement hsmall s, fun r statements hcheck => ?_⟩
    obtain ⟨rest, rfl⟩ := Preparation.exists_of_ofText_block (check_eq_ok.mp hcheck).1
    refine ⟨rest, rfl, ?_, fun stream e m x hwrite hx => ?_⟩
    · rw [← List.singleton_append, Statement.runAll_append, runAll_formatStatement hsmall]
    · rw [Item.run_double hx, hwrite.precision_eq]
  · intro hlarge
    obtain ⟨c, hc, hformat, hblock⟩ := Preparation.scan_formatStatement_of_not_lt hlarge
    exact ⟨c, hc, execute_of_scan_error hformat s, fun r => execute_of_scan_error (hblock r) s⟩

/-- The largest literal is cut off, and a variable is written with one digit where none is asked
for. The number after the largest literal is refused. -/
theorem precision_configured_bounds :
    let x : Double := ⟨0x4004000000000000⟩
    let s : Interpreter := { store := Store.bind .empty "x".toList ⟨.double, .double x⟩ }
    let largest : Preparation := { precision := 9223372036854775807 }
    let zero : Preparation := { precision := 0 }
    let larger : Preparation := { precision := 9223372036854775808 }
    let m : Machine := ⟨{ s with precision := 0, boolalpha := true }, {}⟩
    s.execute largest.formatStatement = .ok (.done {}, { s with precision := 1024 }) ∧
      s.check (zero.prepare ⟨"x".toList⟩).block =
        .ok [Preparation.formatted 0, .print .out [.boolalpha true, .value (.var "x".toList)]] ∧
      (Item.value (.var "x".toList)).run .out m = (m.write .out ['2'], none) ∧
      s.execute larger.formatStatement =
        .ok (.raised (.other "error: unexpected character '9'".toList) {}, s) := by
  intro x s largest zero larger m
  have hblock : (zero.prepare ⟨"x".toList⟩).block =
      zero.formatStatement ++ '\n' :: "std::cout << std::boolalpha << (x);".toList := by
    decide +kernel
  have hprinted : Statement.ofText "std::cout << std::boolalpha << (x);".toList =
      .ok [.print .out [.boolalpha true, .value (.var "x".toList)]] := by
    have hscan : Token.scan "std::cout << std::boolalpha << (x);".toList =
        .ok [.name "std::cout".toList, .sym .shl, .name "std::boolalpha".toList, .sym .shl,
          .sym .lparen, .name "x".toList, .sym .rparen, .sym .semi] := by decide +kernel
    exact Statement.ofText_eq_ok.mpr ⟨_, hscan, rfl⟩
  have hcheck : s.check (zero.prepare ⟨"x".toList⟩).block =
      .ok [Preparation.formatted 0, .print .out [.boolalpha true, .value (.var "x".toList)]] := by
    have hformat : Statement.ofText zero.formatStatement = .ok [Preparation.formatted 0] :=
      Preparation.ofText_formatStatement (by decide)
    refine check_eq_ok.mpr ⟨?_, _, rfl⟩
    rw [hblock, Statement.ofText_append hformat, hprinted]
    rfl
  have htext : General.write x 1 = ['2'] := by decide +kernel
  have hdigit : (Decimal.ofNat larger.precision).head? = some '9' := by decide +kernel
  obtain ⟨hlargest, -⟩ := (precision_configured largest s).1 (by decide)
  obtain ⟨-, hzero⟩ := (precision_configured zero s).1 (by decide)
  obtain ⟨c, hc, hlarger, -⟩ := (precision_configured larger s).2 (by decide)
  obtain ⟨rest, hrest, -, hwrite⟩ := hzero _ _ hcheck
  obtain rfl := (List.cons.inj hrest).2
  obtain rfl : '9' = c := Option.some.inj (hdigit.symm.trans hc)
  refine ⟨hlargest, hcheck, ?_, hlarger⟩
  rw [← htext]
  exact hwrite .out (.var "x".toList) m x
    ⟨[], [], [.boolalpha true], [], _, rfl, rfl, rfl, rfl, rfl⟩ rfl

/-- Not every number of digits that fits a machine word can be configured. -/
theorem not_forall_precision_configured :
    ¬∀ (p : Preparation) (s : Interpreter), p.precision < Nat.pow 2 64 →
      s.execute p.formatStatement = .ok (.done {}, { s with precision := min p.precision 1024 }) := by
  intro h
  let p : Preparation := { precision := 9223372036854775808 }
  obtain ⟨c, -, hformat, -⟩ := Preparation.scan_formatStatement_of_not_lt (p := p) (by decide)
  cases (execute_of_scan_error hformat {}).symm.trans (h p {} (by decide))

end Interpreter

end Literate

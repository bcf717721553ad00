import Literate.Proofs.Language.Guard

/-!
# Where a run is stopped

A run raises the signal exactly where it comes to the division of an integer by zero: in a part of
an expression that is evaluated, or in an assignment that combines a variable with a value. No
operator and no list of arguments hides the failure of a part of it. With signals caught, nothing
but an exit ends the process.
-/

namespace Literate

/-- Whether an operator evaluates its second operand where the first has the given value. -/
def BinaryOp.GoesOn (op : BinaryOp) (left : Value) : Prop :=
  (op = and → left.truthy = true) ∧ (op = or → left.truthy = false)

namespace Expr

/-- Evaluating an expression comes to a part of it. The second operand of a logical operator is a
part only where the first does not decide, and an argument only where those before it have
values. -/
inductive Evaluates (mode : FaultMode) (store : Store) : Expr → Expr → Prop
  | self (e : Expr) : Evaluates mode store e e
  | operand {op : UnaryOp} {e part : Expr} (h : Evaluates mode store e part) :
      Evaluates mode store (unary op e) part
  | left {op : BinaryOp} {l r part : Expr} (h : Evaluates mode store l part) :
      Evaluates mode store (binary op l r) part
  | right {op : BinaryOp} {l r part : Expr} {a : Value} (hl : l.eval mode store = .ok a)
      (hop : op.GoesOn a) (h : Evaluates mode store r part) :
      Evaluates mode store (binary op l r) part
  | argument {name : Text} {before after : List Expr} {e part : Expr} {vs : List Value}
      (hbefore : evalAll mode store before = .ok vs) (h : Evaluates mode store e part) :
      Evaluates mode store (call name (before ++ e :: after)) part

/-- Whether evaluating an expression comes to a division of an integer by zero. -/
def DividesByZero (mode : FaultMode) (store : Store) (e : Expr) : Prop :=
  ∃ op l r a b, Evaluates mode store e (binary op l r) ∧ l.eval mode store = .ok a ∧
    r.eval mode store = .ok b ∧ op.DividesByZero a b

variable {mode : FaultMode} {store : Store} {i : Interrupt}

/-- An operator of one operand fails where its operand does, or where the operation on its value
does. -/
theorem eval_unary_eq_error {op : UnaryOp} {e : Expr} :
    (unary op e).eval mode store = .error i ↔
      e.eval mode store = .error i ∨ ∃ v, e.eval mode store = .ok v ∧ op.apply v = .error i := by
  rw [Expr.eval]
  exact bind_eq_error

/-- An operator fails where its first operand does, where its second does if that is evaluated, or
where the operation on the two values does. -/
theorem eval_binary_eq_error {op : BinaryOp} {l r : Expr} :
    (binary op l r).eval mode store = .error i ↔
      l.eval mode store = .error i ∨ ∃ a, l.eval mode store = .ok a ∧ op.GoesOn a ∧
        (r.eval mode store = .error i ∨ op ≠ .and ∧ op ≠ .or ∧ ∃ b, r.eval mode store = .ok b ∧
          op.apply mode a b = .error i) := by
  cases op with
  | and =>
    rw [Expr.eval, bind_eq_error]
    refine or_congr_right (exists_congr fun a => and_congr_right fun _ => ?_)
    cases ha : a.truthy <;> simp [BinaryOp.GoesOn, ha, bind_eq_error]
  | or =>
    rw [Expr.eval, bind_eq_error]
    refine or_congr_right (exists_congr fun a => and_congr_right fun _ => ?_)
    cases ha : a.truthy <;> simp [BinaryOp.GoesOn, ha, bind_eq_error]
  | _ =>
    rw [Expr.eval, bind_eq_error]
    · simp [BinaryOp.GoesOn, bind_eq_error]
    all_goals simp

/-- A call fails where its arguments do, or where the function does. -/
theorem eval_call_eq_error {name : Text} {arguments : List Expr} :
    (call name arguments).eval mode store = .error i ↔
      evalAll mode store arguments = .error i ∨
        ∃ vs, evalAll mode store arguments = .ok vs ∧ Function.call name vs = .error i := by
  rw [Expr.eval]
  exact bind_eq_error

/-- Expressions in order fail where the first does, or where the others do after it. -/
theorem evalAll_cons_eq_error {e : Expr} {es : List Expr} :
    evalAll mode store (e :: es) = .error i ↔ e.eval mode store = .error i ∨
      ∃ v, e.eval mode store = .ok v ∧ evalAll mode store es = .error i := by
  rw [evalAll, bind_eq_error]
  simp [bind_eq_error]

private theorem evalAll_cons_eq_ok {e : Expr} {es : List Expr} {v : Value} {vs : List Value}
    (he : e.eval mode store = .ok v) (hes : evalAll mode store es = .ok vs) :
    evalAll mode store (e :: es) = .ok (v :: vs) := by
  rw [evalAll, he, hes]
  rfl

/-- Expressions in order fail where one fails after others that have values. -/
theorem evalAll_append_eq_error {before : List Expr} {e : Expr} {vs : List Value}
    (hbefore : evalAll mode store before = .ok vs) (he : e.eval mode store = .error i)
    (after : List Expr) : evalAll mode store (before ++ e :: after) = .error i := by
  induction before generalizing vs with
  | nil => exact evalAll_cons_eq_error.mpr (.inl he)
  | cons b before ih =>
    rw [evalAll] at hbefore
    obtain ⟨v, hb, hrest⟩ := bind_eq_ok.mp hbefore
    obtain ⟨vs, hvs, -⟩ := bind_eq_ok.mp hrest
    exact evalAll_cons_eq_error.mpr (.inr ⟨v, hb, ih hvs⟩)

/-- The failure of a part that is evaluated is the failure of the expression. -/
theorem Evaluates.eval_eq_error {e part : Expr} (h : Evaluates mode store e part)
    (hpart : part.eval mode store = .error i) : e.eval mode store = .error i := by
  induction h with
  | self e => exact hpart
  | operand h ih => exact eval_unary_eq_error.mpr (.inl (ih hpart))
  | left h ih => exact eval_binary_eq_error.mpr (.inl (ih hpart))
  | right hl hop h ih => exact eval_binary_eq_error.mpr (.inr ⟨_, hl, hop, .inl (ih hpart)⟩)
  | argument hbefore h ih =>
    exact eval_call_eq_error.mpr (.inl (evalAll_append_eq_error hbefore (ih hpart) _))

/-- The division of a part divides in the expression. -/
theorem DividesByZero.of_part {e e' : Expr}
    (h : ∀ part, Evaluates mode store e' part → Evaluates mode store e part)
    (hdivides : e'.DividesByZero mode store) : e.DividesByZero mode store := by
  obtain ⟨op, l, r, a, b, hpart, hrest⟩ := hdivides
  exact ⟨op, l, r, a, b, h _ hpart, hrest⟩

/-- An expression that comes to a division by zero raises the signal. -/
theorem eval_of_dividesByZero {e : Expr} (h : e.DividesByZero mode store) :
    e.eval mode store = .error mode.divisionByZero := by
  obtain ⟨op, l, r, a, b, hpart, hl, hr, hzero⟩ := h
  refine hpart.eval_eq_error (eval_binary_eq_error.mpr (.inr ⟨a, hl, ?_, .inr ⟨?_, ?_, b, hr, ?_⟩⟩))
  · rcases hzero.1 with rfl | rfl <;> simp [BinaryOp.GoesOn]
  · rcases hzero.1 with rfl | rfl <;> simp
  · rcases hzero.1 with rfl | rfl <;> simp
  · exact BinaryOp.apply_eq_divisionByZero_iff.mpr hzero

mutual

/-- Only a division by zero raises the signal. -/
theorem dividesByZero_of_eval :
    (e : Expr) → e.eval mode store = .error mode.divisionByZero → e.DividesByZero mode store
  | .int n, h => by simp [Expr.eval] at h
  | .double x, h => by simp [Expr.eval] at h
  | .bool b, h => by simp [Expr.eval] at h
  | .str s, h => by simp [Expr.eval] at h
  | .var name, h => by
    rw [Expr.eval] at h
    split at h
    · cases h
    · exact absurd (Except.error.inj h) (by simp)
  | .unary op e, h => by
    rcases eval_unary_eq_error.mp h with he | ⟨v, -, hop⟩
    · exact (dividesByZero_of_eval e he).of_part fun _ => .operand
    · have hsignal := UnaryOp.apply_eq_error hop
      exact absurd hsignal.symm (by simp)
  | .binary op l r, h => by
    rcases eval_binary_eq_error.mp h with hl | ⟨a, hl, hgoes, hr | ⟨-, -, b, hr, happly⟩⟩
    · exact (dividesByZero_of_eval l hl).of_part fun _ => .left
    · exact (dividesByZero_of_eval r hr).of_part fun _ => .right hl hgoes
    · exact ⟨op, l, r, a, b, .self _, hl, hr, BinaryOp.apply_eq_divisionByZero_iff.mp happly⟩
  | .call name arguments, h => by
    rcases eval_call_eq_error.mp h with hall | ⟨vs, -, hcall⟩
    · obtain ⟨before, e, after, vs, rfl, hbefore, he⟩ := exists_dividesByZero_of_evalAll _ hall
      exact he.of_part fun _ => .argument hbefore
    · have hsignal := Function.call_eq_error hcall
      exact absurd hsignal.symm (by simp)

/-- Expressions in order raise the signal only where one of them comes to a division by zero. -/
theorem exists_dividesByZero_of_evalAll :
    (es : List Expr) → evalAll mode store es = .error mode.divisionByZero →
      ∃ before e after vs, es = before ++ e :: after ∧ evalAll mode store before = .ok vs ∧
        e.DividesByZero mode store
  | [], h => by simp [evalAll] at h
  | e :: es, h => by
    rcases evalAll_cons_eq_error.mp h with he | ⟨v, he, hes⟩
    · exact ⟨[], e, es, [], rfl, rfl, dividesByZero_of_eval e he⟩
    · obtain ⟨before, e', after, vs, rfl, hbefore, he'⟩ := exists_dividesByZero_of_evalAll es hes
      exact ⟨e :: before, e', after, v :: vs, rfl, evalAll_cons_eq_ok he hbefore, he'⟩

end

/-- Evaluating an expression raises the signal exactly where it comes to a division by zero. -/
theorem eval_eq_divisionByZero_iff {e : Expr} :
    e.eval mode store = .error mode.divisionByZero ↔ e.DividesByZero mode store :=
  ⟨dividesByZero_of_eval e, eval_of_dividesByZero⟩

/-- A division that a logical operator passes over is not evaluated. -/
example (store : Store) :
    (binary .and (.bool false) (.binary .div (.int 1) (.int 0))).eval .fatal store =
      .ok (.bool false) := rfl

end Expr

namespace Machine

variable {m : Machine} {mode : FaultMode}

/-- Whether evaluating an expression in a machine comes to a division of an integer by zero. -/
def DividesByZero (m : Machine) (e : Expr) : Prop :=
  e.DividesByZero m.state.mode m.state.store

/-- In a machine, evaluating an expression raises the signal exactly where it divides by zero. -/
theorem eval_eq_divisionByZero_iff {e : Expr} (hm : m.state.mode = mode) :
    m.eval e = .error mode.divisionByZero ↔ m.DividesByZero e := by
  rw [eval, DividesByZero, hm]
  exact Expr.eval_eq_divisionByZero_iff

/-- A run stops at a step that has no value, or after it. -/
theorem stop_andThen_iff {α : Type} {r : Except Interrupt α}
    {next : α → Machine × Option Interrupt} {i : Interrupt} :
    (m.andThen r next).2 = some i ↔ r = .error i ∨ ∃ a, r = .ok a ∧ (next a).2 = some i := by
  cases r with
  | ok a => simp [andThen]
  | error j => simp [andThen]

private theorem mode_andThen {α : Type} {r : Except Interrupt α}
    {next : α → Machine × Option Interrupt} (h : ∀ a, (next a).1.state.mode = m.state.mode) :
    (m.andThen r next).1.state.mode = m.state.mode := by
  cases r with
  | ok a => exact h a
  | error i => rfl

/-- A run stops where its first step does, or after it. -/
theorem stop_goOn_iff {r : Machine × Option Interrupt} {next : Machine → Machine × Option Interrupt}
    {i : Interrupt} :
    (goOn r next).2 = some i ↔ r.2 = some i ∨ r.2 = none ∧ (next r.1).2 = some i := by
  rcases r with ⟨m, _ | stop⟩
  · simp [goOn]
  · simp [goOn]

/-- A run comes to its end after its first step has. -/
theorem goOn_eq_none_iff {r : Machine × Option Interrupt}
    {next : Machine → Machine × Option Interrupt} :
    goOn r next = (m, none) ↔ r.2 = none ∧ next r.1 = (m, none) := by
  rcases r with ⟨m', _ | stop⟩
  · simp [goOn]
  · simp [goOn]

private theorem mode_goOn {r : Machine × Option Interrupt}
    {next : Machine → Machine × Option Interrupt}
    (h : ∀ m, (next m).1.state.mode = m.state.mode) :
    (goOn r next).1.state.mode = r.1.state.mode := by
  rcases r with ⟨m, _ | stop⟩
  · exact h m
  · rfl

end Machine

/-- Whether writing an operand divides an integer by zero. -/
def Item.DividesByZero (m : Machine) : Item → Prop
  | value e | precision e => m.DividesByZero e
  | endl | boolalpha _ => False

/-- Whether running a statement divides an integer by zero: in an expression that it evaluates, in
an operand that is written after those before it, or where an assignment combines the value of the
variable with the given one. -/
def Statement.DividesByZero (m : Machine) : Statement → Prop
  | declare _ _ init => ∃ e ∈ init, m.DividesByZero e
  | assign name op e =>
    m.DividesByZero e ∨ ∃ v b combine, m.eval e = .ok v ∧ m.state.store.get? name = some b ∧
      op = some combine ∧ combine.DividesByZero b.value v
  | print stream items =>
    ∃ before i after m', items = before ++ i :: after ∧
      Item.runAll stream m before = (m', none) ∧ i.DividesByZero m'
  | throw type e => exceptionTypes.contains type = true ∧ m.DividesByZero e
  | exit e | expr e => m.DividesByZero e

private theorem convert_ne_divisionByZero (type : VarType) (v : Value) (mode : FaultMode) :
    convert type v ≠ .error mode.divisionByZero := by
  intro h
  exact absurd (convert_eq_error h).symm (by simp)

private theorem Value.toInt64_ne_divisionByZero (context : Text) (v : Value) (mode : FaultMode) :
    v.toInt64 context ≠ .error mode.divisionByZero := by
  intro h
  exact absurd (toInt64_eq_error h).symm (by simp)

namespace Item

variable {m : Machine} {mode : FaultMode}

/-- Printing stays in the mode. -/
theorem mode_run (stream : Stream) (m : Machine) (i : Item) :
    (i.run stream m).1.state.mode = m.state.mode := by
  cases i with
  | value e => exact Machine.mode_andThen fun v => by cases stream <;> rfl
  | endl => cases stream <;> rfl
  | boolalpha on => rfl
  | precision e => exact Machine.mode_andThen fun v => Machine.mode_andThen fun n => rfl

/-- Writing an operand raises the signal exactly where it divides by zero. -/
theorem run_eq_divisionByZero_iff (hm : m.state.mode = mode) (stream : Stream) (i : Item) :
    (i.run stream m).2 = some mode.divisionByZero ↔ i.DividesByZero m := by
  cases i with
  | value e =>
    rw [run, Machine.stop_andThen_iff, Machine.eval_eq_divisionByZero_iff hm]
    simp [DividesByZero]
  | endl => simp [run, DividesByZero]
  | boolalpha on => simp [run, DividesByZero]
  | precision e =>
    rw [run, Machine.stop_andThen_iff, Machine.eval_eq_divisionByZero_iff hm]
    simp [DividesByZero, Machine.stop_andThen_iff, Value.toInt64_ne_divisionByZero]

/-- Printing leaves the mode as it is. -/
theorem mode_runAll (stream : Stream) (m : Machine) (is : List Item) :
    (runAll stream m is).1.state.mode = m.state.mode := by
  induction is generalizing m with
  | nil => rfl
  | cons i is ih => exact (Machine.mode_goOn ih).trans (mode_run stream m i)

/-- Operands in order stop where one does after others that have been written. -/
theorem stop_runAll_iff {stream : Stream} {is : List Item} {i : Interrupt} :
    (runAll stream m is).2 = some i ↔
      ∃ before item after m', is = before ++ item :: after ∧
        runAll stream m before = (m', none) ∧ (item.run stream m').2 = some i := by
  induction is generalizing m with
  | nil => simp [runAll]
  | cons first is ih =>
    rw [runAll_cons, Machine.stop_goOn_iff, ih]
    constructor
    · rintro (hfirst | ⟨hnone, before, item, after, m', rfl, hbefore, hitem⟩)
      · exact ⟨[], first, is, m, rfl, rfl, hfirst⟩
      · refine ⟨first :: before, item, after, m', rfl, ?_, hitem⟩
        exact Machine.goOn_eq_none_iff.mpr ⟨hnone, hbefore⟩
    · rintro ⟨before, item, after, m', his, hbefore, hitem⟩
      cases before with
      | nil =>
        obtain ⟨rfl, rfl⟩ := List.cons.inj his
        obtain ⟨rfl, -⟩ := Prod.mk.inj hbefore
        exact .inl hitem
      | cons b before =>
        obtain ⟨rfl, rfl⟩ := List.cons.inj his
        obtain ⟨hnone, hbefore⟩ := Machine.goOn_eq_none_iff.mp hbefore
        exact .inr ⟨hnone, before, item, after, m', rfl, hbefore, hitem⟩

end Item

namespace Statement

variable {m : Machine} {mode : FaultMode}

/-- A statement is stopped by the signal exactly where it divides an integer by zero. -/
theorem run_eq_divisionByZero_iff (hm : m.state.mode = mode) (s : Statement) :
    (s.run m).2 = some mode.divisionByZero ↔ s.DividesByZero m := by
  have heval (e : Expr) : m.eval e = .error mode.divisionByZero ↔ m.DividesByZero e :=
    Machine.eval_eq_divisionByZero_iff hm
  cases s with
  | declare type name init =>
    cases init with
    | none => simp [run, DividesByZero]
    | some e =>
      simp [run, DividesByZero, Machine.stop_andThen_iff, heval, convert_ne_divisionByZero]
  | assign name op e =>
    rw [run, Machine.stop_andThen_iff, heval]
    refine or_congr_right ?_
    cases hb : m.state.store.get? name with
    | none => simp [Machine.stop]
    | some b =>
      cases op with
      | none => simp [Machine.stop_andThen_iff, convert_ne_divisionByZero]
      | some combine =>
        simp [Machine.stop_andThen_iff, convert_ne_divisionByZero, hm,
          BinaryOp.apply_eq_divisionByZero_iff]
  | print stream items =>
    rw [run, Item.stop_runAll_iff]
    refine exists_congr fun before => exists_congr fun i => exists_congr fun after =>
      exists_congr fun m' => and_congr_right fun _ => and_congr_right fun hbefore => ?_
    have hmode := Item.mode_runAll stream m before
    rw [hbefore, hm] at hmode
    exact i.run_eq_divisionByZero_iff hmode stream
  | throw type e =>
    rw [run]
    split
    · next htype =>
      rw [Machine.stop_andThen_iff, heval]
      simp only [DividesByZero, htype, true_and, or_iff_left_iff_imp]
      rintro ⟨v, -, hstop⟩
      cases v <;> simp [Machine.stop] at hstop
    · next htype =>
      simp [DividesByZero, Machine.stop, show type ∉ exceptionTypes by simpa using htype]
  | exit e =>
    simp [run, DividesByZero, Machine.stop_andThen_iff, heval, Value.toInt64_ne_divisionByZero]
  | expr e => simp [run, DividesByZero, Machine.stop_andThen_iff, heval]

/-- A statement stays in the mode. -/
theorem mode_run (m : Machine) (s : Statement) : (s.run m).1.state.mode = m.state.mode := by
  cases s with
  | declare type name init =>
    cases init with
    | none => rfl
    | some e => exact Machine.mode_andThen fun v => Machine.mode_andThen fun v => rfl
  | assign name op e =>
    refine Machine.mode_andThen fun v => ?_
    split
    · rfl
    · exact Machine.mode_andThen fun v => Machine.mode_andThen fun v => rfl
  | print stream items => exact Item.mode_runAll stream m items
  | throw type e =>
    rw [run]
    split
    · exact Machine.mode_andThen fun v => by cases v <;> rfl
    · rfl
  | exit e => exact Machine.mode_andThen fun v => Machine.mode_andThen fun n => rfl
  | expr e => exact Machine.mode_andThen fun v => rfl

variable {m₀ : Machine} {s : Statement} {statements : List Statement} {i : Interrupt}

/-- A run comes to its statements in the mode that it began in. -/
theorem Reaches.mode_eq (h : Reaches m statements s m₀) : m₀.state.mode = m.state.mode := by
  induction h with
  | here m s rest => rfl
  | @next m m₁ m₂ s t rest hs ht ih =>
    have hmode := mode_run m s
    rw [hs] at hmode
    exact ih.trans hmode

/-- Statements stop where one of them does that the run comes to. -/
theorem stop_runAll_iff :
    (runAll m statements).2 = some i ↔
      ∃ s m₀, Reaches m statements s m₀ ∧ (s.run m₀).2 = some i := by
  constructor
  · intro h
    obtain ⟨s, m₀, hreaches, hrun⟩ := exists_reaches_of_stop (Prod.ext rfl h)
    exact ⟨s, m₀, hreaches, congrArg Prod.snd hrun⟩
  · rintro ⟨s, m₀, hreaches, hstop⟩
    induction hreaches with
    | here m s rest => exact Machine.stop_goOn_iff.mpr (.inl hstop)
    | next hs ht ih =>
      rw [runAll_cons, hs]
      exact ih hstop

/-- A run is stopped by the signal exactly where it comes to a statement that divides an integer by
zero. -/
theorem runAll_eq_divisionByZero_iff (hm : m.state.mode = mode) :
    (runAll m statements).2 = some mode.divisionByZero ↔
      ∃ s m₀, Reaches m statements s m₀ ∧ s.DividesByZero m₀ := by
  rw [stop_runAll_iff]
  refine exists_congr fun s => exists_congr fun m₀ => and_congr_right fun hreaches => ?_
  exact run_eq_divisionByZero_iff (hreaches.mode_eq.trans hm) s

end Statement

/-- With signals caught no expression ends the process. -/
theorem Machine.eval_ne_ended {m : Machine} (hm : m.state.mode = .catchable) (e : Expr)
    (ending : Ending) : m.eval e ≠ .error (.ended ending) := by
  rw [eval, hm]
  exact (Expr.caught_eval m.state.store e).ne_ended ending

/-- With signals caught no operand that is written ends the process. -/
theorem Item.run_ne_ended {m : Machine} (hm : m.state.mode = .catchable) (stream : Stream)
    (i : Item) (ending : Ending) : (i.run stream m).2 ≠ some (.ended ending) := by
  have heval (e : Expr) : m.eval e ≠ .error (.ended ending) := m.eval_ne_ended hm e ending
  cases i with
  | value e => simp [run, Machine.stop_andThen_iff, heval]
  | endl => simp [run]
  | boolalpha on => simp [run]
  | precision e =>
    have hint (context : Text) (v : Value) := (Caught.toInt64 context v).ne_ended ending
    simp [run, Machine.stop_andThen_iff, heval, hint]

namespace Statement

/-- With signals caught a statement ends the process exactly if it is an exit whose code has a
value, and then with that code, cut to 32 bits. -/
theorem run_eq_ended_iff {m : Machine} (hm : m.state.mode = .catchable) (s : Statement)
    (ending : Ending) :
    (s.run m).2 = some (.ended ending) ↔ ∃ e v n, s = .exit e ∧ m.eval e = .ok v ∧
      v.toInt64 "std::exit".toList = .ok n ∧ ending = .exited n.toInt32 := by
  have heval (e : Expr) : m.eval e ≠ .error (.ended ending) := m.eval_ne_ended hm e ending
  have hconvert (type : VarType) (v : Value) := (Caught.convert type v).ne_ended ending
  have hint (context : Text) (v : Value) := (Caught.toInt64 context v).ne_ended ending
  cases s with
  | declare type name init =>
    cases init with
    | none => simp [run]
    | some e => simp [run, Machine.stop_andThen_iff, heval, hconvert]
  | assign name op e =>
    simp only [run, Machine.stop_andThen_iff, heval, false_or]
    cases m.state.store.get? name with
    | none => simp [Machine.stop]
    | some b =>
      cases op with
      | none => simp [Machine.stop_andThen_iff, hconvert]
      | some op =>
        have hop (v : Value) := (Caught.binary op b.value v).ne_ended ending
        simp [Machine.stop_andThen_iff, hconvert, hm, hop]
  | print stream items =>
    rw [run, Item.stop_runAll_iff]
    simp only [reduceCtorEq, false_and, exists_false, iff_false]
    rintro ⟨before, i, after, m', -, hbefore, hstop⟩
    have hmode := Item.mode_runAll stream m before
    rw [hbefore] at hmode
    exact i.run_ne_ended (hmode.trans hm) stream ending hstop
  | throw type e =>
    rw [run]
    split
    · rw [Machine.stop_andThen_iff]
      simp only [heval, false_or, reduceCtorEq, false_and, exists_false, iff_false]
      rintro ⟨v, -, hstop⟩
      cases v <;> simp [Machine.stop] at hstop
    · simp [Machine.stop]
  | exit e =>
    simp only [run, Machine.stop_andThen_iff, heval, hint, false_or]
    constructor
    · rintro ⟨v, hv, n, hn, ⟨⟩⟩
      exact ⟨e, v, n, rfl, hv, hn, rfl⟩
    · rintro ⟨_, v, n, ⟨⟩, hv, hn, rfl⟩
      exact ⟨v, hv, n, hn, rfl⟩
  | expr e => simp [run, Machine.stop_andThen_iff, heval]

/-- With signals caught a run ends the process exactly where it comes to an exit whose code has a
value. -/
theorem runAll_eq_ended_iff {m : Machine} (hm : m.state.mode = .catchable)
    (statements : List Statement) (ending : Ending) :
    (runAll m statements).2 = some (.ended ending) ↔ ∃ e v n m₀,
      Reaches m statements (.exit e) m₀ ∧ m₀.eval e = .ok v ∧
        v.toInt64 "std::exit".toList = .ok n ∧ ending = .exited n.toInt32 := by
  rw [stop_runAll_iff]
  constructor
  · rintro ⟨s, m₀, hreaches, hstop⟩
    obtain ⟨e, v, n, rfl, hexit⟩ :=
      (s.run_eq_ended_iff (hreaches.mode_eq.trans hm) ending).mp hstop
    exact ⟨e, v, n, m₀, hreaches, hexit⟩
  · rintro ⟨e, v, n, m₀, hreaches, hexit⟩
    exact ⟨.exit e, m₀, hreaches,
      (run_eq_ended_iff (hreaches.mode_eq.trans hm) _ ending).mpr ⟨e, v, n, rfl, hexit⟩⟩

end Statement

end Literate

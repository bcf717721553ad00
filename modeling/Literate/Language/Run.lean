import Literate.Language.Resolve
import Literate.Language.Store

/-!
# Running statements

An interpreter keeps the declared variables and the format of its output from one block to the
next. A running block reads and changes them and writes to two streams. Running stops at the first
error and leaves what was done before it; it also stops where the process ends.
-/

namespace Literate

/-- What an interpreter keeps between blocks. -/
structure Interpreter where
  store : Store := .empty
  /-- The number of significant digits in output. -/
  precision : Nat := 6
  boolalpha : Bool := false
  mode : FaultMode := .fatal

/-- An interpreter in the middle of a block, with what the block has written so far. -/
structure Machine where
  state : Interpreter
  output : Captured := {}

namespace Expr

mutual

/-- The value of an expression. A logical operator evaluates its second operand only where the
first does not decide. -/
def eval (mode : FaultMode) (store : Store) : Expr → Except Interrupt Value
  | int n => .ok (.int n)
  | double x => .ok (.double x)
  | bool b => .ok (.bool b)
  | str s => .ok (.str s)
  | var name =>
    match store.get? name with
    | some b => .ok b.value
    | none => .error (.error (.undeclared name))
  | unary op e => do
    let v ← e.eval mode store
    op.apply v
  | binary .and l r => do
    let a ← l.eval mode store
    if a.truthy then do
      let b ← r.eval mode store
      .ok (.bool b.truthy)
    else .ok (.bool false)
  | binary .or l r => do
    let a ← l.eval mode store
    if a.truthy then .ok (.bool true)
    else do
      let b ← r.eval mode store
      .ok (.bool b.truthy)
  | binary op l r => do
    let a ← l.eval mode store
    let b ← r.eval mode store
    op.apply mode a b
  | call name arguments => do
    let vs ← evalAll mode store arguments
    Function.call name vs

/-- The values of expressions in order. -/
def evalAll (mode : FaultMode) (store : Store) : List Expr → Except Interrupt (List Value)
  | [] => .ok []
  | e :: es => do
    let v ← e.eval mode store
    let vs ← evalAll mode store es
    .ok (v :: vs)

end

end Expr

/-- The number of digits past which more only add zeros that are not written. -/
def maxPrecision : Nat := 1024

/-- The number of digits in a fresh interpreter, and where a negative one is asked for. -/
def defaultPrecision : Nat := 6

/-- The number of digits that a requested one stands for. -/
def clampPrecision (n : Int64) : Nat :=
  if n < 0 then defaultPrecision else min n.toInt.toNat maxPrecision

/-- The types of the exceptions that a block may throw. -/
def exceptionTypes : List Text :=
  ["std::invalid_argument".toList, "std::domain_error".toList, "std::length_error".toList,
    "std::out_of_range".toList, "std::logic_error".toList, "std::runtime_error".toList,
    "std::range_error".toList, "std::overflow_error".toList, "std::underflow_error".toList]

namespace Machine

/-- The value of an expression in the current state. -/
def eval (m : Machine) (e : Expr) : Except Interrupt Value :=
  e.eval m.state.mode m.state.store

/-- Binds a variable. -/
def bind (m : Machine) (name : Text) (b : Binding) : Machine :=
  { m with state := { m.state with store := m.state.store.bind name b } }

/-- Writes to one of the streams. -/
def write (m : Machine) (stream : Stream) (t : Text) : Machine :=
  match stream with
  | .out => { m with output := { m.output with stdout := m.output.stdout ++ t } }
  | .err => { m with output := { m.output with stderr := m.output.stderr ++ t } }

def setBoolalpha (m : Machine) (on : Bool) : Machine :=
  { m with state := { m.state with boolalpha := on } }

def setPrecision (m : Machine) (digits : Nat) : Machine :=
  { m with state := { m.state with precision := digits } }

/-- Goes on with a value, or stops where there is none. -/
def andThen {α : Type} (m : Machine) (r : Except Interrupt α)
    (next : α → Machine × Option Interrupt) : Machine × Option Interrupt :=
  match r with
  | .ok a => next a
  | .error i => (m, some i)

/-- Stops a machine. -/
def stop (m : Machine) (e : RunError) : Machine × Option Interrupt :=
  (m, some (.error e))

end Machine

/-- Converts a value to the type of the variable that is to hold it. -/
def convert (type : VarType) (v : Value) : Except Interrupt Value :=
  match v.convert? type with
  | some v => .ok v
  | none => .error (.error (.badInit type v.typeName))

/-- The binding that a declaration makes of a value. -/
def Binding.ofDeclared (type : VarType) (v : Value) : Binding :=
  ⟨if type = .auto then v.varType else type, v⟩

/-- Writes one operand of a print statement. -/
def Item.run (stream : Stream) (m : Machine) : Item → Machine × Option Interrupt
  | value e =>
    m.andThen (m.eval e) fun v =>
      (m.write stream (v.render m.state.precision m.state.boolalpha), none)
  | endl => (m.write stream ['\n'], none)
  | boolalpha on => (m.setBoolalpha on, none)
  | precision e =>
    m.andThen (m.eval e) fun v =>
    m.andThen (v.toInt64 "std::setprecision".toList) fun n =>
      (m.setPrecision (clampPrecision n), none)

/-- Writes the operands of a print statement in order. -/
def Item.runAll (stream : Stream) (m : Machine) : List Item → Machine × Option Interrupt
  | [] => (m, none)
  | i :: is =>
    match i.run stream m with
    | (m, none) => runAll stream m is
    | (m, some stop) => (m, some stop)

namespace Statement

/-- Runs one statement: the state it leaves, and why running stops, if it does. -/
def run (m : Machine) : Statement → Machine × Option Interrupt
  | declare type name none => (m.bind name (.ofDeclared type (.initial type)), none)
  | declare type name (some e) =>
    m.andThen (m.eval e) fun v =>
    m.andThen (convert type v) fun v =>
      (m.bind name (.ofDeclared type v), none)
  | assign name op e =>
    m.andThen (m.eval e) fun v =>
    match m.state.store.get? name with
    | none => m.stop (.undeclared name)
    | some b =>
      m.andThen (match op with
        | none => .ok v
        | some op => op.apply m.state.mode b.value v) fun v =>
      m.andThen (convert b.type v) fun v =>
        (m.bind name ⟨b.type, v⟩, none)
  | print stream items => Item.runAll stream m items
  | throw type e =>
    if exceptionTypes.contains type then
      m.andThen (m.eval e) fun v =>
      match v with
      | .str what => m.stop (.thrown type what)
      | v => m.stop (.noConstructor type v.typeName)
    else m.stop (.unknownException type)
  | exit e =>
    m.andThen (m.eval e) fun v =>
    m.andThen (v.toInt64 "std::exit".toList) fun n =>
      (m, some (.ended (.exited n.toInt32)))
  | expr e => m.andThen (m.eval e) fun _ => (m, none)

/-- Runs statements up to the first that stops. -/
def runAll (m : Machine) : List Statement → Machine × Option Interrupt
  | [] => (m, none)
  | s :: rest =>
    match s.run m with
    | (m, none) => runAll m rest
    | (m, some stop) => (m, some stop)

/-- Statements run in two parts are run one after another. -/
theorem runAll_append (m : Machine) (a b : List Statement) :
    runAll m (a ++ b) =
      match runAll m a with
      | (m, none) => runAll m b
      | (m, some stop) => (m, some stop) := by
  induction a generalizing m with
  | nil => rfl
  | cons s rest ih =>
    simp only [List.cons_append, runAll]
    rcases s.run m with ⟨m', _ | stop⟩
    · exact ih m'
    · rfl

end Statement

end Literate

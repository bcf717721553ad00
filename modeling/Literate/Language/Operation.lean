import Literate.Engine.Basic
import Literate.Language.Value

/-!
# Operations

What the operators and functions make of values, and how they fail. The division of an integer by
zero is a signal: it ends the process in the fatal mode and is a fault in the catchable one.
-/

namespace Literate

/-- Why a running block fails. -/
inductive RunError
  | undeclared (name : Text)
  | badOperand (type : Text)
  | badOperands (left right : Text)
  /-- No function of this name takes the arguments given. -/
  | noFunction (name : Text)
  /-- A value cannot be converted to the type of the variable that is to hold it. -/
  | badInit (type : VarType) (value : Text)
  | unknownException (type : Text)
  /-- An exception takes a string and was given a value of another type. -/
  | noConstructor (type value : Text)
  | divisionByZero
  /-- The block threw an exception. -/
  | thrown (type what : Text)
  deriving DecidableEq, Repr

namespace RunError

/-- The fault that an engine reports for an error. -/
def raised : RunError → Raised
  | undeclared name => .other ("error: use of undeclared identifier '".toList ++ name ++ "'".toList)
  | badOperand type =>
    .other ("error: invalid argument type '".toList ++ type ++ "' to unary expression".toList)
  | badOperands left right =>
    .other ("error: invalid operands to binary expression ('".toList ++ left ++
      "' and '".toList ++ right ++ "')".toList)
  | noFunction name =>
    .other ("error: no matching function for call to '".toList ++ name ++ "'".toList)
  | badInit type value =>
    .other ("error: cannot initialize a variable of type '".toList ++ type.label ++
      "' with an lvalue of type '".toList ++ value ++ "'".toList)
  | unknownException type => .other ("error: unknown type name '".toList ++ type ++ "'".toList)
  | noConstructor type value =>
    .other ("error: no matching constructor for initialization of '".toList ++ type ++
      "' from '".toList ++ value ++ "'".toList)
  | divisionByZero => .signal "SIGFPE: integer division by zero".toList
  | thrown type what => .native type what

end RunError

/-- Why running stops before the end of a block: an error, or the end of the process. -/
inductive Interrupt
  | error (e : RunError)
  | ended (ending : Ending)
  deriving DecidableEq, Repr

namespace FaultMode

/-- What the division of an integer by zero does. -/
def divisionByZero : FaultMode → Interrupt
  | fatal => .ended .aborted
  | catchable => .error .divisionByZero

end FaultMode

namespace BinaryOp

/-- Whether an operator that compares accepts an order. -/
def accepts : BinaryOp → Ordering → Bool
  | eq, o => o == .eq
  | ne, o => o != .eq
  | lt, o => o == .lt
  | le, o => o != .gt
  | gt, o => o == .gt
  | ge, o => o != .lt
  | _, _ => false

/-- An operator between integers. -/
def onInts (mode : FaultMode) (op : BinaryOp) (a b : Int64) : Except Interrupt Value :=
  match op with
  | add => .ok (.int (a + b))
  | sub => .ok (.int (a - b))
  | mul => .ok (.int (a * b))
  | div => if b = 0 then .error mode.divisionByZero else .ok (.int (a / b))
  | rem => if b = 0 then .error mode.divisionByZero else .ok (.int (a % b))
  | op => .ok (.bool (op.accepts (compare a.toInt b.toInt)))

/-- An operator between doubles, or none for the remainder. Where one is no number, only
inequality holds. -/
def onDoubles? (op : BinaryOp) (x y : Double) : Option Value :=
  match op with
  | add => some (.double (x.add y))
  | sub => some (.double (x.sub y))
  | mul => some (.double (x.mul y))
  | div => some (.double (x.div y))
  | rem => none
  | op =>
    some (.bool (match x.order y with
      | some o => op.accepts o
      | none => op = .ne))

/-- An operator between values, other than the logical ones. An integer meets a double as a
double. -/
def apply (mode : FaultMode) (op : BinaryOp) (left right : Value) : Except Interrupt Value :=
  match left.number?, right.number? with
  | some (.int a), some (.int b) => op.onInts mode a b
  | some a, some b =>
    match op.onDoubles? a.toDouble b.toDouble with
    | some v => .ok v
    | none => .error (.error (.badOperands left.typeName right.typeName))
  | _, _ => .error (.error (.badOperands left.typeName right.typeName))

end BinaryOp

namespace UnaryOp

/-- An operator before a value. -/
def apply (op : UnaryOp) (v : Value) : Except Interrupt Value :=
  match op, v.number? with
  | not, _ => .ok (.bool !v.truthy)
  | neg, some (.int n) => .ok (.int (-n))
  | neg, some (.double x) => .ok (.double x.neg)
  | neg, none => .error (.error (.badOperand v.typeName))

end UnaryOp

namespace Function

def sqrt : Text := "std::sqrt".toList

def pow : Text := "std::pow".toList

def abs : Text := "std::abs".toList

/-- The functions that expressions may call. -/
def names : List Text := [sqrt, pow, abs]

/-- The value of a function at some arguments. -/
def result? (name : Text) (arguments : List Value) : Option Value :=
  match arguments.mapM Value.number? with
  | some [a] =>
    if name = sqrt then some (.double a.toDouble.sqrt)
    else if name = abs then
      match a with
      | .int n => some (.int (if n < 0 then -n else n))
      | .double x => some (.double x.abs)
    else none
  | some [a, b] => if name = pow then some (.double (a.toDouble.pow b.toDouble)) else none
  | _ => none

/-- A call of a function. -/
def call (name : Text) (arguments : List Value) : Except Interrupt Value :=
  match result? name arguments with
  | some v => .ok v
  | none => .error (.error (.noFunction name))

end Function

/-- The integer that a value counts as where one is needed, for the construct named. -/
def Value.toInt64 (context : Text) (v : Value) : Except Interrupt Int64 :=
  match v.number? with
  | some a => .ok a.toInt64
  | none => .error (.error (.noFunction context))

end Literate

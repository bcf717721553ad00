import Literate.Language.Statement
import Literate.Number.General

/-!
# Values

A value is an integer, a double, a truth value or a string. Truth values count as integers in
arithmetic; strings take no part in it. Integers wrap around at 64 bits.
-/

namespace Literate

/-- A value at run time. -/
inductive Value
  | int (n : Int64)
  | double (x : Double)
  | bool (b : Bool)
  | str (s : Text)
  deriving DecidableEq, Repr

/-- A value that arithmetic applies to. -/
inductive Number
  | int (n : Int64)
  | double (x : Double)
  deriving DecidableEq, Repr

/-- A number as a double, rounded to the nearest. -/
def Number.toDouble : Number → Double
  | int n => .ofInt n.toInt
  | double x => x

/-- A number as an integer, cut off after the point and kept in range. -/
def Number.toInt64 : Number → Int64
  | int n => n
  | double x => x.toInt64

namespace Value

/-- The name of a value's type in messages. -/
def typeName : Value → Text
  | int _ => "int".toList
  | double _ => "double".toList
  | bool _ => "bool".toList
  | str _ => "const char *".toList

/-- Whether a value counts as true: every number but zero, and every string. -/
def truthy : Value → Bool
  | int n => n ≠ 0
  | double x => !x.isZero
  | bool b => b
  | str _ => true

/-- The number that a value counts as, if it is not a string. -/
def number? : Value → Option Number
  | int n => some (.int n)
  | double x => some (.double x)
  | bool b => some (.int (if b then 1 else 0))
  | str _ => none

/-- The text of a value in output. Truth values are words with `boolalpha` and digits without. -/
def render (precision : Nat) (boolalpha : Bool) : Value → Text
  | int n => Decimal.ofInt n.toInt
  | double x => General.write x precision
  | bool b =>
    if boolalpha then (if b then "true".toList else "false".toList)
    else (if b then ['1'] else ['0'])
  | str s => s

/-- A value of every type, that of a variable declared without one. -/
def initial : VarType → Value
  | .double => double .zero
  | .bool => bool false
  | .int | .auto => int 0

/-- The type of a variable whose type is read off its first value. A string keeps the type
`auto`. -/
def varType : Value → VarType
  | int _ => .int
  | double _ => .double
  | bool _ => .bool
  | str _ => .auto

/-- The value converted to the type of a variable, if it can be. -/
def convert? : VarType → Value → Option Value
  | .auto, v => some v
  | .int, int n => some (int n)
  | .int, double x => some (int x.toInt64)
  | .int, bool b => some (int (if b then 1 else 0))
  | .double, int n => some (double (.ofInt n.toInt))
  | .double, double x => some (double x)
  | .double, bool b => some (double (.ofInt (if b then 1 else 0)))
  | .bool, int n => some (bool (int n).truthy)
  | .bool, double x => some (bool (double x).truthy)
  | .bool, bool b => some (bool b)
  | .int, str _ | .double, str _ | .bool, str _ => none

end Value

end Literate

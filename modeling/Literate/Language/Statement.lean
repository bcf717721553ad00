import Literate.Language.Token

/-!
# Statements

A block is a list of statements over expressions. Binary operators bind at six levels; a print
statement names a stream and what to write to it in order.
-/

namespace Literate

/-- The operators between two operands. -/
inductive BinaryOp
  | or | and | eq | ne | le | ge | lt | gt | add | sub | mul | div | rem
  deriving DecidableEq, Repr

namespace BinaryOp

/-- How tightly an operator binds, from the loosest at zero. -/
def level : BinaryOp → Nat
  | or => 0
  | and => 1
  | eq | ne => 2
  | le | ge | lt | gt => 3
  | add | sub => 4
  | mul | div | rem => 5

/-- The symbol that an operator is written with. -/
def symbol : BinaryOp → Symbol
  | or => .pipePipe
  | and => .ampAmp
  | eq => .eqEq
  | ne => .bangEq
  | le => .ltEq
  | ge => .gtEq
  | lt => .lt
  | gt => .gt
  | add => .plus
  | sub => .minus
  | mul => .star
  | div => .slash
  | rem => .percent

/-- The operator that a symbol between two operands stands for. -/
def ofSymbol? : Symbol → Option BinaryOp
  | .pipePipe => some or
  | .ampAmp => some and
  | .eqEq => some eq
  | .bangEq => some ne
  | .ltEq => some le
  | .gtEq => some ge
  | .lt => some lt
  | .gt => some gt
  | .plus => some add
  | .minus => some sub
  | .star => some mul
  | .slash => some div
  | .percent => some rem
  | _ => none

/-- A symbol stands for exactly the operator that is written with it. -/
theorem ofSymbol?_eq_some_iff {s : Symbol} {op : BinaryOp} :
    ofSymbol? s = some op ↔ s = op.symbol := by
  cases s <;> cases op <;> decide

/-- Operators written alike are the same. -/
theorem symbol_injective {a b : BinaryOp} (h : a.symbol = b.symbol) : a = b := by
  revert h; cases a <;> cases b <;> decide

/-- The operators stand on six levels. -/
theorem level_lt_six (op : BinaryOp) : op.level < 6 := by cases op <;> decide

end BinaryOp

/-- The operators before one operand. -/
inductive UnaryOp
  | neg
  | not
  deriving DecidableEq, Repr

/-- An expression. -/
inductive Expr
  | int (value : Int64)
  | double (value : Double)
  | bool (value : Bool)
  | str (value : Text)
  | var (name : Text)
  | unary (op : UnaryOp) (operand : Expr)
  | binary (op : BinaryOp) (left right : Expr)
  | call (name : Text) (arguments : List Expr)
  deriving Repr

/-- The declared type of a variable. A variable of type `auto` is one whose type was to be read
off its first value and which holds a string. -/
inductive VarType
  | int
  | double
  | bool
  | auto
  deriving DecidableEq, Repr

namespace VarType

/-- The type that a word of a declaration names. -/
def ofWord? (word : Text) : Option VarType :=
  if word = "int".toList ∨ word = "long".toList then some int
  else if word = "double".toList ∨ word = "float".toList then some double
  else if word = "bool".toList then some bool
  else if word = "auto".toList then some auto
  else none

/-- The name of a type in messages. -/
def label : VarType → Text
  | int => "int".toList
  | double => "double".toList
  | bool => "bool".toList
  | auto => "auto".toList

end VarType

/-- Where a print statement writes to. -/
inductive Stream
  | out
  | err
  deriving DecidableEq, Repr

/-- One operand of a print statement: a value, a line end, or a change of the number format. -/
inductive Item
  | value (e : Expr)
  | endl
  | boolalpha (on : Bool)
  | precision (e : Expr)
  deriving Repr

/-- A statement. -/
inductive Statement
  | declare (type : VarType) (name : Text) (init : Option Expr)
  /-- An assignment; with an operator, of the variable's value combined with the given one. -/
  | assign (name : Text) (op : Option BinaryOp) (value : Expr)
  | print (stream : Stream) (items : List Item)
  | throw (type : Text) (message : Expr)
  | exit (code : Expr)
  | expr (e : Expr)
  deriving Repr

end Literate

import Literate.Json.Quoted
import Literate.Language.Statement

/-!
# Outlines

The outline of a statement shows its structure: every node is a group in parentheses that begins
with what the node is. Names of variables carry a mark, doubles are shown by their bits, and
strings are quoted.
-/

namespace Literate.Outline

/-- Parts in parentheses, with a space between each two. -/
def group (parts : List Text) : Text :=
  '(' :: List.intercalate [' '] parts ++ [')']

/-- The sixteen hexadecimal digits of 64 bits. -/
def hex (bits : UInt64) : Text :=
  (List.range 16).reverse.map fun i => Nat.digitChar (bits.toNat / Nat.pow 16 i % 16)

mutual

/-- The outline of an expression. -/
def ofExpr : Expr → Text
  | .int n => Decimal.ofInt n.toInt
  | .double x => "f:".toList ++ hex x.bits
  | .bool b => if b then "true".toList else "false".toList
  | .str s => Quoted.quote s
  | .var name => '$' :: name
  | .unary .neg e => group ["neg".toList, ofExpr e]
  | .unary .not e => group ["not".toList, ofExpr e]
  | .binary op l r => group [op.symbol.text, ofExpr l, ofExpr r]
  | .call name arguments => group ("call".toList :: name :: ofExprs arguments)

/-- The outlines of expressions in order. -/
def ofExprs : List Expr → List Text
  | [] => []
  | e :: es => ofExpr e :: ofExprs es

end

/-- The outline of an operand of a print statement. -/
def ofItem : Item → Text
  | .value e => ofExpr e
  | .endl => "endl".toList
  | .boolalpha on => group ["boolalpha".toList, if on then "true".toList else "false".toList]
  | .precision e => group ["precision".toList, ofExpr e]

/-- The name of a stream. -/
def ofStream : Stream → Text
  | .out => "out".toList
  | .err => "err".toList

/-- The sign of an assignment. -/
def ofAssignment : Option BinaryOp → Text
  | none => ['=']
  | some op => op.symbol.text ++ ['=']

/-- The outline of a statement. -/
def ofStatement : Statement → Text
  | .declare type name init =>
    group ["declare".toList, type.label, name, (init.map ofExpr).getD ['_']]
  | .assign name op e => group ["assign".toList, name, ofAssignment op, ofExpr e]
  | .print stream items => group ("print".toList :: ofStream stream :: items.map ofItem)
  | .throw type e => group ["throw".toList, type, ofExpr e]
  | .exit e => group ["exit".toList, ofExpr e]
  | .expr e => group ["expr".toList, ofExpr e]

end Literate.Outline

import Literate.Number.Double

/-!
# Tokens

A block of statements is a sequence of names, literals and symbols. A symbol is known by its
text.
-/

namespace Literate

/-- Operators and punctuation. -/
inductive Symbol
  | shl | plusEq | minusEq | starEq | slashEq | eqEq | bangEq | ltEq | gtEq | ampAmp | pipePipe
  | plus | minus | star | slash | percent | eq | lt | gt | bang | lparen | rparen | comma | semi
  deriving DecidableEq, Repr

namespace Symbol

/-- All symbols, those of two characters before those of one, so that the first whose text begins
an input is the longest. -/
def all : List Symbol :=
  [.shl, .plusEq, .minusEq, .starEq, .slashEq, .eqEq, .bangEq, .ltEq, .gtEq, .ampAmp, .pipePipe,
    .plus, .minus, .star, .slash, .percent, .eq, .lt, .gt, .bang, .lparen, .rparen, .comma, .semi]

/-- How a symbol is written. -/
def text : Symbol → Text
  | shl => ['<', '<']
  | plusEq => ['+', '=']
  | minusEq => ['-', '=']
  | starEq => ['*', '=']
  | slashEq => ['/', '=']
  | eqEq => ['=', '=']
  | bangEq => ['!', '=']
  | ltEq => ['<', '=']
  | gtEq => ['>', '=']
  | ampAmp => ['&', '&']
  | pipePipe => ['|', '|']
  | plus => ['+']
  | minus => ['-']
  | star => ['*']
  | slash => ['/']
  | percent => ['%']
  | eq => ['=']
  | lt => ['<']
  | gt => ['>']
  | bang => ['!']
  | lparen => ['(']
  | rparen => [')']
  | comma => [',']
  | semi => [';']

end Symbol

/-- A word of the statement language. -/
inductive Token
  /-- A name, possibly qualified, such as `x` or `std::cout`. -/
  | name (name : Text)
  | int (value : Int64)
  | double (value : Double)
  /-- A string literal, with its escapes resolved. -/
  | str (value : Text)
  | sym (symbol : Symbol)
  deriving DecidableEq, Repr

end Literate

import Literate.Document.Example

/-!
# Requests

A request carries the code of one example. Before it runs it is prepared: lines that begin with
the directive are definitions, and the others are one block after a statement that sets the number
format. A last line that is not ended by a semicolon is an expression, and its value is printed.
-/

namespace Literate

/-- The code of one example on its way to an engine. -/
structure Request where
  code : Text
  deriving DecidableEq, Repr

/-- The request of an example. -/
def Request.ofExample (e : Example) : Request :=
  ⟨e.source⟩

/-- Definitions for an engine, and the block that it executes after them. -/
structure Prepared where
  definitions : List Text
  block : Text
  deriving DecidableEq, Repr

/-- How requests are prepared. -/
structure Preparation where
  /-- What a line begins with that is a definition. -/
  directive : Text := "#include".toList
  /-- A definition that is made for every request, after its own. -/
  baseline : Text := "#include <iostream>".toList
  /-- The number of significant digits in output. -/
  precision : Nat := 6
  deriving DecidableEq, Repr

namespace Preparation

/-- The statement that sets the number format before every block. -/
def formatStatement (p : Preparation) : Text :=
  "std::cout << std::setprecision(".toList ++ Decimal.ofNat p.precision ++ ");".toList

/-- The statement that sets the number format is complete. -/
theorem getLast?_formatStatement (p : Preparation) : p.formatStatement.getLast? = some ';' := by
  have hend : p.formatStatement =
      ("std::cout << std::setprecision(".toList ++ Decimal.ofNat p.precision ++ [')']) ++ [';'] := by
    rw [List.append_assoc _ [')']]
    rfl
  rw [hend, List.getLast?_concat]

/-- Whether a line is a definition. -/
def isDefinition (p : Preparation) (line : Text) : Bool :=
  p.directive.isPrefixOf line

/-- A line as a complete statement. One that does not end in a semicolon is printed. -/
def completed (line : Text) : Text :=
  if line.getLast? = some ';' then line
  else "std::cout << std::boolalpha << (".toList ++ line ++ ");".toList

/-- Completes the last of some lines. -/
def completeLast : List Text → List Text
  | [] => []
  | [line] => [completed line]
  | line :: rest => line :: completeLast rest

/-- The definitions of some lines, with the one that is always made. -/
def definitions (p : Preparation) (lines : List Text) : List Text :=
  lines.filter p.isDefinition ++ [p.baseline]

/-- The statements of some lines, after the one that is always run. Empty lines are left out. -/
def statements (p : Preparation) (lines : List Text) : List Text :=
  p.formatStatement :: lines.filter fun line => line ≠ [] && !p.isDefinition line

/-- Prepares a request. -/
def prepare (p : Preparation) (r : Request) : Prepared where
  definitions := p.definitions (r.code.splitOn '\n')
  block := Text.unlines (completeLast (p.statements (r.code.splitOn '\n')))

end Preparation

end Literate

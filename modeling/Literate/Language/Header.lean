import Literate.Text.Blank

/-!
# Include directives

A definition is an include directive for one of the headers that the language comes with.
-/

namespace Literate

/-- Why a definition is refused. -/
inductive DefineError
  | notDirective (found : Text)
  | badTarget
  | unknownHeader (name : Text)
  deriving DecidableEq, Repr

def DefineError.message : DefineError → Text
  | notDirective found =>
    "error: expected a preprocessor directive, found '".toList ++ found ++ "'".toList
  | badTarget => "error: expected \"FILENAME\" or <FILENAME>".toList
  | unknownHeader name => "fatal error: '".toList ++ name ++ "' file not found".toList

namespace Header

/-- The headers that may be included. -/
def names : List Text :=
  ["iostream".toList, "iomanip".toList, "cmath".toList, "string".toList, "stdexcept".toList,
    "cstdlib".toList, "vector".toList, "sstream".toList, "limits".toList]

/-- The text between two given characters that a text begins and ends with. -/
def between? (first last : Char) (t : Text) : Option Text :=
  (Text.after? [first] t).bind (Text.before? [last])

/-- The header that the target of a directive names, in angle brackets or in quotes. -/
def ofTarget? (target : Text) : Option Text :=
  (between? '<' '>' target).or (between? '"' '"' target)

/-- The header that a definition includes. -/
def ofDefinition (source : Text) : Except DefineError Text :=
  match Text.after? "#include".toList source.trim with
  | none => .error (.notDirective source.trim)
  | some target =>
    match ofTarget? target.trim with
    | none => .error .badTarget
    | some name => if names.contains name then .ok name else .error (.unknownHeader name)

end Header

end Literate

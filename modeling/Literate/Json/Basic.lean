import Literate.Json.Quoted
import Literate.Number.Decimal

/-!
# JSON values

A JSON value as it is written, but for the white space: numbers and strings keep their text. A
value is written on one line, or over several with an indentation of two spaces a level.
-/

namespace Literate

/-- A JSON value. -/
inductive Json
  | null
  | bool (b : Bool)
  /-- A number, by its text. -/
  | number (literal : Text)
  /-- A string, by the text between its quotation marks. -/
  | string (body : Text)
  | array (elements : List Json)
  /-- An object, each of its keys by the text between its quotation marks. -/
  | object (members : List (Text × Json))
  deriving Repr

namespace Json

/-- The string of a text. -/
def ofText (t : Text) : Json :=
  string (Quoted.escape t)

/-- The number of a count. -/
def ofNat (n : Nat) : Json :=
  number (Decimal.ofNat n)

/-- The array of some texts. -/
def ofTexts (ts : List Text) : Json :=
  array (ts.map ofText)

/-- A key and a value. -/
def member (key : String) (value : Json) : Text × Json :=
  (Quoted.escape key.toList, value)

/-- The text that a string stands for, if the value is one. -/
def text? : Json → Option Text
  | string body => Quoted.unescape? body
  | _ => none

/-- A string between quotation marks. -/
def quoted (body : Text) : Text :=
  '"' :: body ++ ['"']

mutual

/-- A value on one line, without white space. -/
def write : Json → Text
  | null => "null".toList
  | bool b => if b then "true".toList else "false".toList
  | number literal => literal
  | string body => quoted body
  | array elements => '[' :: List.intercalate [','] (writeElements elements) ++ [']']
  | object members => '{' :: List.intercalate [','] (writeMembers members) ++ ['}']

/-- Each element on one line. -/
def writeElements : List Json → List Text
  | [] => []
  | e :: rest => e.write :: writeElements rest

/-- Each key and value on one line. -/
def writeMembers : List (Text × Json) → List Text
  | [] => []
  | (key, v) :: rest => (quoted key ++ ':' :: v.write) :: writeMembers rest

end

/-- The beginning of a line inside some levels. -/
def newLine (level : Nat) : Text :=
  '\n' :: List.replicate (2 * level) ' '

/-- Texts on lines of their own inside one more level, between two brackets. -/
def enclose (first last : Char) (level : Nat) : List Text → Text
  | [] => [first, last]
  | ts =>
    first :: newLine (level + 1) ++ List.intercalate (',' :: newLine (level + 1)) ts ++
      newLine level ++ [last]

mutual

/-- A value over several lines, inside some levels. -/
def layout (level : Nat) : Json → Text
  | array elements => enclose '[' ']' level (layoutElements (level + 1) elements)
  | object members => enclose '{' '}' level (layoutMembers (level + 1) members)
  | null => "null".toList
  | bool b => if b then "true".toList else "false".toList
  | number literal => literal
  | string body => quoted body

/-- Each element over several lines. -/
def layoutElements (level : Nat) : List Json → List Text
  | [] => []
  | e :: rest => e.layout level :: layoutElements level rest

/-- Each key and value over several lines. -/
def layoutMembers (level : Nat) : List (Text × Json) → List Text
  | [] => []
  | (key, v) :: rest =>
    (quoted key ++ ": ".toList ++ v.layout level) :: layoutMembers level rest

end

end Json

end Literate

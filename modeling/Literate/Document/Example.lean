import Literate.Document.Zone
import Literate.Text.Blank

/-!
# Examples

An example is a run of code lines under one indentation, followed by the lines of output that are
expected of it, each under the same indentation and a marker. Blank lines and bare comment signs
separate examples.
-/

namespace Literate

/-- One runnable example. -/
structure Example where
  /-- What begins every line of the example and is left out of the lines below. -/
  indent : Text
  /-- The lines of code. -/
  snippet : List Text
  /-- The lines of expected output, without their marker. -/
  expected : List Text
  /-- The number of the first line of code. -/
  line : Nat
  deriving DecidableEq, Repr

namespace Example

/-- The code as one text. -/
def source (e : Example) : Text :=
  Text.unlines e.snippet

/-- The expected output as one text. -/
def expectedText (e : Example) : Text :=
  Text.unlines e.expected

/-- A short name of an example for messages. -/
def display (e : Example) : Text :=
  "example at line ".toList ++ Decimal.ofNat e.line ++ " (`".toList ++
    (e.snippet.headD []).trim ++ "`".toList ++
    (if 1 < e.snippet.length then " ...".toList else []) ++ ")".toList

/-- The sign of a comment line. -/
def sigil : Text := ['/', '/', '/']

/-- What introduces a line of expected output. -/
def marker : Text := ['/', '/', ' ', '-', '>', ' ']

/-- The marker of an empty line of output, whose last space may be missing. -/
def bareMarker : Text := ['/', '/', ' ', '-', '>']

/-- A line without code: blank, or a comment sign alone. -/
def isFiller (line : Text) : Bool :=
  line.trim = [] || line.trim = sigil

/-- The indentation of a line: spaces and tabs, and with them a comment sign that a space
follows and the spaces and tabs after it. -/
def indentOf (line : Text) : Text :=
  let leading := line.takeWhile Text.isIndent
  match Text.after? sigil (line.dropWhile Text.isIndent) with
  | some (' ' :: rest) => leading ++ sigil ++ ' ' :: rest.takeWhile Text.isIndent
  | _ => leading

/-- The expected output that a line holds under an indentation, if it is a marker line. -/
def expectation? (indent line : Text) : Option Text :=
  match Text.after? indent line with
  | none => none
  | some rest => (Text.after? marker rest).or (if rest = bareMarker then some [] else none)

/-- The code that a line holds under an indentation, if it is neither without code nor a marker
line. -/
def code? (indent line : Text) : Option Text :=
  if isFiller line ∨ (expectation? indent line).isSome then none else Text.after? indent line

/-- The values of the longest beginning of a list on which a function is defined. -/
def takeSome {α β : Type} (f : α → Option β) : List α → List β
  | [] => []
  | a :: rest =>
    match f a with
    | some b => b :: takeSome f rest
    | none => []

/-- The list from the first element on at which a function is not defined. -/
def dropSome {α β : Type} (f : α → Option β) : List α → List α
  | [] => []
  | a :: rest => if (f a).isSome then dropSome f rest else a :: rest

private theorem length_dropSome_le {α β : Type} (f : α → Option β) (l : List α) :
    (dropSome f l).length ≤ l.length := by
  induction l with
  | nil => simp [dropSome]
  | cons a rest ih =>
    unfold dropSome
    split
    · simp only [List.length_cons]; omega
    · exact Nat.le_refl _

/-- The examples of some lines, the first of which has the given number. Expected output that
follows no code is an error. -/
def ofLines (number : Nat) : List Text → Except ExtractError (List Example)
  | [] => .ok []
  | line :: rest =>
    if isFiller line then ofLines (number + 1) rest
    else
      match expectation? (indentOf line) line with
      | some text => .error (.orphanExpectation number text)
      | none =>
        let indent := indentOf line
        let snippet := line.drop indent.length :: takeSome (code? indent) rest
        let afterCode := dropSome (code? indent) rest
        let expected := takeSome (expectation? indent) afterCode
        let later := dropSome (expectation? indent) afterCode
        (ofLines (number + snippet.length + expected.length) later).map
          fun others => ⟨indent, snippet, expected, number⟩ :: others
termination_by lines => lines.length
decreasing_by
  · simp
  · have h1 := length_dropSome_le (code? (indentOf line)) rest
    have h2 := length_dropSome_le (expectation? (indentOf line))
      (dropSome (code? (indentOf line)) rest)
    simp only [List.length_cons]
    omega

/-- The examples of a zone. -/
def ofZone (z : Zone) : Except ExtractError (List Example) :=
  ofLines z.line z.text.lines

end Example

end Literate

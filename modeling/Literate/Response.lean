import Literate.Fault
import Literate.Text.Blank

/-!
# Responses and verdicts

A response is what the code of one request wrote, and the fault it ended in. Its verdict is one
text, which matches the expected lines of an example if they agree up to blanks at line ends and
empty lines at the end.
-/

namespace Literate

/-- What running one request produced. -/
structure Response where
  stdout : Text := []
  stderr : Text := []
  fault : Option Fault := none
  deriving DecidableEq, Repr

namespace Verdict

/-- The error stream, the output and the message of the fault, as far as they are not empty, with
a blank line between each two. -/
def ofResponse (r : Response) : Text :=
  List.intercalate ['\n', '\n']
    ([r.stderr, r.stdout, (r.fault.map Fault.message).getD []].filter (· ≠ []))

/-- A text without blanks at line ends and without empty lines at its end. -/
def normalize (t : Text) : Text :=
  Text.unlines (((t.lines.map Text.trimEnd).reverse.dropWhile (· = [])).reverse)

/-- Whether a verdict is the expected one. Where no lines are expected, only an empty verdict
is. -/
def accepts (verdict : Text) (expected : List Text) : Bool :=
  normalize verdict = normalize (Text.unlines expected)

end Verdict

end Literate

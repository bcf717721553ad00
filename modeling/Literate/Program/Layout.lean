import Literate.Program.Report
import Literate.Program.Style

/-!
# Reports for a reader

A report is laid out in lines. Its parts have styles, which are written where colours are on.
-/

namespace Literate

/-- A report as it is written for a reader, line by line. -/
abbrev Lines := List Text

/-- Lines with a line feed after each. -/
def Lines.text (ls : Lines) : Text :=
  ls.flatMap fun l => l ++ ['\n']

namespace Layout

variable (colours : Bool)

def errorLabel : Text := Style.boldRed.paint colours "error".toList

def warningLabel : Text := Style.boldYellow.paint colours "warning".toList

def passMark : Text := Style.green.paint colours "✓".toList

def failMark : Text := Style.red.paint colours "✗".toList

def skipMark : Text := Style.yellow.paint colours "-".toList

def path (p : Text) : Text := Style.underlined.paint colours p

/-- A line number in the text of a report. -/
def lineText (n : Nat) : Text := "line ".toList ++ Decimal.ofNat n

def lineRef (n : Nat) : Text := Style.dimmed.paint colours (lineText n)

/-- Code in quotation marks. -/
def code (t : Text) : Text := Style.cyan.paint colours ("`".toList ++ t ++ "`".toList)

/-- The beginning of every line about an example or a problem: a mark. -/
def marked (mark rest : Text) : Text := "  ".toList ++ mark ++ ' ' :: rest

/-- A label and a text, whose further lines stand under its first. -/
def block (label t : Text) : Lines :=
  let lines := t.lines
  ("      ".toList ++ label ++ ' ' :: lines.headD []) ::
    lines.tail.map fun l => List.replicate 16 ' ' ++ l

/-- The lines about one example. -/
def exampleLines (e : ExampleReport) : Lines :=
  let shown := lineRef colours e.line ++ ": ".toList ++ code colours (e.source.lines.headD [])
  match e.outcome with
  | .passed => [marked (passMark colours) shown]
  | .failed actual =>
    marked (failMark colours) shown ::
      (block (Style.green.paint colours "expected:".toList) e.expected ++
        block (Style.red.paint colours "actual:  ".toList) actual)
  | .crashed message =>
    [marked (failMark colours)
      (lineRef colours e.line ++ ": ".toList ++ Style.red.paint colours message)]
  | .notRun =>
    [marked (skipMark colours) (lineRef colours e.line ++ ": not run".toList)]

/-- The lines about one document. -/
def document (d : DocumentReport) : Lines :=
  path colours d.path :: d.problems.map (fun p => marked (failMark colours) p.message) ++
    d.examples.flatMap (exampleLines colours) ++ [[]]

/-- A count with what it counts. -/
def counted (n : Nat) (what : String) : Text :=
  Decimal.ofNat n ++ ' ' :: what.toList

/-- The lines about what failed in one document. -/
def failures (d : DocumentReport) : Lines :=
  d.problems.map (fun p =>
      marked (failMark colours) (path colours d.path ++ " - ".toList ++ p.message)) ++
    (d.examples.filter (·.outcome.isFailure)).map fun e =>
      marked (failMark colours) (path colours d.path ++ ':' :: Decimal.ofNat e.line)

/-- The lines about a whole run. -/
def summary (s : Summary) (ds : List DocumentReport) : Lines :=
  let failedStyle := if 0 < s.failed then Style.red else Style.plain
  let notRunStyle := if 0 < s.notRun then Style.yellow else Style.plain
  [Style.dimmed.paint colours (List.replicate 50 '─'),
    List.intercalate ", ".toList
      [counted s.files "files", counted s.total "examples",
        Style.green.paint colours (counted s.passed "passed"),
        failedStyle.paint colours (counted s.failed "failed"),
        notRunStyle.paint colours (counted s.notRun "not run")]] ++
    (if 0 < s.failed then
      [[], Style.boldRed.paint colours "Failed examples:".toList] ++ ds.flatMap (failures colours)
    else [])

/-- The lines about one example of a document that is not run. -/
def extracted (e : Example) : Lines :=
  [[], Style.boldYellow.paint colours (lineText e.line)] ++
    e.snippet.map (fun l => "    ".toList ++ l) ++
    e.expected.map (fun l => "    -> ".toList ++ l)

/-- The lines about the zones and examples of a document. -/
def extraction (shownPath : Text) (delimiters : Delimiters) (zones : List Zone)
    (found : Extraction) : Lines :=
  let spaced := delimiters.describe.map fun c => if c = '\n' then ' ' else c
  [path colours shownPath,
    counted zones.length "zones" ++ ", ".toList ++ counted found.examples.length "examples" ++
      " (".toList ++ spaced ++ ")".toList] ++
    found.examples.flatMap (extracted colours) ++
    found.errors.flatMap fun e => [[], warningLabel colours ++ ": ".toList ++ e.message]

end Layout

end Literate

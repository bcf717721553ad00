import Literate.Json.Basic
import Literate.Program.Report

/-!
# Reports for a program

A report is one JSON value, whose fields stand in a fixed order.
-/

namespace Literate.Record

/-- The status of an outcome, and what goes with it. -/
def outcome : Outcome → List (Text × Json)
  | .passed => [Json.member "status" (.ofText "passed".toList)]
  | .failed actual =>
    [Json.member "status" (.ofText "failed".toList), Json.member "actual" (.ofText actual)]
  | .crashed message =>
    [Json.member "status" (.ofText "crashed".toList), Json.member "message" (.ofText message)]
  | .notRun => [Json.member "status" (.ofText "not_run".toList)]

def exampleReport (e : ExampleReport) : Json :=
  .object <|
    [Json.member "line" (.ofNat e.line), Json.member "source" (.ofText e.source),
      Json.member "expected" (.ofText e.expected)] ++ outcome e.outcome

def problem (p : Problem) : Json :=
  .object [Json.member "line" ((p.line.map Json.ofNat).getD .null),
    Json.member "message" (.ofText p.message)]

def document (d : DocumentReport) : Json :=
  .object [Json.member "path" (.ofText d.path),
    Json.member "examples" (.array (d.examples.map exampleReport)),
    Json.member "problems" (.array (d.problems.map problem))]

def summary (s : Summary) : Json :=
  .object [Json.member "files" (.ofNat s.files), Json.member "total" (.ofNat s.total),
    Json.member "passed" (.ofNat s.passed), Json.member "failed" (.ofNat s.failed),
    Json.member "not_run" (.ofNat s.notRun)]

/-- The report of a test run. -/
def run (ds : List DocumentReport) (s : Summary) : Json :=
  .object [Json.member "documents" (.array (ds.map document)), Json.member "summary" (summary s)]

def zone (z : Zone) : Json :=
  .object [Json.member "marker" (.ofText z.marker), Json.member "text" (.ofText z.text),
    Json.member "span" (.object
      [Json.member "start" (.ofNat z.start), Json.member "end" (.ofNat z.stop)]),
    Json.member "line" (.ofNat z.line)]

def extracted (e : Example) : Json :=
  .object [Json.member "indent" (.ofText e.indent), Json.member "snippet" (.ofTexts e.snippet),
    Json.member "expected" (.ofTexts e.expected), Json.member "line" (.ofNat e.line)]

/-- The zones and examples of a document. -/
def extraction (path : Text) (delimiters : Delimiters) (zones : List Zone)
    (found : Extraction) : Json :=
  .object [Json.member "path" (.ofText path),
    Json.member "delimiters" (.ofText delimiters.describe),
    Json.member "zones" (.array (zones.map zone)),
    Json.member "examples" (.array (found.examples.map extracted)),
    Json.member "errors" (.array (found.errors.map fun e => problem (.ofError e)))]

end Literate.Record

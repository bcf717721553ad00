import Literate.Document.Extraction
import Literate.Session.Basic

/-!
# Reports of a test run

What came of each example of each document, and how often. An example passes if its verdict is the
expected one. After the worker is lost, the remaining examples of the document are not run.
-/

namespace Literate

/-- What came of one example. -/
inductive Outcome
  | passed
  | failed (actual : Text)
  /-- The worker was lost while the example ran. -/
  | crashed (message : Text)
  /-- The worker had been lost before. -/
  | notRun
  deriving DecidableEq, Repr

/-- Whether an outcome counts as a failure. An example that was not run does not. -/
def Outcome.isFailure : Outcome → Bool
  | failed _ | crashed _ => true
  | passed | notRun => false

/-- What came of an example, with its code and the expected output. -/
structure ExampleReport where
  line : Nat
  source : Text
  expected : Text
  outcome : Outcome
  deriving DecidableEq, Repr

/-- The report on an example. -/
def ExampleReport.of (e : Example) (outcome : Outcome) : ExampleReport :=
  ⟨e.line, e.source, e.expectedText, outcome⟩

/-- What is wrong with a document, at a line or as a whole. -/
structure Problem where
  line : Option Nat
  message : Text
  deriving DecidableEq, Repr

/-- The problem that an error of extraction is. -/
def Problem.ofError (e : ExtractError) : Problem :=
  ⟨some e.line, e.message⟩

/-- What came of a document. -/
structure DocumentReport where
  path : Text
  examples : List ExampleReport := []
  problems : List Problem := []
  deriving DecidableEq, Repr

/-- The number of problems of a document and of examples in it that fail. -/
def DocumentReport.failures (d : DocumentReport) : Nat :=
  d.problems.length + d.examples.countP (·.outcome.isFailure)

/-- The counts of a test run. -/
structure Summary where
  files : Nat := 0
  total : Nat := 0
  passed : Nat := 0
  failed : Nat := 0
  notRun : Nat := 0
  deriving DecidableEq, Repr

namespace Summary

/-- Counts one example. -/
def countExample (s : Summary) (e : ExampleReport) : Summary :=
  match e.outcome with
  | .passed => { s with total := s.total + 1, passed := s.passed + 1 }
  | .notRun => { s with total := s.total + 1, notRun := s.notRun + 1 }
  | .failed _ | .crashed _ => { s with total := s.total + 1, failed := s.failed + 1 }

/-- Counts one document. Its problems are failures. -/
def count (s : Summary) (d : DocumentReport) : Summary :=
  d.examples.foldl countExample
    { s with files := s.files + 1, failed := s.failed + d.problems.length }

/-- The counts of some documents. -/
def ofDocuments (ds : List DocumentReport) : Summary :=
  ds.foldl count {}

/-- A run succeeds if nothing failed. -/
def success (s : Summary) : Bool :=
  s.failed = 0

end Summary

/-- What comes of examples run in order. Once the channel has failed, no more are run. -/
def Session.outcomes {τ : Type} [Transport τ] (s : Session τ) : List Example → List Outcome
  | [] => []
  | e :: rest =>
    match s.run e with
    | (.ok verdict, s) =>
      (if Verdict.accepts verdict e.expected then .passed else .failed verdict) :: outcomes s rest
    | (.error cause, _) => .crashed cause.message :: rest.map fun _ => .notRun

end Literate

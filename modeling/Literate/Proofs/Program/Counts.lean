import Mathlib.Algebra.BigOperators.Group.List.Basic
import Mathlib.Algebra.Order.BigOperators.Group.List
import Mathlib.Algebra.Order.Ring.Nat
import Literate.Program.Report

/-!
# The counts of a run

A summary counts documents, and their examples by outcome, one after another. Each example counts
once, under its outcome, and a problem of a document counts as a failure. What has failed in the
summary is what fails in the documents.
-/

namespace Literate

namespace Outcome

@[simp] theorem isFailure_passed : passed.isFailure = false := rfl

@[simp] theorem isFailure_failed (actual : Text) : (failed actual).isFailure = true := rfl

@[simp] theorem isFailure_crashed (message : Text) : (crashed message).isFailure = true := rfl

@[simp] theorem isFailure_notRun : notRun.isFailure = false := rfl

end Outcome

namespace DocumentReport

/-- The number of examples of a document that pass. -/
def passed (d : DocumentReport) : Nat :=
  d.examples.countP (·.outcome = .passed)

/-- The number of examples of a document that are not run. -/
def notRun (d : DocumentReport) : Nat :=
  d.examples.countP (·.outcome = .notRun)

private theorem countP_outcomes (es : List ExampleReport) :
    es.countP (·.outcome = .passed) + es.countP (·.outcome = .notRun) +
      es.countP (·.outcome.isFailure) = es.length := by
  induction es with
  | nil => rfl
  | cons e rest ih =>
    simp only [List.countP_cons, List.length_cons]
    cases e.outcome <;> simp <;> omega

/-- Each example of a document passes, is not run, or is among the failures, which count the
problems as well. -/
theorem passed_add_notRun_add_failures (d : DocumentReport) :
    d.passed + d.notRun + d.failures = d.examples.length + d.problems.length := by
  have hexamples := countP_outcomes d.examples
  rw [passed, notRun, failures]
  omega

/-- A document has no failure exactly if it has no problem and no example fails. -/
theorem failures_eq_zero_iff (d : DocumentReport) :
    d.failures = 0 ↔ d.problems = [] ∧ ∀ e ∈ d.examples, e.outcome.isFailure = false := by
  rw [failures, Nat.add_eq_zero_iff, List.length_eq_zero_iff, List.countP_eq_zero]
  simp only [Bool.not_eq_true]

end DocumentReport

namespace Summary

/-- What counting examples one by one adds to a summary. -/
theorem foldl_countExample (s : Summary) (es : List ExampleReport) :
    es.foldl countExample s =
      ⟨s.files, s.total + es.length, s.passed + es.countP (·.outcome = .passed),
        s.failed + es.countP (·.outcome.isFailure),
        s.notRun + es.countP (·.outcome = .notRun)⟩ := by
  induction es generalizing s with
  | nil => rfl
  | cons e rest ih =>
    rw [List.foldl_cons, ih]
    simp only [List.countP_cons, List.length_cons]
    cases h : e.outcome <;> simp [countExample, h] <;> omega

/-- What one document adds to a summary. -/
theorem count_eq (s : Summary) (d : DocumentReport) :
    s.count d = ⟨s.files + 1, s.total + d.examples.length, s.passed + d.passed,
      s.failed + d.failures, s.notRun + d.notRun⟩ := by
  rw [count, foldl_countExample, DocumentReport.failures, ← Nat.add_assoc]
  rfl

/-- What counting documents one by one adds to a summary. -/
theorem foldl_count (s : Summary) (ds : List DocumentReport) :
    ds.foldl count s =
      ⟨s.files + ds.length, s.total + (ds.map (·.examples.length)).sum,
        s.passed + (ds.map DocumentReport.passed).sum,
        s.failed + (ds.map DocumentReport.failures).sum,
        s.notRun + (ds.map DocumentReport.notRun).sum⟩ := by
  induction ds generalizing s with
  | nil => rfl
  | cons d rest ih =>
    rw [List.foldl_cons, ih, count_eq]
    simp only [List.map_cons, List.sum_cons, List.length_cons, Nat.add_assoc, Nat.add_comm 1]

/-- A summary has of its documents how many there are, and how many examples of each outcome. -/
theorem ofDocuments_eq (ds : List DocumentReport) :
    ofDocuments ds =
      ⟨ds.length, (ds.map (·.examples.length)).sum, (ds.map DocumentReport.passed).sum,
        (ds.map DocumentReport.failures).sum, (ds.map DocumentReport.notRun).sum⟩ := by
  rw [ofDocuments, foldl_count]
  simp only [Nat.zero_add]

/-- The counts by outcome add up to the examples and the problems. -/
theorem passed_add_notRun_add_failed (ds : List DocumentReport) :
    (ofDocuments ds).passed + (ofDocuments ds).notRun + (ofDocuments ds).failed =
      (ofDocuments ds).total + (ds.map (·.problems.length)).sum := by
  simp only [ofDocuments_eq, ← List.sum_map_add, DocumentReport.passed_add_notRun_add_failures]

/-- A run succeeds where none of its documents has a failure. -/
theorem success_ofDocuments (ds : List DocumentReport) :
    (ofDocuments ds).success = true ↔ ∀ d ∈ ds, d.failures = 0 := by
  have hfailed : (ofDocuments ds).failed = (ds.map DocumentReport.failures).sum := by
    rw [ofDocuments_eq]
  rw [success, decide_eq_true_iff, hfailed, List.sum_eq_zero_iff, List.forall_mem_map]

end Summary

end Literate

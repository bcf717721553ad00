import Literate.Program.Commands
import Literate.Proofs.Program.Counts
import Literate.Proofs.Session.Transparency
import Literate.Session.Peer

/-!
# The report of a run is honest

Whatever the workers do, the report on a document has one entry for every example found in it, in
order. The entries are verdicts up to the loss of the worker, if it is lost, and from there on
examples that are not run. An example passes where its verdict is the expected one and nowhere else.
Since an example is not run only after a failure, a run without failures is one in which every
example passes.
-/

namespace Literate

namespace Outcome

/-- Verdicts, up to the end or to the loss of the worker, after which nothing is run. -/
inductive Sequence : List Outcome → Prop
  | nil : Sequence []
  | passed {rest : List Outcome} (h : Sequence rest) : Sequence (passed :: rest)
  | failed (actual : Text) {rest : List Outcome} (h : Sequence rest) :
      Sequence (failed actual :: rest)
  | crashed (message : Text) (n : Nat) : Sequence (crashed message :: List.replicate n notRun)

/-- An example that is not run comes after a failure, so without failures every example passes. -/
theorem Sequence.eq_passed {os : List Outcome} (h : Sequence os)
    (hos : ∀ o ∈ os, o.isFailure = false) : ∀ o ∈ os, o = .passed := by
  induction h with
  | nil => simp
  | passed _ ih =>
    obtain ⟨-, hrest⟩ := List.forall_mem_cons.mp hos
    exact List.forall_mem_cons.mpr ⟨rfl, ih hrest⟩
  | failed actual => simpa using hos (.failed actual) List.mem_cons_self
  | crashed message => simpa using hos (.crashed message) List.mem_cons_self

/-- What comes of an example of which a session says something. -/
def of (e : Example) : Except SessionError Text → Outcome
  | .ok verdict => if Verdict.accepts verdict e.expected then passed else failed verdict
  | .error .notRunning => notRun
  | .error cause => crashed cause.message

/-- An example passes exactly if there is a verdict on it and that is accepted. -/
theorem of_eq_passed_iff {e : Example} {said : Except SessionError Text} :
    of e said = passed ↔
      ∃ verdict, said = .ok verdict ∧ Verdict.accepts verdict e.expected = true := by
  rcases said with cause | verdict
  · cases cause <;> simp [of]
  · simp [of]

end Outcome

namespace Session

variable {τ : Type} [Transport τ] {s : Session τ}

/-- A session that is running has a verdict on an example and goes on, or is over. -/
theorem run_cases (hs : s.running = true) (e : Example) :
    (∃ verdict channel, s.run e = (.ok verdict, ⟨channel, true⟩)) ∨
      ∃ cause channel, s.run e = (.error (.crashed e.display cause), ⟨channel, false⟩) := by
  rcases hx : exchange (.ofExample e) s.channel with ⟨cause | response, channel⟩
  · exact .inr ⟨cause, Transport.shutdown channel, by simp [run, hs, hx, shutdown]⟩
  · exact .inl ⟨Verdict.ofResponse response, channel, by simp [run, hs, hx]⟩

private theorem length_runAll (s : Session τ) (es : List Example) :
    (s.runAll es).1.length = es.length := by
  induction es generalizing s with
  | nil => rfl
  | cons e rest ih => exact congrArg (· + 1) (ih _)

/-- The outcomes of a session are verdicts up to the loss of its worker. -/
theorem sequence_outcomes (s : Session τ) (es : List Example) :
    Outcome.Sequence (s.outcomes es) := by
  induction es generalizing s with
  | nil => exact .nil
  | cons e rest ih =>
    unfold outcomes
    split
    · split
      · exact (ih _).passed
      · exact (ih _).failed _
    · rw [List.map_const']
      exact .crashed _ _

/-- The outcomes of examples are those of what the session says of them. -/
theorem outcomes_eq_zipWith (hs : s.running = true) (es : List Example) :
    s.outcomes es = List.zipWith Outcome.of es (s.runAll es).1 := by
  induction es generalizing s with
  | nil => rfl
  | cons e rest ih =>
    obtain ⟨verdict, channel, hrun⟩ | ⟨cause, channel, hrun⟩ := run_cases hs e
    · have hrest := ih (s := ⟨channel, true⟩) rfl
      simp only [outcomes, runAll, hrun, List.zipWith_cons_cons, hrest, Outcome.of]
    · have hrest : List.zipWith Outcome.of rest (rest.map fun _ => .error .notRunning) =
          rest.map fun _ => .notRun := by
        rw [List.zipWith_map_right, List.zipWith_self]
        rfl
      simp only [outcomes, runAll, hrun, runAll_of_not_running, List.zipWith_cons_cons, hrest,
        Outcome.of]

private theorem length_outcomes (hs : s.running = true) (es : List Example) :
    (s.outcomes es).length = es.length := by
  rw [outcomes_eq_zipWith hs, List.length_zipWith, length_runAll, Nat.min_self]

end Session

namespace DocumentReport

/-- A report on a document that is honest about what was found in it and what the session said of
the examples, in order. -/
structure Honest (found : Extraction) (said : List (Except SessionError Text))
    (d : DocumentReport) : Prop where
  /-- Every error of extraction is a problem. -/
  problems : d.problems = found.errors.map Problem.ofError
  /-- There is one entry for each example. -/
  examples : d.examples.map (fun r => (r.line, r.source, r.expected)) =
    found.examples.map fun e => (e.line, e.source, e.expectedText)
  outcomes : d.examples.map (·.outcome) = List.zipWith Outcome.of found.examples said
  sequence : Outcome.Sequence (d.examples.map (·.outcome))
  /-- An example passes where there is a verdict that is the expected one. -/
  passed : ∀ (k : Nat) (e : Example) (r : ExampleReport), found.examples[k]? = some e →
    d.examples[k]? = some r → (r.outcome = .passed ↔
      ∃ verdict, said[k]? = some (.ok verdict) ∧ Verdict.accepts verdict e.expected = true)

/-- The entries of a report whose outcomes come in sequence all pass if nothing fails. -/
theorem failures_eq_zero_iff_passed {d : DocumentReport}
    (h : Outcome.Sequence (d.examples.map (·.outcome))) :
    d.failures = 0 ↔ d.problems = [] ∧ ∀ e ∈ d.examples, e.outcome = .passed := by
  rw [failures_eq_zero_iff]
  refine and_congr_right fun _ => ⟨fun hnone => ?_, fun hall e he => ?_⟩
  · exact List.forall_mem_map.mp (h.eq_passed (List.forall_mem_map.mpr hnone))
  · rw [hall e he, Outcome.isFailure_passed]

end DocumentReport

/-- A file that holds the bytes of a text is read as that text. -/
theorem Source.text_toBytes (path t : Text) : Source.text ⟨path, .ok t.toBytes⟩ = .ok t := by
  simp [Source.text, bind, Except.bind]

namespace Program

variable {τ : Type} [Transport τ]

/-- The report on a document as it was found, with the worker in a channel. -/
def reportOver (channel : τ) (path : Text) (found : Extraction) : DocumentReport :=
  ⟨path, List.zipWith ExampleReport.of found.examples
    ((Session.mk channel true).outcomes found.examples), found.errors.map Problem.ofError⟩

/-- Where a worker can be started, a document has a report unless there is nothing in it. -/
theorem reportOn_ok (channel : τ) (path : Text) (found : Extraction) :
    reportOn (.ok channel) path found =
      .ok (if found.examples = [] ∧ found.errors = [] then none
        else some (reportOver channel path found)) := by
  obtain ⟨examples, errors⟩ := found
  cases examples with
  | nil =>
    simp only [reportOn, reportOver, List.map_eq_nil_iff, true_and, List.zipWith_nil_left]
  | cons e rest => rfl

private theorem outcomes_reportOver (channel : τ) (path : Text) (found : Extraction) :
    (reportOver channel path found).examples.map (·.outcome) =
      (Session.mk channel true).outcomes found.examples := by
  have hlength := Session.length_outcomes (s := ⟨channel, true⟩) rfl found.examples
  rw [reportOver, List.map_zipWith]
  exact (List.map_zip_eq_zipWith (f := Prod.snd)).symm.trans (List.map_snd_zip hlength.le)

private theorem entries_reportOver (channel : τ) (path : Text) (found : Extraction) :
    (reportOver channel path found).examples.map (fun r => (r.line, r.source, r.expected)) =
      found.examples.map fun e => (e.line, e.source, e.expectedText) := by
  have hlength := Session.length_outcomes (s := ⟨channel, true⟩) rfl found.examples
  have hentries := congrArg (List.map fun e => (e.line, e.source, e.expectedText))
    (List.map_fst_zip hlength.ge)
  rw [List.map_map, List.map_zip_eq_zipWith] at hentries
  rw [reportOver, List.map_zipWith]
  exact hentries

/-- The report on a document that has a worker is honest. -/
theorem honest_reportOver (channel : τ) (path : Text) (found : Extraction) :
    (reportOver channel path found).Honest found
      ((Session.mk channel true).runAll found.examples).1 := by
  have hlisted := outcomes_reportOver channel path found
  have houtcomes := Session.outcomes_eq_zipWith (s := ⟨channel, true⟩) rfl found.examples
  refine ⟨rfl, entries_reportOver channel path found, hlisted.trans houtcomes,
    hlisted ▸ Session.sequence_outcomes _ _, ?_⟩
  intro k e r he hr
  obtain ⟨e', o, -, ho, rfl⟩ := List.getElem?_zipWith_eq_some.mp hr
  rw [houtcomes] at ho
  obtain ⟨e'', x, he'', hx, rfl⟩ := List.getElem?_zipWith_eq_some.mp ho
  obtain rfl : e'' = e := Option.some.inj (he''.symm.trans he)
  rw [ExampleReport.of, Outcome.of_eq_passed_iff, hx]
  simp only [Option.some.injEq]

/-- How the report on a document comes about that is tested with a worker of its own. -/
inductive Reported (launch : Source → Except SessionError τ) (s : Source) : DocumentReport → Prop
  /-- That a document cannot be read is its one problem. -/
  | unread {kind : DocumentKind} {error : FileError} (hkind : s.kind? = some kind)
      (htext : s.text = .error error) : Reported launch s (unreadable s.path error)
  /-- The report on a document that is read is honest. -/
  | tested {kind : DocumentKind} {text : Text} {channel : τ} {d : DocumentReport}
      (hkind : s.kind? = some kind) (htext : s.text = .ok text) (hlaunch : launch s = .ok channel)
      (hpath : d.path = s.path)
      (hhonest : d.Honest (Extraction.ofDocument kind text)
        ((Session.mk channel true).runAll (Extraction.ofDocument kind text).examples).1) :
      Reported launch s d

/-- The outcomes of a document that is tested are verdicts up to the loss of the worker. -/
theorem Reported.sequence {launch : Source → Except SessionError τ} {s : Source}
    {d : DocumentReport} (h : Reported launch s d) :
    Outcome.Sequence (d.examples.map (·.outcome)) := by
  cases h with
  | unread => exact .nil
  | tested _ _ _ _ hhonest => exact hhonest.sequence

/-- Where a worker can be started, a document has a report as it should be or none. -/
theorem testDocument_cases {launch : Source → Except SessionError τ} {s : Source} {channel : τ}
    (h : launch s = .ok channel) :
    testDocument (launch s) s = .ok none ∨
      ∃ d, testDocument (launch s) s = .ok (some d) ∧ Reported launch s d := by
  cases hkind : s.kind? with
  | none => exact .inl (by simp only [testDocument, hkind])
  | some kind =>
    cases htext : s.text with
    | error e =>
      exact .inr ⟨_, by simp only [testDocument, hkind, htext], .unread hkind htext⟩
    | ok text =>
      let found := Extraction.ofDocument kind text
      have htest : testDocument (launch s) s =
          .ok (if found.examples = [] ∧ found.errors = [] then none
            else some (reportOver channel s.path found)) := by
        simp only [testDocument, hkind, htext, h, reportOn_ok, found]
      split at htest
      · exact .inl htest
      · exact .inr ⟨_, htest, .tested hkind htext h rfl (honest_reportOver _ _ _)⟩

/-- If every document can be tested, the reports are those on some of the documents, in order. -/
theorem reports_cases {test : Source → Except SessionError (Option DocumentReport)}
    {Right : Source → DocumentReport → Prop} (failFast : Bool) {sources : List Source}
    (h : ∀ s ∈ sources, test s = .ok none ∨ ∃ d, test s = .ok (some d) ∧ Right s d) :
    ∃ ds, reports test failFast sources = (ds, none) ∧
      ∃ kept, kept.Sublist sources ∧ List.Forall₂ Right kept ds := by
  induction sources with
  | nil => exact ⟨[], rfl, [], .slnil, .nil⟩
  | cons s rest ih =>
    obtain ⟨hs, hrest⟩ := List.forall_mem_cons.mp h
    obtain ⟨ds, hds, kept, hkept, hall⟩ := ih hrest
    obtain hnone | ⟨d, hd, hright⟩ := hs
    · exact ⟨ds, by simp only [reports, hnone, hds], kept, hkept.cons s, hall⟩
    · by_cases hstop : failFast ∧ 0 < d.failures
      · refine ⟨[d], ?_, [s], List.singleton_sublist.mpr List.mem_cons_self, .cons hright .nil⟩
        simp only [reports, hd, if_pos hstop]
      · refine ⟨d :: ds, ?_, s :: kept, hkept.cons_cons s, .cons hright hall⟩
        simp only [reports, hd, if_neg hstop, hds]

/-- The report of a run whose paths exist and whose workers can be started is honest. It has the
reports on some of the documents, in order. Their examples and problems are what the summary
counts, and the run succeeds if and only if there is no problem and every example passes. -/
theorem testWith_honest {launch : Source → Except SessionError τ} {w : World} {o : TestOptions}
    {sources : List Source} (hpaths : documents w o.roots = .ok sources)
    (hspawn : ∀ s ∈ sources, ∃ channel, launch s = .ok channel) :
    ∃ ds, reports (fun s => testDocument (launch s) s) o.failFast sources = (ds, none) ∧
      (testWith launch w o).stdout = shownText w o.format ds ++ runText w o.format ds ∧
      (∃ kept, kept.Sublist sources ∧ List.Forall₂ (Reported launch) kept ds) ∧
      (Summary.ofDocuments ds).files = ds.length ∧
      (Summary.ofDocuments ds).total = (ds.map (·.examples.length)).sum ∧
      (Summary.ofDocuments ds).passed + (Summary.ofDocuments ds).notRun +
          (Summary.ofDocuments ds).failed =
        (Summary.ofDocuments ds).total + (ds.map (·.problems.length)).sum ∧
      (Summary.ofDocuments ds).failed = (ds.map DocumentReport.failures).sum ∧
      ((testWith launch w o).status = 0 ↔
        ∀ d ∈ ds, d.problems = [] ∧ ∀ e ∈ d.examples, e.outcome = .passed) ∧
      ((∃ d ∈ ds, ∃ e ∈ d.examples, e.outcome = .notRun) → (testWith launch w o).status ≠ 0) := by
  obtain ⟨ds, hds, kept, hkept, hreported⟩ := reports_cases o.failFast fun s hs =>
    let ⟨_, hlaunch⟩ := hspawn s hs
    testDocument_cases hlaunch
  have hrun : testWith launch w o =
      { status := if (Summary.ofDocuments ds).success then 0 else 1
        stdout := shownText w o.format ds ++ runText w o.format ds } := by
    simp only [testWith, hpaths, hds]
  have hsequence : ∀ d ∈ ds, Outcome.Sequence (d.examples.map (·.outcome)) := by
    have hboth := hreported.flip.imp fun d s h => And.intro (Reported.sequence h) h
    exact ((List.forall₂_and_left ..).mp hboth).1
  have hstatus : (testWith launch w o).status = 0 ↔
      ∀ d ∈ ds, d.problems = [] ∧ ∀ e ∈ d.examples, e.outcome = .passed := by
    calc (testWith launch w o).status = 0
        ↔ (Summary.ofDocuments ds).success = true := by simp [hrun]
      _ ↔ ∀ d ∈ ds, d.failures = 0 := Summary.success_ofDocuments ds
      _ ↔ _ := forall₂_congr fun d hd => DocumentReport.failures_eq_zero_iff_passed (hsequence d hd)
  have hcounts := Summary.ofDocuments_eq ds
  refine ⟨ds, hds, by rw [hrun], ⟨kept, hkept, hreported⟩, by rw [hcounts], by rw [hcounts],
    Summary.passed_add_notRun_add_failed ds, by rw [hcounts], hstatus, ?_⟩
  rintro ⟨d, hd, e, he, hnotRun⟩ hzero
  have hpassed := (hstatus.mp hzero d hd).2 e he
  rw [hnotRun] at hpassed
  cases hpassed

/-- A worker that is lost on the first of two examples leaves the other one not run, and the run
does not succeed. -/
theorem testWith_honest_lost :
    let s : Source := ⟨"a.md".toList, .ok (Text.toBytes "```c\n1\n\n2\n```\n".toList)⟩
    let launch : Source → Except SessionError Peer := fun _ => .ok ⟨[.sendFails "gone".toList], []⟩
    let w : World := ⟨fun _ => .ok (.file s.content), fun _ => none⟩
    let o : TestOptions := { paths := [s.path] }
    documents w o.roots = .ok [s] ∧ (testWith launch w o).status ≠ 0 := by
  intro s launch w o
  have hpaths : documents w o.roots = .ok [s] := rfl
  have hspawn : ∀ s' ∈ [s], ∃ channel, launch s' = .ok channel := fun _ _ => ⟨_, rfl⟩
  have hfound : Extraction.ofDocument .markdown "```c\n1\n\n2\n```\n".toList =
      ⟨[⟨[], [['1']], [], 2⟩, ⟨[], [['2']], [], 4⟩], []⟩ := by decide +kernel
  have htext : s.text = .ok "```c\n1\n\n2\n```\n".toList := Source.text_toBytes _ _
  have hkind : s.kind? = some .markdown := rfl
  let channel : Peer := ⟨[.sendFails "gone".toList], []⟩
  let found : Extraction := ⟨[⟨[], [['1']], [], 2⟩, ⟨[], [['2']], [], 4⟩], []⟩
  have htest : testDocument (launch s) s = .ok (some (reportOver channel s.path found)) := by
    simp only [testDocument, hkind, htext, hfound]
    rfl
  obtain ⟨ds, hds, -, -, -, -, -, -, -, hlost⟩ := testWith_honest hpaths hspawn
  have hreports : ds = [reportOver channel s.path found] := by
    simp only [reports, htest, o, Bool.false_eq_true, false_and, if_false] at hds
    exact (congrArg Prod.fst hds).symm
  refine ⟨hpaths, hlost ⟨_, hreports ▸ List.mem_singleton_self _, ⟨4, ['2'], [], .notRun⟩, ?_, rfl⟩⟩
  exact List.mem_cons_of_mem _ List.mem_cons_self

end Program

end Literate

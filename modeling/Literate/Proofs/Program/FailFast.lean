import Literate.Proofs.Program.Honesty

/-!
# Stopping at the first failure

A run may stop at the first document with a failure. What it reports is what a run to the end
reports, up to that document and with it. The exit status is the same: a document with a failure
fails the run whether or not others follow, and without one nothing is left out.
-/

namespace Literate

namespace DocumentReport

/-- Some reports are those of a run to the end, up to the first with a failure. -/
structure UpToFailure (kept all : List DocumentReport) : Prop where
  start : kept <+: all
  /-- Only the last document has a failure. -/
  before : ∀ d ∈ kept.dropLast, d.failures = 0
  /-- The last document has one if any has. -/
  last : (∃ d ∈ all, 0 < d.failures) → ∃ d ∈ kept.getLast?, 0 < d.failures
  whole : (∀ d ∈ all, d.failures = 0) → kept = all

namespace UpToFailure

variable {d : DocumentReport} {kept all : List DocumentReport}

private theorem nil : UpToFailure [] [] where
  start := List.prefix_rfl
  before := by simp
  last := by simp
  whole _ := rfl

/-- A document with a failure is the last. -/
theorem failing (h : 0 < d.failures) (all : List DocumentReport) :
    UpToFailure [d] (d :: all) where
  start := List.prefix_iff_eq_append.mpr rfl
  before := by simp
  last _ := ⟨d, rfl, h⟩
  whole hnone := absurd (hnone d List.mem_cons_self) h.ne'

/-- A document without a failure is kept. -/
theorem passing (h : d.failures = 0) (hkept : UpToFailure kept all) :
    UpToFailure (d :: kept) (d :: all) where
  start := (List.prefix_cons_inj d).mpr hkept.start
  before := by
    intro d' hd'
    cases kept with
    | nil => cases hd'
    | cons k kept =>
      rw [List.dropLast_cons_cons] at hd'
      rcases List.mem_cons.mp hd' with rfl | hd'
      · exact h
      · exact hkept.before d' hd'
  last := by
    rintro ⟨d', hd', hfail⟩
    rcases List.mem_cons.mp hd' with rfl | hd'
    · exact absurd h hfail.ne'
    · obtain ⟨l, hl, hlast⟩ := hkept.last ⟨d', hd', hfail⟩
      exact ⟨l, List.mem_getLast?_cons hl, hlast⟩
  whole hnone := by
    obtain ⟨-, hrest⟩ := List.forall_mem_cons.mp hnone
    rw [hkept.whole hrest]

/-- Nothing that is kept has a failure only if nothing is left out. -/
theorem forall_failures_eq_zero_iff (h : UpToFailure kept all) :
    (∀ d ∈ kept, d.failures = 0) ↔ ∀ d ∈ all, d.failures = 0 := by
  refine ⟨fun hnone => ?_, fun hnone d hd => hnone d (h.start.subset hd)⟩
  by_contra hsome
  push Not at hsome
  obtain ⟨d, hd, hfail⟩ := hsome
  obtain ⟨l, hl, hlast⟩ := h.last ⟨d, hd, Nat.pos_of_ne_zero hfail⟩
  exact hlast.ne' (hnone l (List.mem_of_mem_getLast? hl))

end UpToFailure

end DocumentReport

namespace Program

section

variable {test : Source → Except SessionError (Option DocumentReport)} {failFast : Bool}
  {s : Source} {rest : List Source}

private theorem reports_cons_of_error {e : SessionError} (h : test s = .error e) :
    reports test failFast (s :: rest) = ([], some e) := by
  rw [reports, h]

private theorem reports_cons_of_none (h : test s = .ok none) :
    reports test failFast (s :: rest) = reports test failFast rest := by
  rw [reports, h]

private theorem reports_cons_of_some {d : DocumentReport} (h : test s = .ok (some d)) :
    reports test failFast (s :: rest) =
      if failFast ∧ 0 < d.failures then ([d], none)
      else (d :: (reports test failFast rest).1, (reports test failFast rest).2) := by
  rw [reports, h]

end

/-- A run that stops at the first failure has the reports of a run to the end up to there. Where
there is no failure, it ends as that one does. -/
theorem reports_failFast (test : Source → Except SessionError (Option DocumentReport))
    (sources : List Source) :
    DocumentReport.UpToFailure (reports test true sources).1 (reports test false sources).1 ∧
      ((∀ d ∈ (reports test false sources).1, d.failures = 0) →
        (reports test true sources).2 = (reports test false sources).2) := by
  induction sources with
  | nil => exact ⟨.nil, fun _ => rfl⟩
  | cons s rest ih =>
    cases htest : test s with
    | error e =>
      rw [reports_cons_of_error htest, reports_cons_of_error htest]
      exact ⟨.nil, fun _ => rfl⟩
    | ok found =>
      cases found with
      | none =>
        rw [reports_cons_of_none htest, reports_cons_of_none htest]
        exact ih
      | some d =>
        obtain ⟨hkept, hsame⟩ := ih
        have hfull : reports test false (s :: rest) =
            (d :: (reports test false rest).1, (reports test false rest).2) := by
          rw [reports_cons_of_some htest, if_neg fun h => Bool.false_ne_true h.1]
        rw [hfull, reports_cons_of_some htest]
        by_cases hfail : 0 < d.failures
        · rw [if_pos ⟨rfl, hfail⟩]
          exact ⟨.failing hfail _, fun hnone => absurd (hnone d List.mem_cons_self) hfail.ne'⟩
        · rw [if_neg fun h => hfail h.2]
          refine ⟨.passing (Nat.eq_zero_of_not_pos hfail) hkept, fun hnone => ?_⟩
          exact hsame (List.forall_mem_cons.mp hnone).2

variable {τ : Type} [Transport τ]

/-- A run ends with status zero if every worker that was needed could be started and nothing
failed, and with status one otherwise. -/
theorem status_testWith {launch : Source → Except SessionError τ} {w : World} {o : TestOptions}
    {sources : List Source} (hpaths : documents w o.roots = .ok sources) :
    let found := reports (fun s => testDocument (launch s) s) o.failFast sources
    (testWith launch w o).status =
      if found.2.isNone ∧ ∀ d ∈ found.1, d.failures = 0 then 0 else 1 := by
  intro found
  rcases hfound : found with ⟨ds, _ | e⟩
  · simp only [testWith, hpaths, show reports _ _ _ = _ from hfound, ← Summary.success_ofDocuments]
    simp
  · simp only [testWith, hpaths, show reports _ _ _ = _ from hfound]
    simp [World.fail]

/-- Where every worker can be started, a run writes the documents it reports and the report of the
whole. -/
theorem stdout_testWith {launch : Source → Except SessionError τ} {w : World} {o : TestOptions}
    {sources : List Source} {ds : List DocumentReport} (hpaths : documents w o.roots = .ok sources)
    (hfound : reports (fun s => testDocument (launch s) s) o.failFast sources = (ds, none)) :
    (testWith launch w o).stdout = shownText w o.format ds ++ runText w o.format ds := by
  rw [testWith, hpaths]
  simp only [hfound]

/-- Stopping at the first failure does not change the status, whether the documents are found or
not. -/
theorem status_failFast (launch : Source → Except SessionError τ) (w : World) (o : TestOptions) :
    (testWith launch w { o with failFast := true }).status =
      (testWith launch w { o with failFast := false }).status := by
  cases hpaths : documents w o.roots with
  | error root =>
    have hrun (failFast : Bool) : testWith launch w { o with failFast } =
        w.fail [] ("path not found: ".toList ++ Layout.path w.colours root) := by
      simp only [testWith, TestOptions.roots] at hpaths ⊢
      rw [hpaths]
    rw [hrun, hrun]
  | ok sources =>
    obtain ⟨hkept, hsame⟩ := reports_failFast (fun s => testDocument (launch s) s) sources
    rw [status_testWith (o := { o with failFast := true }) hpaths,
      status_testWith (o := { o with failFast := false }) hpaths]
    generalize reports _ true sources = kept, reports _ false sources = all at hkept hsame ⊢
    -- A failure makes both statuses one; without a failure the two runs end alike.
    have hsuccess : (kept.2.isNone ∧ ∀ d ∈ kept.1, d.failures = 0) ↔
        all.2.isNone ∧ ∀ d ∈ all.1, d.failures = 0 := by
      rw [hkept.forall_failures_eq_zero_iff]
      exact and_congr_left fun hnone => by rw [hsame hnone]
    simp only [hsuccess]

/-- Stopping at the first failure does no more than leave out the documents after it. The exit
status is that of a run to the end. Where the workers of all documents can be started, the reports
are those of a run to the end up to the first with a failure, all of them if there is none, and the
report of the whole run shows them with their summary. -/
theorem testWith_failFast (launch : Source → Except SessionError τ) (w : World) (o : TestOptions) :
    let run (failFast : Bool) := testWith launch w { o with failFast }
    (run true).status = (run false).status ∧
      ∀ sources, documents w o.roots = .ok sources →
        (∀ s ∈ sources, ∃ channel, launch s = .ok channel) →
        ∃ kept all, DocumentReport.UpToFailure kept all ∧
          reports (fun s => testDocument (launch s) s) true sources = (kept, none) ∧
          reports (fun s => testDocument (launch s) s) false sources = (all, none) ∧
          (run true).stdout = shownText w o.format kept ++ runText w o.format kept ∧
          (run false).stdout = shownText w o.format all ++ runText w o.format all ∧
          Summary.ofDocuments kept =
            ⟨kept.length, (kept.map (·.examples.length)).sum, (kept.map DocumentReport.passed).sum,
              (kept.map DocumentReport.failures).sum, (kept.map DocumentReport.notRun).sum⟩ := by
  intro run
  refine ⟨status_failFast launch w o, fun sources hpaths hspawn => ?_⟩
  have htested : ∀ s ∈ sources, testDocument (launch s) s = .ok none ∨
      ∃ d, testDocument (launch s) s = .ok (some d) ∧ Reported launch s d := fun s hs =>
    let ⟨_, hlaunch⟩ := hspawn s hs
    testDocument_cases hlaunch
  obtain ⟨kept, hkept, -⟩ := reports_cases true htested
  obtain ⟨all, hall, -⟩ := reports_cases false htested
  have hupTo := (reports_failFast (fun s => testDocument (launch s) s) sources).1
  rw [hkept, hall] at hupTo
  exact ⟨kept, all, hupTo, hkept, hall,
    stdout_testWith (o := { o with failFast := true }) hpaths hkept,
    stdout_testWith (o := { o with failFast := false }) hpaths hall, Summary.ofDocuments_eq kept⟩

/-- The worker of the first of two documents is lost. A fence that is not closed makes the other one
fail as well, but only a run to the end gets there. -/
theorem testWith_failFast_lost :
    let a : Source := ⟨"a.md".toList, .ok (Text.toBytes "```c\n1\n```\n".toList)⟩
    let b : Source := ⟨"b.md".toList, .ok (Text.toBytes "```c\n".toList)⟩
    let launch : Source → Except SessionError Peer := fun _ => .ok ⟨[.sendFails "gone".toList], []⟩
    let w : World :=
      ⟨fun path => .ok (.file (if path = a.path then a.content else b.content)), fun _ => none⟩
    let o : TestOptions := { paths := [a.path, b.path] }
    let run (failFast : Bool) := testWith launch w { o with failFast }
    documents w o.roots = .ok [a, b] ∧ (run true).status = (run false).status ∧
      ∃ d d' : DocumentReport,
        (run true).stdout = shownText w o.format [d] ++ runText w o.format [d] ∧
        (run false).stdout = shownText w o.format [d, d'] ++ runText w o.format [d, d'] ∧
        d.path = a.path ∧ d'.path = b.path ∧ 0 < d.failures ∧ 0 < d'.failures := by
  intro a b launch w o run
  have hpaths : documents w o.roots = .ok [a, b] := rfl
  have hspawn : ∀ s ∈ [a, b], ∃ channel, launch s = .ok channel := fun _ _ => ⟨_, rfl⟩
  have hfoundA : Extraction.ofDocument .markdown "```c\n1\n```\n".toList =
      ⟨[⟨[], [['1']], [], 2⟩], []⟩ := by decide +kernel
  have hfoundB : Extraction.ofDocument .markdown "```c\n".toList =
      ⟨[], [.unterminatedFence 1 "```".toList]⟩ := by decide +kernel
  have htextA : a.text = .ok "```c\n1\n```\n".toList := Source.text_toBytes _ _
  have htextB : b.text = .ok "```c\n".toList := Source.text_toBytes _ _
  have hkindA : a.kind? = some .markdown := rfl
  have hkindB : b.kind? = some .markdown := rfl
  let d : DocumentReport :=
    reportOver (⟨[.sendFails "gone".toList], []⟩ : Peer) a.path ⟨[⟨[], [['1']], [], 2⟩], []⟩
  let d' : DocumentReport :=
    ⟨b.path, [], [Problem.ofError (.unterminatedFence 1 "```".toList)]⟩
  have htestA : testDocument (launch a) a = .ok (some d) := by
    simp only [testDocument, hkindA, htextA, hfoundA]
    rfl
  have htestB : testDocument (launch b) b = .ok (some d') := by
    simp only [testDocument, hkindB, htextB, hfoundB]
    rfl
  have hfail : 0 < d.failures := Nat.zero_lt_one
  have hfail' : 0 < d'.failures := Nat.zero_lt_one
  obtain ⟨hstatus, hreports⟩ := testWith_failFast launch w o
  obtain ⟨kept, all, -, hkept, hall, hshort, hfull, -⟩ := hreports _ hpaths hspawn
  rw [reports_cons_of_some htestA, if_pos ⟨rfl, hfail⟩] at hkept
  rw [reports_cons_of_some htestA, reports_cons_of_some htestB] at hall
  obtain rfl : [d] = kept := congrArg Prod.fst hkept
  obtain rfl : [d, d'] = all := congrArg Prod.fst hall
  exact ⟨hpaths, hstatus, d, d', hshort, hfull, rfl, rfl, hfail, hfail'⟩

end Program

end Literate

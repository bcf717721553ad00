import Mathlib.Data.List.TakeWhile
import Literate.Fault
import Literate.Proofs.Text.Lines

/-!
# Reports of abnormal termination

A report is found in a text exactly if it is written there from the beginning of a line on, and of
several reports it is the first. The fault of an engine that gave up is the exception that its
report tells, and the report is then taken out of the error stream. Every other fault leaves the
stream as it is.
-/

namespace Literate

namespace TerminationReport

/-- How a report is written. -/
def write (r : TerminationReport) : Text :=
  "terminate called after throwing an instance of '".toList ++ r.type ++
    "'\n  what():  ".toList ++ r.what ++ "\n Generating stack trace...".toList

/-- A report stands in a text behind some of it, where a line begins. `atStart` says whether one
begins where the text does. -/
structure Stands (atStart : Bool) (t before : Text) (r : TerminationReport) : Prop where
  written : before ++ r.write <+: t
  line : before = [] ∧ atStart = true ∨ before.getLast? = some '\n'
  type : '\x27' ∉ r.type
  what : '\n' ∉ r.what

/-- The first of the reports that stand in a text. -/
def FirstIn (atStart : Bool) (t : Text) (r : TerminationReport) : Prop :=
  ∃ before, Stands atStart t before r ∧
    ∀ before' r', Stands atStart t before' r' → before.length ≤ before'.length

variable {atStart : Bool} {c : Char} {t before : Text} {r : TerminationReport}

private theorem write_eq (r : TerminationReport) :
    r.write = opening ++ (r.type ++ (middle ++ (r.what ++ closing))) := by
  have hassoc (a b c d e : Text) : a ++ b ++ c ++ d ++ e = a ++ (b ++ (c ++ (d ++ e))) := by
    simp only [List.append_assoc]
  exact hassoc opening r.type middle r.what closing

private theorem head?_middle : middle.head? = some '\x27' := by decide

private theorem head?_closing : closing.head? = some '\n' := by decide

private theorem write_ne_nil (r : TerminationReport) : r.write ≠ [] := by
  intro h
  have hopening : opening = [] := List.append_eq_nil_iff.mp ((write_eq r).symm.trans h) |>.1
  exact absurd hopening (by decide)

/-- A text begins with a report exactly if the report is written there. -/
theorem read?_eq_some :
    read? t = some r ↔ r.write <+: t ∧ '\x27' ∉ r.type ∧ '\n' ∉ r.what := by
  simp only [read?, Option.bind_eq_bind, Option.bind_eq_some_iff, Text.after?_eq_some,
    Option.pure_def, Option.some.injEq]
  constructor
  · rintro ⟨rest, rfl, rest', hmiddle, after, hclosing, rfl⟩
    have htype : rest = rest.takeWhile (· ≠ '\x27') ++ (middle ++ rest') := by
      rw [← hmiddle, List.takeWhile_append_dropWhile]
    have hwhat : rest' = rest'.takeWhile (· ≠ '\n') ++ (closing ++ after) := by
      rw [← hclosing, List.takeWhile_append_dropWhile]
    refine ⟨⟨after, ?_⟩, fun hmem => ?_, fun hmem => ?_⟩
    · conv_rhs => rw [htype, hwhat]
      simp only [write_eq, List.append_assoc]
    · simpa using List.mem_takeWhile_imp hmem
    · simpa using List.mem_takeWhile_imp hmem
  · rintro ⟨⟨after, rfl⟩, htype, hwhat⟩
    -- The type ends at the first quote, and the message at the first line end after that.
    obtain ⟨htake, hdrop⟩ := @Text.takeWhile_dropWhile_append (· ≠ '\x27') r.type
      (middle ++ (r.what ++ (closing ++ after))) (fun c hc => by
        simpa using ne_of_mem_of_not_mem hc htype) (by simp [head?_middle])
    obtain ⟨htake', hdrop'⟩ := @Text.takeWhile_dropWhile_append (· ≠ '\n') r.what
      (closing ++ after) (fun c hc => by
        simpa using ne_of_mem_of_not_mem hc hwhat) (by simp [head?_closing])
    refine ⟨r.type ++ (middle ++ (r.what ++ (closing ++ after))), ?_, _, hdrop, after, hdrop', ?_⟩
    · simp only [write_eq, List.append_assoc]
    · rw [htake, htake']

/-- A report stands at the start of a text if it is read there and a line begins. -/
theorem stands_nil : Stands atStart t [] r ↔ atStart = true ∧ read? t = some r := by
  rw [read?_eq_some]
  constructor
  · rintro ⟨hwritten, hline, htype, hwhat⟩
    exact ⟨hline.elim And.right (by simp), hwritten, htype, hwhat⟩
  · rintro ⟨hstart, hwritten, htype, hwhat⟩
    exact ⟨hwritten, .inl ⟨rfl, hstart⟩, htype, hwhat⟩

/-- A report stands further on in a text if it stands so in the text after the first character. -/
theorem stands_cons {d : Char} :
    Stands atStart (c :: t) (d :: before) r ↔ d = c ∧ Stands (c == '\n') t before r := by
  constructor
  · rintro ⟨hwritten, hline, htype, hwhat⟩
    rw [List.cons_append] at hwritten
    obtain ⟨rfl, hrest⟩ := List.cons_prefix_cons.mp hwritten
    refine ⟨rfl, hrest, ?_, htype, hwhat⟩
    cases before with
    | nil => exact .inl ⟨rfl, by simpa using hline⟩
    | cons x before => exact .inr (by simpa using hline)
  · rintro ⟨rfl, hwritten, hline, htype, hwhat⟩
    refine ⟨List.cons_prefix_cons.mpr ⟨rfl, hwritten⟩, .inr ?_, htype, hwhat⟩
    rcases hline with ⟨rfl, hfeed⟩ | hline
    · simpa using hfeed
    · rw [List.getLast?_cons, hline]
      rfl

private theorem not_stands_of_nil : ¬Stands atStart [] before r := by
  intro h
  have hnil := List.append_eq_nil_iff.mp (List.prefix_nil.mp h.written)
  exact write_ne_nil r hnil.2

/-- No report is found in a text exactly if none stands in it. -/
theorem findFrom?_eq_none :
    findFrom? atStart t = none ↔ ∀ before r, ¬Stands atStart t before r := by
  induction t generalizing atStart with
  | nil => exact ⟨fun _ _ _ => not_stands_of_nil, fun _ => rfl⟩
  | cons c t ih =>
    rw [findFrom?, Option.or_eq_none_iff, ih]
    constructor
    · rintro ⟨hhere, hlater⟩ before r h
      cases before with
      | nil =>
        obtain ⟨rfl, hread⟩ := stands_nil.mp h
        rw [if_pos rfl, hread] at hhere
        cases hhere
      | cons d before => exact hlater before r (stands_cons.mp h).2
    · intro hnone
      refine ⟨?_, fun before r h => hnone (c :: before) r (stands_cons.mpr ⟨rfl, h⟩)⟩
      rw [ite_eq_right_iff]
      intro hstart
      rw [Option.eq_none_iff_forall_ne_some]
      exact fun r hread => hnone [] r (stands_nil.mpr ⟨hstart, hread⟩)

/-- The first report of a text is the one it begins with, or the first one further on if there is no
such. -/
theorem firstIn_cons :
    FirstIn atStart (c :: t) r ↔
      atStart = true ∧ read? (c :: t) = some r ∨
        (atStart = true → read? (c :: t) = none) ∧ FirstIn (c == '\n') t r := by
  constructor
  · rintro ⟨before, h, hfirst⟩
    cases before with
    | nil => exact .inl (stands_nil.mp h)
    | cons d before =>
      obtain ⟨rfl, h⟩ := stands_cons.mp h
      refine .inr ⟨fun hstart => ?_, before, h, fun before' r' h' => ?_⟩
      · rw [Option.eq_none_iff_forall_ne_some]
        intro r' hread
        have hle := hfirst [] r' (stands_nil.mpr ⟨hstart, hread⟩)
        simp at hle
      · exact Nat.le_of_succ_le_succ (hfirst (d :: before') r' (stands_cons.mpr ⟨rfl, h'⟩))
  · rintro (hhere | ⟨hnone, before, h, hfirst⟩)
    · exact ⟨[], stands_nil.mpr hhere, fun _ _ _ => Nat.zero_le _⟩
    · refine ⟨c :: before, stands_cons.mpr ⟨rfl, h⟩, fun before' r' h' => ?_⟩
      cases before' with
      | nil =>
        obtain ⟨hstart, hread⟩ := stands_nil.mp h'
        cases (hnone hstart).symm.trans hread
      | cons d before' => exact Nat.succ_le_succ (hfirst before' r' (stands_cons.mp h').2)

/-- The report that is found in a text is the first that stands in it. -/
theorem findFrom?_eq_some : findFrom? atStart t = some r ↔ FirstIn atStart t r := by
  induction t generalizing atStart with
  | nil => exact ⟨fun h => (nomatch h), fun ⟨_, h, _⟩ => absurd h not_stands_of_nil⟩
  | cons c t ih =>
    rw [findFrom?, Option.or_eq_some_iff, ih, firstIn_cons]
    cases atStart with
    | true => simp
    | false => simp

end TerminationReport

namespace Fault

open TerminationReport (Stands FirstIn)

/-- The exception that a fault tells, by its type and message: that of the language which was
raised, or, where the engine gave up, the one that the first report in its error stream tells. -/
inductive Tells (stderr : Text) : Raised → Text → Text → Prop
  | native (type what : Text) : Tells stderr (.native type what) type what
  | reported (message : Text) {r : TerminationReport} (h : FirstIn true stderr r) :
      Tells stderr (.aborted message) r.type r.what

/-- The engine gave up, and a report stands in its error stream. -/
def Reported (raised : Raised) (stderr : Text) : Prop :=
  (∃ message, raised = .aborted message) ∧ ∃ before r, Stands true stderr before r

/-- What a raised fault is passed on as: the stream is emptied if a report was taken from it and
kept otherwise; the fault reports an invalid argument if it tells an exception of just this type;
and its message is that of the exception it tells, or its own if it tells none. -/
structure Translated (raised : Raised) (stderr : Text) (fault : Fault) (left : Text) : Prop where
  emptied : Reported raised stderr → stderr ≠ [] ∧ left = []
  kept : ¬Reported raised stderr → left = stderr
  kind : fault.kind = .value ↔ ∃ what, Tells stderr raised "std::invalid_argument".toList what
  what : ∀ type what, Tells stderr raised type what → fault.message = what
  own : (∀ type what, ¬Tells stderr raised type what) → fault.message = raised.message

private theorem kind_ofException (type what : Text) :
    (ofException type what).kind = .value ↔ type = "std::invalid_argument".toList := by
  have hname : invalidArgument = "std::invalid_argument".toList := rfl
  rw [ofException, ← hname]
  by_cases h : type = invalidArgument
  · rw [if_pos h]
    exact ⟨fun _ => h, fun _ => rfl⟩
  · rw [if_neg h]
    exact ⟨fun hkind => (nomatch hkind), fun htype => absurd htype h⟩

/-- A fault that tells no exception is passed on with its own message. -/
theorem translated_own {raised : Raised} {stderr : Text} (hreported : ¬Reported raised stderr)
    (h : ∀ type what, ¬Tells stderr raised type what) :
    Translated raised stderr ⟨.generic, raised.message⟩ stderr where
  emptied hr := absurd hr hreported
  kept _ := rfl
  kind := ⟨fun hkind => (nomatch hkind), fun ⟨what, hw⟩ => absurd hw (h _ what)⟩
  what type what hw := absurd hw (h type what)
  own _ := rfl

/-- A native exception is passed on as it tells itself. -/
theorem translated_native (type what stderr : Text) :
    Translated (.native type what) stderr (ofException type what) stderr where
  emptied h := by
    obtain ⟨⟨message, hm⟩, -⟩ := h
    cases hm
  kept _ := rfl
  kind := by
    rw [kind_ofException]
    constructor
    · rintro rfl
      exact ⟨what, .native _ what⟩
    · rintro ⟨what, ⟨⟩⟩
      rfl
  what _ _ h := by
    cases h
    rfl
  own h := absurd (.native type what) (h type what)

/-- The first report in the error stream of an engine that gave up is what its fault tells. -/
theorem translated_reported (message : Text) {stderr : Text} {r : TerminationReport}
    (h : TerminationReport.find? stderr = some r) :
    Translated (.aborted message) stderr (ofException r.type r.what) [] := by
  have hfirst : FirstIn true stderr r := TerminationReport.findFrom?_eq_some.mp h
  have htells : ∀ type what, Tells stderr (.aborted message) type what → r.type = type ∧
      r.what = what := by
    rintro type what ⟨⟩
    next r' h' =>
      have hsame := h.symm.trans (TerminationReport.findFrom?_eq_some.mpr h')
      cases hsame
      exact ⟨rfl, rfl⟩
  obtain ⟨before, hstands, -⟩ := id hfirst
  refine ⟨fun _ => ⟨?_, rfl⟩, fun hnot => ?_, ?_, fun type what hw => (htells type what hw).2,
    fun hnone => ?_⟩
  · rintro rfl
    exact TerminationReport.not_stands_of_nil hstands
  · exact absurd ⟨⟨message, rfl⟩, before, r, hstands⟩ hnot
  · rw [kind_ofException]
    constructor
    · intro htype
      exact ⟨r.what, htype ▸ .reported message hfirst⟩
    · rintro ⟨what, hw⟩
      exact (htells _ what hw).1
  · exact absurd (.reported message hfirst) (hnone r.type r.what)

/-- Reports of abnormal termination are recognised exactly. What is found in an error stream is the
first report that stands there at the beginning of a line, and nothing is found where none stands;
and every raised fault is passed on as what it tells. -/
theorem ofRaised_translated :
    (∀ stderr, (∀ r, TerminationReport.find? stderr = some r ↔ FirstIn true stderr r) ∧
      (TerminationReport.find? stderr = none ↔ ∀ before r, ¬Stands true stderr before r)) ∧
    ∀ raised stderr,
      Translated raised stderr (ofRaised raised stderr).1 (ofRaised raised stderr).2 := by
  refine ⟨fun stderr => ⟨fun r => TerminationReport.findFrom?_eq_some,
    TerminationReport.findFrom?_eq_none⟩, fun raised stderr => ?_⟩
  have hother (h : ∀ message, raised ≠ .aborted message) : ¬Reported raised stderr :=
    fun ⟨⟨message, hm⟩, _⟩ => h message hm
  cases raised with
  | native type what => exact translated_native type what stderr
  | signal message => exact translated_own (hother (by simp)) (by rintro _ _ ⟨⟩)
  | other message => exact translated_own (hother (by simp)) (by rintro _ _ ⟨⟩)
  | aborted message =>
    rw [ofRaised]
    cases hfind : TerminationReport.find? stderr with
    | some r => exact translated_reported message hfind
    | none =>
      have hnone := TerminationReport.findFrom?_eq_none.mp hfind
      refine translated_own (fun ⟨_, before, r, h⟩ => hnone before r h) ?_
      rintro type what ⟨⟩
      next r h =>
        obtain ⟨before, hstands, -⟩ := h
        exact hnone before r hstands

/-- A report that breaks off and one that does not begin a line are passed over. The message of the
report that is found looks like another that has begun. -/
theorem ofRaised_translated_second :
    let r : TerminationReport :=
      ⟨"std::invalid_argument".toList, TerminationReport.opening ++ "e'".toList⟩
    let stderr := TerminationReport.opening ++ "a'\n>".toList ++
      TerminationReport.write ⟨"b".toList, "c".toList⟩ ++ ['\n'] ++ r.write ++ ['\n']
    FirstIn true stderr r ∧ Translated (.aborted "Aborted".toList) stderr ⟨.value, r.what⟩ [] := by
  intro r stderr
  have hfind : TerminationReport.find? stderr = some r := by decide +kernel
  have hfault : ofRaised (.aborted "Aborted".toList) stderr = (⟨.value, r.what⟩, []) := by
    rw [ofRaised, hfind]
    rfl
  have h := ofRaised_translated.2 (.aborted "Aborted".toList) stderr
  rw [hfault] at h
  exact ⟨((ofRaised_translated.1 stderr).1 r).mp hfind, h⟩

end Fault

end Literate

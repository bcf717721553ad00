import Mathlib.Data.List.Basic
import Literate.Engine.Playback
import Literate.Proofs.Text.Lines
import Literate.Proofs.Worker.Requests

/-!
# The calls of a worker

A worker over an engine that plays answers back makes exactly the calls that a request asks for: the
definitions in order up to the first that fails, and the block, with signals caught, only if none
does. What it responds is what these calls wrote and the fault of the last of them, and the mode of
the engine is what it was.
-/

namespace Literate

namespace Captured

/-- What some calls wrote: their texts that are not empty, with a line feed between each two. -/
def ofAnswers (answers : List Answer) : Captured where
  stdout := Text.unlines ((answers.map (·.output.stdout)).filter (· ≠ []))
  stderr := Text.unlines ((answers.map (·.output.stderr)).filter (· ≠ []))

/-- A chunk is joined to texts that are not empty as one more of them. -/
theorem join_unlines (ts : List Text) (chunk : Text) :
    join (Text.unlines (ts.filter (· ≠ []))) chunk =
      Text.unlines ((ts ++ [chunk]).filter (· ≠ [])) := by
  rw [List.filter_append]
  by_cases hchunk : chunk = []
  · subst hchunk
    simp
  · have hlast : [chunk].filter (· ≠ []) = [chunk] := by simp [hchunk]
    rw [hlast]
    by_cases hts : ts.filter (· ≠ []) = []
    · rw [hts]
      simp [Text.unlines]
    · have hne : Text.unlines (ts.filter (· ≠ [])) ≠ [] :=
        Text.unlines_ne_nil hts fun t ht => by simpa using (List.mem_filter.mp ht).2
      rw [Text.unlines_concat hts, join, if_pos ⟨hne, hchunk⟩]

/-- The output of a further call is recorded after that of the calls before it. -/
theorem record_ofAnswers (answers : List Answer) (a : Answer) :
    (ofAnswers answers).record a.output = ofAnswers (answers ++ [a]) := by
  rw [record, ofAnswers, ofAnswers, join_unlines, join_unlines, List.map_append, List.map_append]
  rfl

end Captured

/-- The fault of the last of some calls, if it failed. -/
def Answer.lastFault? (answers : List Answer) : Option Raised :=
  answers.getLast?.bind Answer.fault?

namespace Playback

/-- The answer to the call with the given number, counted from zero. A script that is used up gives
empty answers. -/
def answerAt (e : Playback) (i : Nat) : Answer :=
  e.script.getD i (.done {})

/-- A definition as a call in some mode. -/
def defining (mode : FaultMode) (source : Text) : Call :=
  ⟨false, source, mode⟩

/-- A block as a call with signals caught. -/
def executing (block : Text) : Call :=
  ⟨true, block, .catchable⟩

/-- Some calls of a playback engine: each is noted and consumes the next answer of the script, and
the mode stays. -/
structure Called (e : Playback) (made : List Call) (consumed : List Answer) (e' : Playback) :
    Prop where
  answers : ∀ i < consumed.length, consumed[i]? = some (e.answerAt i)
  script : e'.script = e.script.drop consumed.length
  calls : e'.calls = e.calls ++ made
  length : made.length = consumed.length
  mode : e'.mode = e.mode

variable {e e' e'' : Playback} {made made' : List Call} {consumed consumed' : List Answer}

private theorem Called.nil (e : Playback) : Called e [] [] e where
  answers := by simp
  script := rfl
  calls := (List.append_nil _).symm
  length := rfl
  mode := rfl

/-- A call consumes the next answer. -/
theorem Called.single (call : Call)
    (h : e' = { e with script := e.script.tail, calls := e.calls ++ [call] }) :
    Called e [call] [e.answerAt 0] e' where
  answers := by simp
  script := by simp [h]
  calls := by rw [h]
  length := rfl
  mode := by rw [h]

/-- Calls are made one after another. -/
theorem Called.append (h : Called e made consumed e') (h' : Called e' made' consumed' e'') :
    Called e (made ++ made') (consumed ++ consumed') e'' where
  answers := by
    intro i hi
    rw [List.length_append] at hi
    by_cases hfirst : i < consumed.length
    · rw [List.getElem?_append_left hfirst]
      exact h.answers i hfirst
    · have hle : consumed.length ≤ i := Nat.le_of_not_lt hfirst
      rw [List.getElem?_append_right hle, h'.answers _ (by omega), answerAt, answerAt, h.script,
        List.getD_eq_getElem?_getD, List.getD_eq_getElem?_getD, List.getElem?_drop,
        Nat.add_sub_cancel' hle]
  script := by rw [h'.script, h.script, List.drop_drop, List.length_append]
  calls := by rw [h'.calls, h.calls, List.append_assoc]
  length := by rw [List.length_append, List.length_append, h.length, h'.length]
  mode := h'.mode.trans h.mode

/-- A definition consumes the next answer. -/
theorem called_define (source : Text) (e : Playback) :
    ∃ e', Engine.define source e = .ok (e.answerAt 0, e') ∧
      Called e [defining e.mode source] [e.answerAt 0] e' := by
  refine ⟨_, ?_, Called.single (defining e.mode source) rfl⟩
  cases hscript : e.script <;> simp [Engine.define, answer, answerAt, defining, hscript]

/-- A guarded block consumes the next answer, and the mode is what it was. -/
theorem called_guarded (block : Text) (e : Playback) :
    ∃ e', Engine.guarded block e = .ok (e.answerAt 0, e') ∧
      Called e [executing block] [e.answerAt 0] e' := by
  refine ⟨_, ?_, Called.single (executing block) rfl⟩
  cases hscript : e.script <;>
    simp [Engine.guarded, Engine.execute, Engine.setMode, Engine.mode, answer, answerAt, executing,
      hscript, Except.map]

end Playback

namespace Worker

open Playback

/-- Definitions on a playback engine: some of them succeed, and these are all, or the one after
them fails and no more are made. -/
theorem define_playback (before : List Answer) (ds : List Text) (e : Playback) :
    ∃ consumed e',
      Called e ((ds.take consumed.length).map (defining e.mode)) consumed e' ∧
      ((∀ a ∈ consumed, a.fault? = none) ∧ consumed.length = ds.length ∧
          define (Captured.ofAnswers before) ds e =
            .ok ((Captured.ofAnswers (before ++ consumed), none), e') ∨
        ∃ succeeded a raised, consumed = succeeded ++ [a] ∧ (∀ a ∈ succeeded, a.fault? = none) ∧
          a.fault? = some raised ∧ consumed.length ≤ ds.length ∧
          define (Captured.ofAnswers before) ds e =
            .ok ((Captured.ofAnswers (before ++ consumed), some raised), e')) := by
  induction ds generalizing before e with
  | nil =>
    refine ⟨[], e, Called.nil e, .inl ⟨by simp, rfl, ?_⟩⟩
    rw [List.append_nil, define]
  | cons d ds ih =>
    obtain ⟨e₁, hdefine, hcalled⟩ := called_define d e
    cases hfault : (e.answerAt 0).fault? with
    | some raised =>
      have hstep : define (Captured.ofAnswers before) (d :: ds) e =
          .ok ((Captured.ofAnswers (before ++ [e.answerAt 0]), some raised), e₁) := by
        simp only [define, hdefine, bind, Except.bind, settle, Captured.record_ofAnswers, hfault]
      exact ⟨[e.answerAt 0], e₁, hcalled,
        .inr ⟨[], _, raised, rfl, by simp, hfault, by simp, hstep⟩⟩
    | none =>
      have hstep : define (Captured.ofAnswers before) (d :: ds) e =
          define (Captured.ofAnswers (before ++ [e.answerAt 0])) ds e₁ := by
        simp only [define, hdefine, bind, Except.bind, settle, Captured.record_ofAnswers, hfault]
      obtain ⟨consumed, e', hlater, hend⟩ := ih (before ++ [e.answerAt 0]) e₁
      rw [hcalled.mode] at hlater
      rw [List.append_assoc, List.singleton_append] at hend
      refine ⟨e.answerAt 0 :: consumed, e', hcalled.append hlater, ?_⟩
      rw [hstep]
      rcases hend with ⟨hall, hlength, hrun⟩ | ⟨succeeded, a, raised, rfl, hall, ha, hlength, hrun⟩
      · exact .inl ⟨List.forall_mem_cons.mpr ⟨hfault, hall⟩, congrArg (· + 1) hlength, hrun⟩
      · exact .inr ⟨_ :: succeeded, a, raised, rfl, List.forall_mem_cons.mpr ⟨hfault, hall⟩, ha,
          Nat.succ_le_succ hlength, hrun⟩

/-- The calls that a request makes: the definitions in order up to the first that fails, and the
block after them only if none does. -/
inductive Made (p : Prepared) (e : Playback) : List Answer → Playback → Prop
  | failed {succeeded : List Answer} {a : Answer} {e' : Playback}
    (hall : ∀ a ∈ succeeded, a.fault? = none) (hfailed : a.fault? ≠ none)
    (hlength : succeeded.length < p.definitions.length)
    (hcalled : Called e ((p.definitions.take (succeeded.length + 1)).map (defining e.mode))
      (succeeded ++ [a]) e') : Made p e (succeeded ++ [a]) e'
  | executed {succeeded : List Answer} {last : Answer} {e' : Playback}
    (hall : ∀ a ∈ succeeded, a.fault? = none) (hlength : succeeded.length = p.definitions.length)
    (hcalled : Called e (p.definitions.map (defining e.mode) ++ [executing p.block])
      (succeeded ++ [last]) e') : Made p e (succeeded ++ [last]) e'

/-- A request on a playback engine: the calls it makes, and what is left of them. -/
theorem run_playback (p : Prepared) (e : Playback) :
    ∃ consumed e', Made p e consumed e' ∧
      run p e = .ok ((Captured.ofAnswers consumed, Answer.lastFault? consumed), e') := by
  obtain ⟨consumed, e₁, hcalled, hend⟩ := define_playback [] p.definitions e
  rw [List.nil_append] at hend
  rcases hend with ⟨hall, hlength, hdefine⟩ |
    ⟨succeeded, failed, raised, rfl, hall, hfailed, hlength, hdefine⟩
  · obtain ⟨e₂, hguarded, hblock⟩ := called_guarded p.block e₁
    have hlast : Answer.lastFault? (consumed ++ [e₁.answerAt 0]) = (e₁.answerAt 0).fault? := by
      simp [Answer.lastFault?]
    have hrun := run_of_define hdefine
    rw [hguarded, Except.map, settle, Captured.record_ofAnswers, ← hlast] at hrun
    rw [hlength, List.take_length] at hcalled
    exact ⟨_, e₂, .executed hall hlength (hcalled.append hblock), hrun⟩
  · have hlast : Answer.lastFault? (succeeded ++ [failed]) = some raised := by
      simp [Answer.lastFault?, hfailed]
    have hrun := run_of_define_failed hdefine
    rw [← hlast] at hrun
    rw [List.length_append, List.length_singleton] at hcalled hlength
    have hne : failed.fault? ≠ none := by
      rw [hfailed]
      exact Option.some_ne_none raised
    exact ⟨_, e₁, .failed hall hne hlength hcalled, hrun⟩

/-- What one request to a worker over a playback engine comes to: the calls it makes, the answers
it consumes, and the response. -/
structure Handled (p : Prepared) (e : Playback) (consumed : List Answer) (response : Response)
    (e' : Playback) : Prop where
  made : Made p e consumed e'
  /-- The output is what the calls of this request wrote. -/
  stdout : response.stdout = (Captured.ofAnswers consumed).stdout
  /-- So is the error stream, unless the fault was told by a report in it. -/
  stderr : (∀ message, Answer.lastFault? consumed = some (.aborted message) →
      TerminationReport.find? (Captured.ofAnswers consumed).stderr = none) →
    response.stderr = (Captured.ofAnswers consumed).stderr
  stderr_reported : ∀ message report, Answer.lastFault? consumed = some (.aborted message) →
    TerminationReport.find? (Captured.ofAnswers consumed).stderr = some report →
    response.stderr = []
  /-- The fault is that of the last call, if it failed. -/
  fault : response.fault = (Answer.lastFault? consumed).map fun raised =>
    (Fault.ofRaised raised (Captured.ofAnswers consumed).stderr).1

/-- A report is taken out of the error stream exactly where an abort is told by it. -/
theorem stderr_ofRaised (raised : Raised) (stderr : Text) :
    ((∀ message, raised = .aborted message → TerminationReport.find? stderr = none) →
      (Fault.ofRaised raised stderr).2 = stderr) ∧
    ∀ message report, raised = .aborted message →
      TerminationReport.find? stderr = some report → (Fault.ofRaised raised stderr).2 = [] := by
  cases raised with
  | aborted message =>
    rw [Fault.ofRaised]
    cases hreport : TerminationReport.find? stderr with
    | none => simp
    | some report => simp
  | native type what => simp [Fault.ofRaised]
  | signal message => simp [Fault.ofRaised]
  | other message => simp [Fault.ofRaised]

/-- The response to a request on a playback engine. -/
theorem handle_playback (w : Worker Playback) (request : Request) :
    ∃ consumed response e',
      w.handle request = .ok (response, { w with engine := e', state := .ready }) ∧
      Handled (w.preparation.prepare request) w.engine consumed response e' := by
  obtain ⟨consumed, e', hmade, hrun⟩ := run_playback (w.preparation.prepare request) w.engine
  refine ⟨consumed, _, e', handle_of_run hrun, hmade, ?_, ?_, ?_, ?_⟩
  · cases Answer.lastFault? consumed <;> rfl
  · intro hunreported
    cases hlast : Answer.lastFault? consumed with
    | none => rfl
    | some raised =>
      refine (stderr_ofRaised raised _).1 fun message hraised => hunreported message ?_
      rw [hlast, hraised]
  · intro message report hlast hreport
    rw [hlast]
    exact (stderr_ofRaised _ _).2 message report rfl hreport
  · cases Answer.lastFault? consumed <;> rfl

/-- Requests to a worker over a playback engine, each handled from where the one before it left the
engine. -/
inductive HandledAll (p : Preparation) :
    Playback → List Request → List Response → Playback → Prop
  | nil (e : Playback) : HandledAll p e [] [] e
  | cons {e e' e'' : Playback} {request : Request} {response : Response} {consumed : List Answer}
    {requests : List Request} {responses : List Response}
    (hfirst : Handled (p.prepare request) e consumed response e')
    (hrest : HandledAll p e' requests responses e'') :
    HandledAll p e (request :: requests) (response :: responses) e''

/-- Every request to a worker makes the calls it asks for and no others. The definitions are made
in order up to the first that fails, in the mode that the engine is in; only if all succeed is the
block run, once and with signals caught. The mode is the same afterwards, and the response holds
what these calls wrote and the fault of the last, whatever the requests before came to. A worker
that was ready is ready again. -/
theorem handleAll_playback (w : Worker Playback) (requests : List Request) :
    ∃ responses w', w.handleAll requests = (responses, .ok w') ∧
      w'.preparation = w.preparation ∧ (w.state = .ready → w'.state = .ready) ∧
      HandledAll w.preparation w.engine requests responses w'.engine := by
  induction requests generalizing w with
  | nil => exact ⟨[], w, rfl, rfl, id, .nil w.engine⟩
  | cons request requests ih =>
    obtain ⟨consumed, response, e₁, hhandle, hfirst⟩ := handle_playback w request
    obtain ⟨responses, w', hall, hpreparation, hready, hrest⟩ :=
      ih { w with engine := e₁, state := .ready }
    refine ⟨response :: responses, w', ?_, hpreparation, fun _ => hready rfl,
      .cons hfirst hrest⟩
    rw [handleAll_cons_of_ok hhandle, hall]

end Worker

end Literate

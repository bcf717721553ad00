import Mathlib.Data.List.Basic
import Literate.Session.Peer

/-!
# The life of a session

A session over any channel, whatever its sends and receives come to, is asked to run examples, to
let its worker go, and whether it is running, until it is dropped. While it is running, an example
is sent once and answered once. The first failure of the channel, or letting the worker go, ends it:
nothing is done to the channel any more. In any case the channel is shut down once, and last of all.
-/

namespace Literate

/-- A channel with a log of what has been done to it, the latest last. -/
structure Logged (τ : Type) where
  channel : τ
  log : List PeerEvent := []

instance {τ : Type} [Transport τ] : Transport (Logged τ) where
  send request c :=
    let r := Transport.send request c.channel
    (r.1, ⟨r.2, c.log ++ [.send request r.1]⟩)
  receive c :=
    let r := Transport.receive c.channel
    (r.1, ⟨r.2, c.log ++ [.receive r.1]⟩)
  shutdown c := ⟨Transport.shutdown c.channel, c.log ++ [.shutdown]⟩

/-- The response that an event brings from the peer. -/
def PeerEvent.response? : PeerEvent → Option Response
  | receive (.ok response) => some response
  | _ => none

namespace Session

/-- What a session is asked. -/
inductive Operation
  | run (e : Example)
  | shutdown
  | isRunning

/-- What a session answers. -/
inductive Answer
  /-- The verdict on an example, or why there is none. -/
  | ran (verdict : Except SessionError Text)
  | done
  | running (yes : Bool)

section

variable {τ : Type} [Transport τ]

/-- Carries out one operation. -/
def perform (s : Session τ) : Operation → Answer × Session τ
  | .run e => (.ran (s.run e).1, (s.run e).2)
  | .shutdown => (.done, s.shutdown)
  | .isRunning => (.running s.running, s)

/-- Carries out operations in order. -/
def performAll (s : Session τ) : List Operation → List Answer × Session τ
  | [] => ([], s)
  | op :: rest =>
    let later := (s.perform op).2.performAll rest
    ((s.perform op).1 :: later.1, later.2)

private theorem shutdown_of_not_running {s : Session τ} (h : s.running = false) :
    s.shutdown = s := by
  simp [shutdown, h]

end

/-- One operation, what it was answered, and what was done to the channel for it. -/
structure Turn where
  operation : Operation
  answer : Answer
  events : List PeerEvent

namespace Turn

/-- What happens on an operation while the session is running. -/
inductive Working : Turn → Prop
  /-- The example is sent and its response received. -/
  | verdict (e : Example) (response : Response) :
      Working ⟨.run e, .ran (.ok (Verdict.ofResponse response)),
        [.send (.ofExample e) (.ok ()), .receive (.ok response)]⟩
  /-- Sending the example fails. -/
  | unsent (e : Example) (cause : ChannelError) :
      Working ⟨.run e, .ran (.error (.crashed e.display cause)),
        [.send (.ofExample e) (.error cause), .shutdown]⟩
  /-- The example is sent, and receiving its response fails. -/
  | unanswered (e : Example) (cause : ChannelError) :
      Working ⟨.run e, .ran (.error (.crashed e.display cause)),
        [.send (.ofExample e) (.ok ()), .receive (.error cause), .shutdown]⟩
  | shutdown : Working ⟨.shutdown, .done, [.shutdown]⟩
  | isRunning : Working ⟨.isRunning, .running true, []⟩

/-- What happens on an operation after the session has ended. -/
inductive Idle : Turn → Prop
  | run (e : Example) : Idle ⟨.run e, .ran (.error .notRunning), []⟩
  | shutdown : Idle ⟨.shutdown, .done, []⟩
  | isRunning : Idle ⟨.isRunning, .running false, []⟩

/-- Whether the channel fails for an operation, or the operation lets the worker go. -/
def Ends (t : Turn) : Prop :=
  t.operation = .shutdown ∨ ∃ name cause, t.answer = .ran (.error (.crashed name cause))

/-- The verdict that an operation was answered. -/
def verdict? (t : Turn) : Option Text :=
  match t.answer with
  | .ran (.ok verdict) => some verdict
  | _ => none

end Turn

variable {τ : Type} [Transport τ]

/-- One operation on a session whose channel is logged. -/
def turn (s : Session (Logged τ)) (op : Operation) : Turn :=
  ⟨op, (s.perform op).1, (s.perform op).2.channel.log.drop s.channel.log.length⟩

/-- Operations in order on a session whose channel is logged. -/
def turns (s : Session (Logged τ)) : List Operation → List Turn
  | [] => []
  | op :: rest => s.turn op :: turns (s.perform op).2 rest

/-- A session whose channel is not logged any more. -/
def unlogged (s : Session (Logged τ)) : Session τ :=
  ⟨s.channel.channel, s.running⟩

variable {s : Session (Logged τ)}

/-- An exchange over a logged channel adds a send to the log and, where that succeeds, a receive. -/
theorem exchange_logged (request : Request) (c : Logged τ) :
    ∃ channel, (∃ cause, exchange request c =
        (.error cause, ⟨channel, c.log ++ [.send request (.error cause)]⟩)) ∨
      (∃ cause, exchange request c =
        (.error cause, ⟨channel, c.log ++ [.send request (.ok ()), .receive (.error cause)]⟩)) ∨
      ∃ response, exchange request c =
        (.ok response, ⟨channel, c.log ++ [.send request (.ok ()), .receive (.ok response)]⟩) := by
  rcases hsend : Transport.send request c.channel with ⟨cause | ⟨⟩, c₁⟩
  · exact ⟨c₁, .inl ⟨cause, by simp only [exchange, Transport.send, hsend]⟩⟩
  · rcases hreceive : Transport.receive c₁ with ⟨cause | response, c₂⟩
    · refine ⟨c₂, .inr (.inl ⟨cause, ?_⟩)⟩
      simp only [exchange, Transport.send, hsend, Transport.receive, hreceive, List.append_assoc]
      rfl
    · refine ⟨c₂, .inr (.inr ⟨response, ?_⟩)⟩
      simp only [exchange, Transport.send, hsend, Transport.receive, hreceive, List.append_assoc]
      rfl

private theorem exchange_unlogged (request : Request) (c : Logged τ) :
    exchange request c.channel = ((exchange request c).1, (exchange request c).2.channel) := by
  rcases hsend : Transport.send request c.channel with ⟨cause | ⟨⟩, c₁⟩
  · simp only [exchange, Transport.send, hsend]
  · simp only [exchange, Transport.send, hsend, Transport.receive]

/-- Letting the worker go of a session that is running shuts the channel down. -/
theorem log_shutdown (s : Session (Logged τ)) :
    s.shutdown.channel.log = s.channel.log ++ if s.running then [.shutdown] else [] := by
  cases hs : s.running with
  | false => simp [shutdown_of_not_running hs]
  | true => simp [shutdown, hs, Transport.shutdown]

private theorem shutdown_unlogged (s : Session (Logged τ)) :
    s.unlogged.shutdown = s.shutdown.unlogged := by
  cases hs : s.running <;> simp [shutdown, unlogged, hs, Transport.shutdown]

/-- Logging a channel does not change what comes of an example. -/
theorem run_unlogged (s : Session (Logged τ)) (e : Example) :
    s.unlogged.run e = ((s.run e).1, (s.run e).2.unlogged) := by
  cases hs : s.running with
  | false => simp [run, unlogged, hs]
  | true =>
    have hexchange := exchange_unlogged (.ofExample e) s.channel
    rcases hx : exchange (.ofExample e) s.channel with ⟨cause | response, c⟩
    · rw [hx] at hexchange
      simp [run, unlogged, hs, hx, hexchange, shutdown, Transport.shutdown]
    · rw [hx] at hexchange
      simp [run, unlogged, hs, hx, hexchange]

/-- Logging a channel does not change what a session answers. -/
theorem performAll_unlogged (s : Session (Logged τ)) (ops : List Operation) :
    (s.unlogged.performAll ops).1 = (s.turns ops).map Turn.answer ∧
      (s.unlogged.performAll ops).2 = (s.performAll ops).2.unlogged := by
  induction ops generalizing s with
  | nil => exact ⟨rfl, rfl⟩
  | cons op rest ih =>
    have hperform : s.unlogged.perform op = ((s.perform op).1, (s.perform op).2.unlogged) := by
      cases op with
      | run e => simp only [perform, run_unlogged]
      | shutdown => simp only [perform, shutdown_unlogged]
      | isRunning => rfl
    obtain ⟨hanswers, hlast⟩ := ih (s.perform op).2
    rw [performAll, performAll, turns, hperform]
    exact ⟨congrArg ((s.perform op).1 :: ·) hanswers, hlast⟩

private theorem turn_eq {op : Operation} {a : Answer} {s' : Session (Logged τ)}
    {events : List PeerEvent}
    (h : s.perform op = (a, s')) (hlog : s'.channel.log = s.channel.log ++ events) :
    s.turn op = ⟨op, a, events⟩ := by
  rw [turn, h, hlog, List.drop_left]

/-- What one operation does to a session that is running: it is a working turn, which the log ends
with, and the session goes on unless the turn ends it. -/
theorem turn_of_running (hs : s.running = true) (op : Operation) :
    (s.turn op).Working ∧
      (s.perform op).2.channel.log = s.channel.log ++ (s.turn op).events ∧
      ((s.perform op).2.running = false ↔ (s.turn op).Ends) := by
  cases op with
  | run e =>
    obtain ⟨c, ⟨cause, hx⟩ | ⟨cause, hx⟩ | ⟨response, hx⟩⟩ :=
      exchange_logged (.ofExample e) s.channel
    · have hperform : s.perform (.run e) = (.ran (.error (.crashed e.display cause)),
          ⟨⟨Transport.shutdown c, s.channel.log ++ [.send (.ofExample e) (.error cause)] ++
            [.shutdown]⟩, false⟩) := by
        simp [perform, run, hs, hx, shutdown, Transport.shutdown]
      have hturn := turn_eq hperform (List.append_assoc ..)
      rw [hturn, hperform]
      exact ⟨.unsent e cause, List.append_assoc .., by simp [Turn.Ends]⟩
    · have hperform : s.perform (.run e) = (.ran (.error (.crashed e.display cause)),
          ⟨⟨Transport.shutdown c, s.channel.log ++
            [.send (.ofExample e) (.ok ()), .receive (.error cause)] ++ [.shutdown]⟩, false⟩) := by
        simp [perform, run, hs, hx, shutdown, Transport.shutdown]
      have hturn := turn_eq hperform (List.append_assoc ..)
      rw [hturn, hperform]
      exact ⟨.unanswered e cause, List.append_assoc .., by simp [Turn.Ends]⟩
    · have hperform : s.perform (.run e) = (.ran (.ok (Verdict.ofResponse response)),
          ⟨⟨c, s.channel.log ++ [.send (.ofExample e) (.ok ()), .receive (.ok response)]⟩,
            true⟩) := by
        simp [perform, run, hs, hx]
      have hturn := turn_eq hperform rfl
      rw [hturn, hperform]
      exact ⟨.verdict e response, rfl, by simp [Turn.Ends]⟩
  | shutdown =>
    have hlog : s.shutdown.channel.log = s.channel.log ++ [.shutdown] := by
      rw [log_shutdown, if_pos hs]
    have hturn : s.turn .shutdown = ⟨.shutdown, .done, [.shutdown]⟩ := turn_eq rfl hlog
    rw [hturn]
    exact ⟨.shutdown, hlog, by simp [perform, Turn.Ends]⟩
  | isRunning =>
    have hturn : s.turn .isRunning = ⟨.isRunning, .running s.running, []⟩ :=
      turn_eq rfl (List.append_nil _).symm
    rw [hturn, hs]
    exact ⟨.isRunning, (List.append_nil _).symm, by simp [perform, hs, Turn.Ends]⟩

/-- An operation on a session that has ended does nothing. -/
theorem turn_of_not_running (hs : s.running = false) (op : Operation) :
    (s.turn op).Idle ∧ (s.perform op).2 = s := by
  have hsame : (s.perform op).2 = s := by
    cases op with
    | run e => simp only [perform, run_of_not_running hs]
    | shutdown => exact shutdown_of_not_running hs
    | isRunning => rfl
  have hturn : s.turn op = ⟨op, (s.perform op).1, []⟩ := by
    rw [turn, hsame, List.drop_length]
  rw [hturn]
  refine ⟨?_, hsame⟩
  cases op with
  | run e =>
    simp only [perform, run_of_not_running hs]
    exact .run e
  | shutdown => exact .shutdown
  | isRunning =>
    simp only [perform, hs]
    exact .isRunning

/-- Nothing is done to the channel of a session that has ended. -/
theorem turns_of_not_running (hs : s.running = false) (ops : List Operation) :
    (∀ t ∈ s.turns ops, t.Idle) ∧ (s.performAll ops).2 = s := by
  induction ops with
  | nil => exact ⟨by simp [turns], rfl⟩
  | cons op rest ih =>
    obtain ⟨hidle, hsame⟩ := turn_of_not_running hs op
    rw [turns, performAll, hsame]
    refine ⟨?_, ih.2⟩
    intro t ht
    rcases List.mem_cons.mp ht with rfl | ht
    · exact hidle
    · exact ih.1 t ht

namespace Turn

variable {t : Turn}

private theorem Idle.events_eq_nil (h : t.Idle) : t.events = [] := by
  cases h <;> rfl

/-- A turn has a verdict where it has received a response, and then the verdict of that response. -/
theorem Working.verdict?_eq (h : t.Working) :
    t.verdict?.toList = (t.events.filterMap PeerEvent.response?).map Verdict.ofResponse := by
  cases h <;> rfl

/-- A turn that does nothing to the channel has no verdict. -/
theorem Idle.verdict?_eq (h : t.Idle) :
    t.verdict?.toList = (t.events.filterMap PeerEvent.response?).map Verdict.ofResponse := by
  cases h <;> rfl

/-- A turn that does not end the session does not let the worker go. -/
theorem Working.isShutdown_of_not_ends (h : t.Working) (hends : ¬t.Ends) :
    ∀ event ∈ t.events, event.isShutdown = false := by
  cases h with
  | verdict e response => simp [PeerEvent.isShutdown]
  | unsent e cause => simp [Ends] at hends
  | unanswered e cause => simp [Ends] at hends
  | shutdown => simp [Ends] at hends
  | isRunning => simp

/-- A turn that ends the session lets the worker go once, last of all. -/
theorem Working.exists_of_ends (h : t.Working) (hends : t.Ends) :
    ∃ before, t.events = before ++ [.shutdown] ∧
      ∀ event ∈ before, event.isShutdown = false := by
  cases h with
  | verdict e response => simp [Ends] at hends
  | unsent e cause =>
    exact ⟨[.send (.ofExample e) (.error cause)], rfl, by simp [PeerEvent.isShutdown]⟩
  | unanswered e cause =>
    exact ⟨[.send (.ofExample e) (.ok ()), .receive (.error cause)], rfl,
      by simp [PeerEvent.isShutdown]⟩
  | shutdown => exact ⟨[], rfl, by simp⟩
  | isRunning => simp [Ends] at hends

end Turn

/-- An operation adds to the log what its turn does to the channel. -/
theorem log_perform (s : Session (Logged τ)) (op : Operation) :
    (s.perform op).2.channel.log = s.channel.log ++ (s.turn op).events := by
  cases hs : s.running with
  | false =>
    obtain ⟨hidle, hsame⟩ := turn_of_not_running hs op
    rw [hsame, hidle.events_eq_nil, List.append_nil]
  | true => exact (turn_of_running hs op).2.1

/-- The log holds what was done to the channel in each turn, and nothing else. -/
theorem log_performAll (s : Session (Logged τ)) (ops : List Operation) :
    (s.performAll ops).2.channel.log = s.channel.log ++ (s.turns ops).flatMap Turn.events := by
  induction ops generalizing s with
  | nil => exact (List.append_nil _).symm
  | cons op rest ih =>
    rw [performAll, turns, List.flatMap_cons, ih, log_perform, List.append_assoc]

private theorem operation_turns (s : Session (Logged τ)) (ops : List Operation) :
    (s.turns ops).map Turn.operation = ops := by
  induction ops generalizing s with
  | nil => rfl
  | cons op rest ih => exact congrArg (op :: ·) (ih _)

/-- Up to the turn that ends the session, every turn works; every later one is idle. -/
theorem working_or_idle (hs : s.running = true) {ops : List Operation} {before after : List Turn}
    {t : Turn} (h : s.turns ops = before ++ t :: after) :
    ((∀ earlier ∈ before, ¬earlier.Ends) → t.Working) ∧
      ((∃ earlier ∈ before, earlier.Ends) → t.Idle) := by
  induction ops generalizing s before with
  | nil => simp [turns] at h
  | cons op rest ih =>
    obtain ⟨hworking, -, hends⟩ := turn_of_running hs op
    rw [turns] at h
    cases before with
    | nil =>
      obtain ⟨rfl, -⟩ := List.cons.inj h
      exact ⟨fun _ => hworking, by simp⟩
    | cons b before =>
      obtain ⟨rfl, hrest⟩ := List.cons.inj h
      cases hgoes : (s.perform op).2.running with
      | true =>
        have hnot : ¬(s.turn op).Ends := by simp [← hends, hgoes]
        obtain ⟨hworks, hidles⟩ := ih hgoes hrest
        constructor
        · intro hbefore
          exact hworks fun earlier he => hbefore earlier (List.mem_cons_of_mem _ he)
        · rintro ⟨earlier, he, hearlier⟩
          rcases List.mem_cons.mp he with rfl | he
          · exact absurd hearlier hnot
          · exact hidles ⟨earlier, he, hearlier⟩
      | false =>
        have hall := (turns_of_not_running hgoes rest).1
        constructor
        · intro hbefore
          exact absurd (hends.mp hgoes) (hbefore _ List.mem_cons_self)
        · intro _
          exact hall t (by simp [hrest])

/-- The verdicts are those of the responses received, in the same order. -/
theorem verdicts_turns (s : Session (Logged τ)) (ops : List Operation) :
    (s.turns ops).filterMap Turn.verdict? =
      (((s.turns ops).flatMap Turn.events).filterMap PeerEvent.response?).map
        Verdict.ofResponse := by
  induction ops generalizing s with
  | nil => rfl
  | cons op rest ih =>
    have hturn : (s.turn op).verdict?.toList =
        ((s.turn op).events.filterMap PeerEvent.response?).map Verdict.ofResponse := by
      cases hs : s.running with
      | false => exact (turn_of_not_running hs op).1.verdict?_eq
      | true => exact (turn_of_running hs op).1.verdict?_eq
    have hcons : (s.turns (op :: rest)).filterMap Turn.verdict? =
        (s.turn op).verdict?.toList ++ ((s.perform op).2.turns rest).filterMap Turn.verdict? := by
      rw [turns, List.filterMap_cons]
      cases (s.turn op).verdict? <;> rfl
    rw [hcons, turns, List.flatMap_cons, List.filterMap_append, List.map_append, hturn, ih]

/-- A session that is running lets its worker go once, and after that does nothing to the channel,
when it is asked for some operations and then dropped. -/
theorem exists_log_shutdown (hs : s.running = true) (ops : List Operation) :
    ∃ before, (s.performAll ops).2.shutdown.channel.log =
        s.channel.log ++ (before ++ [.shutdown]) ∧
      ∀ event ∈ before, event.isShutdown = false := by
  induction ops generalizing s with
  | nil =>
    refine ⟨[], ?_, by simp⟩
    rw [performAll, log_shutdown, if_pos hs]
    rfl
  | cons op rest ih =>
    obtain ⟨hworking, hlog, hends⟩ := turn_of_running hs op
    rw [performAll]
    cases hgoes : (s.perform op).2.running with
    | true =>
      have hnot : ¬(s.turn op).Ends := by simp [← hends, hgoes]
      obtain ⟨before, hbefore, hnone⟩ := ih hgoes
      refine ⟨(s.turn op).events ++ before, ?_, ?_⟩
      · rw [hbefore, hlog]
        simp only [List.append_assoc]
      · intro event hevent
        rcases List.mem_append.mp hevent with hevent | hevent
        · exact hworking.isShutdown_of_not_ends hnot event hevent
        · exact hnone event hevent
    | false =>
      obtain ⟨before, hbefore, hnone⟩ := hworking.exists_of_ends (hends.mp hgoes)
      refine ⟨before, ?_, hnone⟩
      rw [(turns_of_not_running hgoes rest).2, shutdown_of_not_running hgoes, hlog, hbefore]

/-- The whole life of a session over a channel, which is asked for some operations and then dropped.
Its turns are those of the operations, with what it answers to them. Until a turn ends the session,
each one works, and from then on each one is idle. The verdicts are those of the responses received,
in order. The log holds what is done to the channel in the turns, and ends with the one time that
the worker is let go, by a turn or in the end. -/
theorem lifecycle (channel : τ) (ops : List Operation) :
    let s : Session (Logged τ) := ⟨⟨channel, []⟩, true⟩
    let ended := (s.performAll ops).2
    let log := ended.shutdown.channel.log
    (s.turns ops).map Turn.operation = ops ∧
    (s.turns ops).map Turn.answer = ((⟨channel, true⟩ : Session τ).performAll ops).1 ∧
    (∀ before t after, s.turns ops = before ++ t :: after →
      ((∀ earlier ∈ before, ¬earlier.Ends) → t.Working) ∧
        ((∃ earlier ∈ before, earlier.Ends) → t.Idle)) ∧
    (s.turns ops).filterMap Turn.verdict? =
      (log.filterMap PeerEvent.response?).map Verdict.ofResponse ∧
    log = (s.turns ops).flatMap Turn.events ++ (if ended.running then [.shutdown] else []) ∧
    ∃ before, log = before ++ [.shutdown] ∧ ∀ event ∈ before, event.isShutdown = false := by
  intro s ended log
  have hlog : log = (s.turns ops).flatMap Turn.events ++
      (if ended.running then [.shutdown] else []) := by
    rw [show log = _ from log_shutdown ended, show ended.channel.log = _ from log_performAll s ops]
    rfl
  have hverdicts : (s.turns ops).filterMap Turn.verdict? =
      (log.filterMap PeerEvent.response?).map Verdict.ofResponse := by
    rw [verdicts_turns, hlog, List.filterMap_append]
    cases ended.running <;> simp [PeerEvent.response?]
  exact ⟨operation_turns s ops, (performAll_unlogged s ops).1.symm,
    fun before t after h => working_or_idle rfl h, hverdicts, hlog, exists_log_shutdown rfl ops⟩

/-- A peer that has hung up: the first example is found crashed, and the session is over. -/
theorem lifecycle_closed :
    let e : Example := { indent := [], snippet := ["1".toList], expected := [], line := 1 }
    let s : Session (Logged Peer) := ⟨⟨⟨[], []⟩, []⟩, true⟩
    let crash : Turn := ⟨.run e, .ran (.error (.crashed e.display .closed)),
      [.send (.ofExample e) (.ok ()), .receive (.error .closed), .shutdown]⟩
    ∃ t₁ t₂, s.turns [.run e, .isRunning, .run e] = [crash, t₁, t₂] ∧ crash.Ends ∧
      t₁.Idle ∧ t₂.Idle := by
  intro e s crash
  have hturns : s.turns [.run e, .isRunning, .run e] = [crash, ⟨.isRunning, .running false, []⟩,
      ⟨.run e, .ran (.error .notRunning), []⟩] := rfl
  have hends : crash.Ends := .inr ⟨_, _, rfl⟩
  have hphases := (lifecycle (⟨[], []⟩ : Peer) [.run e, .isRunning, .run e]).2.2.1
  exact ⟨_, _, hturns, hends, (hphases [crash] _ _ hturns).2 ⟨crash, by simp, hends⟩,
    (hphases [crash, _] _ _ hturns).2 ⟨crash, by simp, hends⟩⟩

end Session

end Literate

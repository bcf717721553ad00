import Mathlib.Logic.Relation
import Literate.Proofs.Language.Guard

/-!
# States that calls lead to

Every call of an engine leaves a state, whether it succeeds or fails, unless it ends the process. A
call of the interpreter either changes no more than the mode, or it runs statements whose names are
resolved, up to the end or up to where they stop.
-/

namespace Literate

namespace Engine

variable {σ : Type} [Engine σ]

/-- A call that answers in one state and leaves another. -/
inductive Step (s : σ) : σ → Prop
  | define {source : Text} {a : Answer} {s' : σ} (h : Engine.define source s = .ok (a, s')) :
      Step s s'
  | execute {block : Text} {a : Answer} {s' : σ} (h : Engine.execute block s = .ok (a, s')) :
      Step s s'
  | guarded {block : Text} {a : Answer} {s' : σ} (h : Engine.guarded block s = .ok (a, s')) :
      Step s s'
  | setMode (mode : FaultMode) : Step s (Engine.setMode mode s)

/-- Calls one after another lead from one state to another. -/
abbrev Steps : σ → σ → Prop :=
  Relation.ReflTransGen Step

end Engine

section

variable {P : Machine → Prop} {m : Machine}

/-- What holds after a step and is preserved by what comes next holds in the end, even if that is
where the step stops. -/
theorem Machine.goOn_preserves {r : Machine × Option Interrupt}
    {next : Machine → Machine × Option Interrupt} (hr : P r.1)
    (hnext : ∀ m, P m → P (next m).1) : P (goOn r next).1 := by
  obtain ⟨m, stop⟩ := r
  cases stop with
  | none => exact hnext m hr
  | some i => exact hr

/-- What holds of a machine and of what comes next from each value holds in the end, even if there
is no value. -/
theorem Machine.andThen_preserves {α : Type} {r : Except Interrupt α}
    {next : α → Machine × Option Interrupt} (hm : P m) (hnext : ∀ a, P (next a).1) :
    P (m.andThen r next).1 := by
  cases r with
  | ok a => exact hnext a
  | error i => exact hm

/-- What every operand of a print statement preserves, the statement preserves. -/
theorem Item.runAll_preserves {stream : Stream} {is : List Item}
    (h : ∀ i ∈ is, ∀ m, P m → P (i.run stream m).1) (hm : P m) : P (runAll stream m is).1 := by
  induction is generalizing m with
  | nil => exact hm
  | cons i is ih =>
    obtain ⟨hi, his⟩ := List.forall_mem_cons.mp h
    rw [runAll_cons]
    exact Machine.goOn_preserves (hi m hm) fun m hm => ih his hm

/-- What no operand changes but those of some kind, operands without one of that kind leave. -/
theorem Item.runAll_keeps {α : Type} {f : Machine → α} {p : Item → Bool} {stream : Stream}
    {is : List Item} (hp : ∀ i m, p i = false → f (i.run stream m).1 = f m)
    (his : is.any p = false) (m : Machine) : f (runAll stream m is).1 = f m := by
  apply runAll_preserves (P := fun m' => f m' = f m) _ rfl
  intro i hi m' hm'
  have hi : p i = false := by simpa using List.any_eq_false.mp his i hi
  exact (hp i m' hi).trans hm'

/-- What each statement preserves that a run comes to, the run preserves, however far it gets. -/
theorem Statement.runAll_preserves_of_reaches {statements : List Statement}
    (h : ∀ s m₀, Reaches m statements s m₀ → P m₀ → P (s.run m₀).1) (hm : P m) :
    P (runAll m statements).1 := by
  induction statements generalizing m with
  | nil => exact hm
  | cons s rest ih =>
    have hs := h s m (.here m s rest) hm
    rw [runAll]
    rcases hrun : s.run m with ⟨m', _ | stop⟩
    · rw [hrun] at hs
      exact ih (fun t m₀ hreach => h t m₀ (.next hrun hreach)) hs
    · rw [hrun] at hs
      exact hs

/-- What each statement preserves, running all of them preserves, however far that gets. -/
theorem Statement.runAll_preserves {statements : List Statement}
    (h : ∀ s ∈ statements, ∀ m, P m → P (s.run m).1) (hm : P m) : P (runAll m statements).1 :=
  runAll_preserves_of_reaches (fun s m₀ hreach => h s hreach.mem m₀) hm

/-- What no statement changes but those of some kind, statements without one of that kind leave. -/
theorem Statement.runAll_keeps {α : Type} {f : Machine → α} {p : Statement → Bool}
    {statements : List Statement} (hp : ∀ s m, p s = false → f (s.run m).1 = f m)
    (hstatements : statements.any p = false) (m : Machine) : f (runAll m statements).1 = f m := by
  apply runAll_preserves (P := fun m' => f m' = f m) _ rfl
  intro s hs m' hm'
  have hs : p s = false := by simpa using List.any_eq_false.mp hstatements s hs
  exact (hp s m' hs).trans hm'

end

namespace Interpreter

variable {s s' : Interpreter}

/-- A definition changes nothing, whether it is taken or refused. -/
theorem define_state (s : Interpreter) (source : Text) : (s.define source).2 = s := by
  unfold define
  split
  · rfl
  · rfl

/-- A block that answers was refused and changed nothing, or its statements ran. -/
theorem state_of_execute {block : Text} {a : Answer} (h : s.execute block = .ok (a, s')) :
    s' = s ∨ ∃ statements, s.check block = .ok statements ∧
      s' = (Statement.runAll ⟨s, {}⟩ statements).1.state := by
  cases hcheck : s.check block with
  | error e =>
    rw [execute_of_check_error hcheck] at h
    cases h
    exact .inl rfl
  | ok statements =>
    rw [execute_of_check hcheck] at h
    refine .inr ⟨statements, rfl, ?_⟩
    rcases hrun : Statement.runAll ⟨s, {}⟩ statements with ⟨m, _ | e | ending⟩
    · rw [hrun] at h
      cases h
      rfl
    · rw [hrun] at h
      cases h
      rfl
    · rw [hrun] at h
      cases h

/-- A call changes at most the mode, or it runs the statements of a block whose names are resolved,
in one mode and back in another. -/
theorem step_cases (h : Engine.Step s s') :
    (∃ mode, s' = s.inMode mode) ∨ ∃ mode mode' block statements,
      s.check block = .ok statements ∧
        s' = (Statement.runAll ⟨s.inMode mode, {}⟩ statements).1.state.inMode mode' := by
  cases h with
  | @define source a _ h =>
    have hstate : (s.define source).2 = s' := congrArg Prod.snd (Except.ok.inj h)
    exact .inl ⟨s.mode, hstate.symm.trans (define_state s source)⟩
  | @execute block a _ h =>
    rcases state_of_execute h with rfl | ⟨statements, hcheck, rfl⟩
    · exact .inl ⟨s'.mode, rfl⟩
    · exact .inr ⟨s.mode, _, block, statements, hcheck, rfl⟩
  | @guarded block a _ h =>
    rw [guarded_eq] at h
    obtain ⟨⟨a, t⟩, hexecute, ⟨⟩⟩ := map_eq_ok.mp h
    rcases state_of_execute hexecute with rfl | ⟨statements, hcheck, rfl⟩
    · exact .inl ⟨s.mode, rfl⟩
    · exact .inr ⟨.catchable, s.mode, block, statements, (check_catching s block).symm.trans hcheck,
        rfl⟩
  | setMode mode => exact .inl ⟨mode, rfl⟩

end Interpreter

end Literate

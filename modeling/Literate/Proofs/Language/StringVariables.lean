import Literate.Proofs.Language.Typing

/-!
# Variables that were declared with a string

A variable whose type is read off a string gets the type `auto`, to which every value can be
converted. So no compound assignment to it succeeds while it holds a string, but a plain one does
with any value, and the variable holds that value from then on. It holds a string as long as the
plain assignments to it have strings as values. Variables of the other types refuse a string.
-/

namespace Literate

/-- A variable with the type that strings give it, holding a string. -/
def Store.HoldsString (store : Store) (x : Text) : Prop :=
  ∃ t, store.get? x = some ⟨.auto, .str t⟩

/-- An operator that computes takes no string on its left. -/
theorem BinaryOp.apply_str_left (op : BinaryOp) (mode : FaultMode) (t : Text) (v : Value) :
    op.apply mode (.str t) v = .error (.error (.badOperands (Value.str t).typeName v.typeName)) := rfl

/-- An operator that computes takes no string on its right. -/
theorem BinaryOp.apply_str_right (op : BinaryOp) (mode : FaultMode) (v : Value) (t : Text) :
    op.apply mode v (.str t) = .error (.error (.badOperands v.typeName (Value.str t).typeName)) := by
  cases v <;> rfl

namespace Statement

variable {m : Machine} {x : Text} {e : Expr}

/-- A declaration reads the type `auto` off a string. -/
theorem run_declare_str {t : Text} (h : m.eval e = .ok (.str t)) (x : Text) :
    run m (.declare .auto x (some e)) = (m.bind x ⟨.auto, .str t⟩, none) := by
  rw [run, h]
  rfl

/-- A plain assignment to a variable of type `auto` takes every value. -/
theorem run_assign_auto {v : Value} (hx : m.state.store.get? x = some ⟨.auto, v⟩) (e : Expr) :
    run m (.assign x none e) = m.andThen (m.eval e) fun w => (m.bind x ⟨.auto, w⟩, none) := by
  rw [run]
  simp only [hx]
  rfl

/-- A compound assignment to a variable that holds a string fails. -/
theorem run_assign_str {t : Text} {type : VarType}
    (hx : m.state.store.get? x = some ⟨type, .str t⟩) (op : BinaryOp) (e : Expr) :
    ∃ i, run m (.assign x (some op) e) = (m, some i) := by
  rw [run]
  cases m.eval e with
  | error i => exact ⟨i, rfl⟩
  | ok v =>
    simp only [Machine.andThen, hx, BinaryOp.apply_str_left]
    exact ⟨_, rfl⟩

/-- No assignment of a string to a variable of another type succeeds. -/
theorem run_assign_of_str {b : Binding} {t : Text} (hx : m.state.store.get? x = some b)
    (hb : b.type ≠ .auto) (h : m.eval e = .ok (.str t)) (op : Option BinaryOp) :
    ∃ i, run m (.assign x op e) = (m, some i) := by
  rw [run, h, Machine.andThen]
  simp only [hx]
  cases op with
  | some op =>
    simp only [BinaryOp.apply_str_right]
    exact ⟨_, rfl⟩
  | none =>
    obtain ⟨type, v⟩ := b
    cases type with
    | auto => exact absurd rfl hb
    | int => exact ⟨_, rfl⟩
    | double => exact ⟨_, rfl⟩
    | bool => exact ⟨_, rfl⟩

/-- Wherever a run comes to a plain assignment to a variable, the value is a string, if there is
one. -/
def AssignsStrings (x : Text) (m : Machine) (statements : List Statement) : Prop :=
  ∀ e m₀ v, Reaches m statements (.assign x none e) m₀ → m₀.eval e = .ok v → ∃ t, v = .str t

/-- An assignment to a variable that holds a string leaves one in it, unless it is a plain one of
another value. -/
theorem holdsString_run_assign {op : Option BinaryOp} (hx : m.state.store.HoldsString x)
    (h : ∀ v, op = none → m.eval e = .ok v → ∃ t, v = .str t) :
    (run m (.assign x op e)).1.state.store.HoldsString x := by
  obtain ⟨t, ht⟩ := hx
  cases op with
  | some op =>
    obtain ⟨i, hrun⟩ := run_assign_str ht op e
    rw [hrun]
    exact ⟨t, ht⟩
  | none =>
    rw [run_assign_auto ht e]
    cases he : m.eval e with
    | error i => exact ⟨t, ht⟩
    | ok v =>
      obtain ⟨u, rfl⟩ := h v rfl he
      exact ⟨u, Store.get?_bind_self ..⟩

/-- A statement whose names are resolved leaves a string in a variable, unless it is a plain
assignment of another value. -/
theorem holdsString_run {s : Statement} {after : Known} (hx : m.state.store.HoldsString x)
    (hresolve : s.resolve m.state.store.declares = .ok after)
    (h : ∀ e v, s = .assign x none e → m.eval e = .ok v → ∃ t, v = .str t) :
    (s.run m).1.state.store.HoldsString x := by
  obtain ⟨t, ht⟩ := hx
  have heffect := effect_run m s
  generalize hstore : (s.run m).1.state.store = store at heffect ⊢
  cases heffect with
  | none => exact ⟨t, ht⟩
  | @declared type name init v hv =>
    obtain ⟨-, hname, -⟩ := resolve_declare_eq_ok.mp hresolve
    refine ⟨t, (Store.get?_bind ..).trans (Eq.trans (if_neg ?_) ht)⟩
    rintro rfl
    simp [Store.declares, ht] at hname
  | @assigned name op e b v hb hv =>
    by_cases hname : x = name
    · subst hname
      rw [← hstore]
      exact holdsString_run_assign ⟨t, ht⟩ fun v hop => h e v (by rw [hop])
    · exact ⟨t, (Store.get?_bind ..).trans ((if_neg hname).trans ht)⟩

/-- A variable goes on holding a string through statements that assign it strings. -/
theorem holdsString_runAll {statements : List Statement} {after : Known}
    (hx : m.state.store.HoldsString x)
    (hresolve : resolveAll m.state.store.declares statements = .ok after)
    (h : AssignsStrings x m statements) : (runAll m statements).1.state.store.HoldsString x := by
  apply runAll_preserves_of_reaches (P := fun m => m.state.store.HoldsString x) _ hx
  intro s m₀ hreach hm₀
  obtain ⟨known, hknown⟩ := hreach.resolve hresolve
  exact holdsString_run hm₀ hknown fun e v hs => h e m₀ v (hs ▸ hreach)

end Statement

namespace Interpreter

variable {s s' : Interpreter} {x : Text}

/-- A block that assigns only strings to a variable is run, with or without guard. -/
inductive StringStep (x : Text) (s : Interpreter) : Interpreter → Prop
  | execute {block : Text} {a : Answer} {s' : Interpreter} (h : s.execute block = .ok (a, s'))
    (hstrings : ∀ statements, s.check block = .ok statements →
      Statement.AssignsStrings x ⟨s, {}⟩ statements) : StringStep x s s'
  | guarded {block : Text} {a : Answer} {s' : Interpreter}
    (h : Engine.guarded block s = .ok (a, s'))
    (hstrings : ∀ statements, s.check block = .ok statements →
      Statement.AssignsStrings x ⟨s.catching, {}⟩ statements) : StringStep x s s'

/-- A block that assigns only strings to a variable leaves a string in it, however far it gets. -/
theorem holdsString_execute {block : Text} {a : Answer} (hx : s.store.HoldsString x)
    (h : s.execute block = .ok (a, s'))
    (hstrings : ∀ statements, s.check block = .ok statements →
      Statement.AssignsStrings x ⟨s, {}⟩ statements) : s'.store.HoldsString x := by
  rcases state_of_execute h with rfl | ⟨statements, hcheck, rfl⟩
  · exact hx
  · obtain ⟨-, known, hknown⟩ := check_eq_ok.mp hcheck
    exact Statement.holdsString_runAll (m := ⟨s, {}⟩) hx hknown (hstrings statements hcheck)

/-- A variable goes on holding a string through a step that assigns it strings. -/
theorem StringStep.holdsString (h : StringStep x s s') (hx : s.store.HoldsString x) :
    s'.store.HoldsString x := by
  cases h with
  | execute h hstrings => exact holdsString_execute hx h hstrings
  | @guarded block a s' h hstrings =>
    rw [guarded_eq] at h
    obtain ⟨⟨a, t⟩, hexecute, ⟨⟩⟩ := map_eq_ok.mp h
    have ht : t.store.HoldsString x := by
      refine holdsString_execute (s := s.catching) hx hexecute fun statements hcheck => ?_
      exact hstrings statements ((check_catching s block).symm.trans hcheck)
    exact ht

/-- A variable whose type is read off a string gets the type `auto` and keeps it over all further
calls. It holds a string after all blocks that assign only strings to it. While it does, compound
assignments to it fail and change nothing; a plain one succeeds with whatever value it computes, and
leaves that value in the variable. Variables of the other types take no string: assigning one fails
and changes nothing. -/
theorem string_variables (x : Text) :
    (∀ m e t, m.eval e = .ok (.str t) →
      Statement.run m (.declare .auto x (some e)) = (m.bind x ⟨.auto, .str t⟩, none)) ∧
    (∀ s s' : Interpreter, s.store.HoldsString x → Engine.Steps s s' →
      ∃ v, s'.store.get? x = some ⟨.auto, v⟩) ∧
    (∀ s s', s.store.HoldsString x → Relation.ReflTransGen (StringStep x) s s' →
      s'.store.HoldsString x) ∧
    (∀ m op e, m.state.store.HoldsString x →
      ∃ i, Statement.run m (.assign x (some op) e) = (m, some i)) ∧
    (∀ m v e, m.state.store.get? x = some ⟨.auto, v⟩ →
      Statement.run m (.assign x none e) =
        m.andThen (m.eval e) fun w => (m.bind x ⟨.auto, w⟩, none)) ∧
    (∀ m b op e t, m.state.store.get? x = some b → b.type ≠ .auto → m.eval e = .ok (.str t) →
      ∃ i, Statement.run m (.assign x op e) = (m, some i)) := by
  refine ⟨fun m e t h => Statement.run_declare_str h x, fun s s' hx hsteps => ?_,
    fun s s' hx hsteps => ?_, fun m op e ⟨t, ht⟩ => Statement.run_assign_str ht op e,
    fun m v e hx => Statement.run_assign_auto hx e,
    fun m b op e t hx hb h => Statement.run_assign_of_str hx hb h op⟩
  · obtain ⟨t, ht⟩ := hx
    obtain ⟨⟨type, v⟩, hv, rfl⟩ := keeps_steps hsteps x _ ht
    exact ⟨v, hv⟩
  · induction hsteps with
    | refl => exact hx
    | tail _ hstep ih => exact hstep.holdsString ih

/-- A variable declared with a string takes another string, no sum and then a number. A variable of
type `int` takes no string. -/
theorem string_variables_reassigned :
    ∃ s s' s'' : Interpreter, Engine.Steps ({} : Interpreter) s ∧
      s.execute "x = \"b\";".toList = .ok (.done {}, s') ∧ s'.store.HoldsString "x".toList ∧
      (∃ i, Statement.run ⟨s', {}⟩ (.assign "x".toList (some .add) (.str "c".toList)) =
        (⟨s', {}⟩, some i)) ∧
      s'.execute "x = 1;".toList = .ok (.done {}, s'') ∧
      s''.store.get? "x".toList = some ⟨.auto, .int 1⟩ ∧
      ∃ i, Statement.run ⟨s, {}⟩ (.assign "n".toList none (.str "c".toList)) =
        (⟨s, {}⟩, some i) := by
  have hscan : Token.scan "auto x = \"a\"; int n;".toList =
      .ok [.name "auto".toList, .name "x".toList, .sym .eq, .str "a".toList, .sym .semi,
        .name "int".toList, .name "n".toList, .sym .semi] := by decide +kernel
  have hcheck : ({} : Interpreter).check _ =
      .ok [.declare .auto "x".toList (some (.str "a".toList)), .declare .int "n".toList none] :=
    check_of_scan hscan rfl rfl
  have hscan' : Token.scan "x = \"b\";".toList =
      .ok [.name "x".toList, .sym .eq, .str "b".toList, .sym .semi] := by decide +kernel
  have hscan'' : Token.scan "x = 1;".toList =
      .ok [.name "x".toList, .sym .eq, .int 1, .sym .semi] := by decide +kernel
  let s : Interpreter :=
    { store := (Store.bind .empty "x".toList ⟨.auto, .str "a".toList⟩).bind "n".toList
        ⟨.int, .int 0⟩ }
  let s' : Interpreter := { store := s.store.bind "x".toList ⟨.auto, .str "b".toList⟩ }
  have hcheck' : s.check _ = .ok [.assign "x".toList none (.str "b".toList)] :=
    check_of_scan hscan' rfl rfl
  have hcheck'' : s'.check _ = .ok [.assign "x".toList none (.int 1)] :=
    check_of_scan hscan'' rfl rfl
  have hexecute : s.execute "x = \"b\";".toList = .ok (.done {}, s') := execute_of_check hcheck'
  have hstrings : StringStep "x".toList s s' := by
    refine .execute hexecute fun statements hstatements => ?_
    obtain rfl := Except.ok.inj (hcheck'.symm.trans hstatements)
    rintro e m₀ v (_ | ⟨_, ⟨⟩⟩) hv
    cases hv
    exact ⟨_, rfl⟩
  have hx : s.store.HoldsString "x".toList := ⟨_, rfl⟩
  obtain ⟨-, -, hlater, hcompound, -, -⟩ := string_variables "x".toList
  have hx' := hlater s s' hx (.single hstrings)
  obtain ⟨-, -, -, -, -, hn⟩ := string_variables "n".toList
  exact ⟨s, s', _, .single (.execute (execute_of_check hcheck)), hexecute, hx',
    hcompound ⟨s', {}⟩ .add _ hx', execute_of_check hcheck'', rfl,
    hn ⟨s, {}⟩ _ none _ _ rfl (by decide) rfl⟩

/-- A variable that was declared with a string may come to hold a number. -/
theorem not_forall_string_variables :
    ¬∀ s : Interpreter, Engine.Steps {} s → ∀ x, s.store.HoldsString x →
      ∀ block a s', s.execute block = .ok (a, s') → s'.store.HoldsString x := by
  intro h
  have hscan : Token.scan "auto s = \"a\";".toList =
      .ok [.name "auto".toList, .name "s".toList, .sym .eq, .str "a".toList, .sym .semi] := by
    decide +kernel
  have hcheck : ({} : Interpreter).check _ =
      .ok [.declare .auto "s".toList (some (.str "a".toList))] := check_of_scan hscan rfl rfl
  have hscan' : Token.scan "s = 1;".toList =
      .ok [.name "s".toList, .sym .eq, .int 1, .sym .semi] := by decide +kernel
  let s : Interpreter := { store := Store.bind .empty "s".toList ⟨.auto, .str "a".toList⟩ }
  have hcheck' : s.check _ = .ok [.assign "s".toList none (.int 1)] :=
    check_of_scan hscan' rfl rfl
  have hsteps : Engine.Steps {} s := .single (.execute (execute_of_check hcheck))
  obtain ⟨t, ht⟩ := h s hsteps "s".toList ⟨_, rfl⟩ _ _ _ (execute_of_check hcheck')
  have hone : (Binding.mk .auto (.int 1)) = ⟨.auto, .str t⟩ := Option.some.inj ht
  cases hone

end Interpreter

end Literate

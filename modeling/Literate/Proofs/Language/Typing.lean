import Literate.Proofs.Language.Calls

/-!
# Variables keep their types

A variable of a type holds a value of that type, and a variable of type `auto` any value. What is
declared or assigned is converted to the type first, or running stops. A name that is declared stays
declared, with its type: an assignment changes the value only, and names are resolved so that no
declaration meets a bound one. Both hold however far a block gets.
-/

namespace Literate

/-- The values that a variable of some type may hold. -/
inductive Value.HasType : Value → VarType → Prop
  | int (n : Int64) : HasType (int n) .int
  | double (x : Double) : HasType (double x) .double
  | bool (b : Bool) : HasType (bool b) .bool
  | auto (v : Value) : HasType v .auto

namespace Value

/-- The value that a type begins with is of that type. -/
theorem hasType_initial (type : VarType) : (initial type).HasType type := by
  cases type with
  | int => exact .int _
  | double => exact .double _
  | bool => exact .bool _
  | auto => exact .auto _

/-- A value is of the type that is deduced from it. -/
theorem hasType_varType (v : Value) : v.HasType v.varType := by
  cases v with
  | int n => exact .int n
  | double x => exact .double x
  | bool b => exact .bool b
  | str s => exact .auto _

/-- A conversion to a type gives a value of that type. -/
theorem hasType_of_convert? {type : VarType} {v w : Value} (h : v.convert? type = some w) :
    w.HasType type := by
  cases type with
  | auto => exact .auto w
  | int =>
    cases v with
    | str s => cases h
    | _ => cases h; exact .int _
  | double =>
    cases v with
    | str s => cases h
    | _ => cases h; exact .double _
  | bool =>
    cases v with
    | str s => cases h
    | _ => cases h; exact .bool _

end Value

/-- What a conversion gives where it succeeds is of its type. -/
theorem hasType_of_convert {type : VarType} {v w : Value} (h : convert type v = .ok w) :
    w.HasType type := by
  unfold convert at h
  split at h
  · next hconvert =>
    cases h
    exact Value.hasType_of_convert? hconvert
  · cases h

/-- A variable that holds a value of its type. -/
def Binding.WellTyped (b : Binding) : Prop :=
  b.value.HasType b.type

/-- A declared variable holds a value of the type that it gets. -/
theorem Binding.wellTyped_ofDeclared {type : VarType} {v : Value} (h : v.HasType type) :
    (ofDeclared type v).WellTyped := by
  unfold WellTyped ofDeclared
  split
  · exact v.hasType_varType
  · exact h

namespace Store

/-- A store whose variables all hold values of their types. -/
def WellTyped (s : Store) : Prop :=
  ∀ x b, s.get? x = some b → b.WellTyped

/-- A store without variables is well typed. -/
theorem wellTyped_empty : empty.WellTyped := by
  rintro x b ⟨⟩

/-- Binding a variable to a value of its type keeps a store well typed. -/
theorem WellTyped.bind {s : Store} (hs : s.WellTyped) {b : Binding} (hb : b.WellTyped)
    (name : Text) : (s.bind name b).WellTyped := by
  intro x c hc
  rw [get?_bind] at hc
  split at hc
  · cases hc
    exact hb
  · exact hs x c hc

/-- Every variable of one store is a variable of another, with the same type. -/
def Keeps (s t : Store) : Prop :=
  ∀ x b, s.get? x = some b → ∃ c, t.get? x = some c ∧ c.type = b.type

private theorem Keeps.refl (s : Store) : s.Keeps s :=
  fun _ b hb => ⟨b, hb, rfl⟩

/-- What is kept over two steps is kept over both. -/
theorem Keeps.trans {s t u : Store} (hst : s.Keeps t) (htu : t.Keeps u) : s.Keeps u := by
  intro x b hb
  obtain ⟨c, hc, hbc⟩ := hst x b hb
  obtain ⟨d, hd, hcd⟩ := htu x c hc
  exact ⟨d, hd, hcd.trans hbc⟩

/-- A variable may get a new value of its type, and a name that is not declared any binding. -/
theorem keeps_bind {s : Store} {name : Text} {b : Binding}
    (h : ∀ c, s.get? name = some c → c.type = b.type) : s.Keeps (s.bind name b) := by
  intro x c hc
  rw [get?_bind]
  split
  · next hx =>
    rw [hx] at hc
    exact ⟨b, rfl, (h c hc).symm⟩
  · exact ⟨c, hc, rfl⟩

end Store

namespace Statement

/-- What running a statement may do to the variables: nothing, or what it says, with a value that
has been converted. -/
inductive Effect (store : Store) : Statement → Store → Prop
  | none (s : Statement) : Effect store s store
  | declared {type : VarType} {name : Text} {init : Option Expr} {v : Value}
      (hv : v.HasType type) :
      Effect store (declare type name init) (store.bind name (.ofDeclared type v))
  | assigned {name : Text} {op : Option BinaryOp} {e : Expr} {b : Binding} {v : Value}
      (hb : store.get? name = some b) (hv : v.HasType b.type) :
      Effect store (assign name op e) (store.bind name ⟨b.type, v⟩)

/-- A step without a value leaves the variables as they are, and one with a value leaves what comes
after it. -/
theorem Effect.andThen {α : Type} {m : Machine} {s : Statement} {r : Except Interrupt α}
    {next : α → Machine × Option Interrupt}
    (h : ∀ a, r = .ok a → Effect m.state.store s (next a).1.state.store) :
    Effect m.state.store s (m.andThen r next).1.state.store := by
  cases r with
  | ok a => exact h a rfl
  | error i => exact .none s

/-- Running a statement does no more to the variables than it says. -/
theorem effect_run (m : Machine) (s : Statement) :
    Effect m.state.store s (s.run m).1.state.store := by
  cases s with
  | declare type name init =>
    cases init with
    | none => exact .declared (Value.hasType_initial type)
    | some e => exact .andThen fun v _ => .andThen fun w hw => .declared (hasType_of_convert hw)
  | assign name op e =>
    refine .andThen fun v _ => ?_
    cases hb : m.state.store.get? name with
    | none => exact .none _
    | some b => exact .andThen fun w _ => .andThen fun u hu => .assigned hb (hasType_of_convert hu)
  | print stream items =>
    rw [run, Item.store_runAll]
    exact .none _
  | throw type e =>
    rw [run]
    split
    · refine .andThen fun v _ => ?_
      split
      · exact .none _
      · exact .none _
    · exact .none _
  | exit e => exact .andThen fun v _ => .andThen fun n _ => .none _
  | expr e => exact .andThen fun v _ => .none _

variable {m : Machine}

/-- A statement leaves a store well typed. -/
theorem wellTyped_run (h : m.state.store.WellTyped) (s : Statement) :
    (s.run m).1.state.store.WellTyped := by
  have heffect := effect_run m s
  generalize (s.run m).1.state.store = t at heffect ⊢
  cases heffect with
  | none => exact h
  | declared hv => exact h.bind (Binding.wellTyped_ofDeclared hv) _
  | @assigned name op e b v hb hv =>
    have hnew : Binding.WellTyped ⟨b.type, v⟩ := hv
    exact h.bind hnew _

/-- Statements leave a store well typed, however far they run. -/
theorem wellTyped_runAll (h : m.state.store.WellTyped) (statements : List Statement) :
    (runAll m statements).1.state.store.WellTyped := by
  apply runAll_preserves (P := fun m => m.state.store.WellTyped) _ h
  intro s _ m hm
  exact wellTyped_run hm s

/-- A statement whose names are resolved keeps the variables and their types. -/
theorem keeps_run {s : Statement} {after : Known}
    (h : s.resolve m.state.store.declares = .ok after) :
    m.state.store.Keeps (s.run m).1.state.store := by
  have heffect := effect_run m s
  generalize (s.run m).1.state.store = t at heffect ⊢
  cases heffect with
  | none => exact .refl _
  | @declared type name init v hv =>
    obtain ⟨-, hname, -⟩ := resolve_declare_eq_ok.mp h
    refine Store.keeps_bind fun c hc => ?_
    simp [Store.declares, hc] at hname
  | @assigned name op e b v hb hv =>
    refine Store.keeps_bind fun c hc => ?_
    rw [hb] at hc
    cases hc
    rfl

/-- Statements that resolve lose no variable and change no type, however far they run. -/
theorem keeps_runAll {statements : List Statement} {after : Known}
    (h : resolveAll m.state.store.declares statements = .ok after) :
    m.state.store.Keeps (runAll m statements).1.state.store := by
  induction statements generalizing m with
  | nil => exact .refl _
  | cons s rest ih =>
    obtain ⟨known, hs, hrest⟩ := bind_eq_ok.mp h
    have hkeeps := keeps_run hs
    rw [runAll]
    rcases hrun : s.run m with ⟨m', _ | stop⟩
    · rw [hrun] at hkeeps
      rw [← declares_run hs hrun] at hrest
      exact hkeeps.trans (ih hrest)
    · rw [hrun] at hkeeps
      exact hkeeps

end Statement

namespace Interpreter

variable {s s' : Interpreter}

/-- A step leaves the store well typed. -/
theorem wellTyped_step (hs : s.store.WellTyped) (h : Engine.Step s s') : s'.store.WellTyped := by
  rcases step_cases h with ⟨mode, rfl⟩ | ⟨mode, mode', block, statements, -, rfl⟩
  · exact hs
  · exact Statement.wellTyped_runAll (m := ⟨s.inMode mode, {}⟩) hs statements

/-- A step loses no variable and changes no type. -/
theorem keeps_step (h : Engine.Step s s') : s.store.Keeps s'.store := by
  rcases step_cases h with ⟨mode, rfl⟩ | ⟨mode, mode', block, statements, hcheck, rfl⟩
  · exact .refl _
  · obtain ⟨-, known, hknown⟩ := check_eq_ok.mp hcheck
    exact Statement.keeps_runAll (m := ⟨s.inMode mode, {}⟩) hknown

/-- No calls take a variable away or give it another type. -/
theorem keeps_steps (h : Engine.Steps s s') : s.store.Keeps s'.store := by
  induction h with
  | refl => exact .refl _
  | tail _ hstep ih => exact ih.trans (keeps_step hstep)

/-- In every state that calls lead to from a fresh interpreter, each variable holds a value of its
type; and no call, whether it succeeds or fails, takes a variable away or gives it another type. -/
theorem variables_keep_types (h : Engine.Steps ({} : Interpreter) s) :
    s.store.WellTyped ∧ ∀ s', Engine.Step s s' → s.store.Keeps s'.store := by
  refine ⟨?_, fun s' => keeps_step⟩
  induction h with
  | refl => exact Store.wellTyped_empty
  | tail _ hstep ih => exact wellTyped_step ih hstep

/-- A block that fails at its last assignment has declared variables of three types. -/
theorem variables_keep_types_failing :
    ∃ s : Interpreter, Engine.Steps ({} : Interpreter) s ∧
      s.store.get? "n".toList = some ⟨.int, .int 1⟩ ∧
      s.store.get? "b".toList = some ⟨.bool, .bool true⟩ ∧
      s.store.get? "t".toList = some ⟨.auto, .str "a".toList⟩ ∧
      s.store.WellTyped ∧ ∀ s', Engine.Step s s' → s.store.Keeps s'.store := by
  have hscan : Token.scan "int n = true; bool b = 7; auto t = \"a\"; n = t;".toList =
      .ok [.name "int".toList, .name "n".toList, .sym .eq, .name "true".toList, .sym .semi,
        .name "bool".toList, .name "b".toList, .sym .eq, .int 7, .sym .semi,
        .name "auto".toList, .name "t".toList, .sym .eq, .str "a".toList, .sym .semi,
        .name "n".toList, .sym .eq, .name "t".toList, .sym .semi] := by decide +kernel
  have hcheck : ({} : Interpreter).check _ = .ok [.declare .int "n".toList (some (.bool true)),
      .declare .bool "b".toList (some (.int 7)), .declare .auto "t".toList (some (.str "a".toList)),
      .assign "n".toList none (.var "t".toList)] := check_of_scan hscan rfl rfl
  have hexecute := execute_of_check hcheck
  have hsteps : Engine.Steps ({} : Interpreter) _ := .single (.execute hexecute)
  exact ⟨_, hsteps, rfl, rfl, rfl, variables_keep_types hsteps⟩

end Interpreter

end Literate

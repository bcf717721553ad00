import Literate.Proofs.Language.Typing

/-!
# Independent blocks

A block reads no variable that it does not mention and changes none, so that it does the same beside
every store that has its variables, and leaves the rest of that store as it is. Two blocks without a
variable in common, which leave the output format alone, can therefore run in either order: each
answers as it does in the other order, however far it gets, and the state after both is the same.
-/

namespace Literate

namespace Expr

mutual

/-- The variables that an expression reads. -/
def reads : Expr → List Text
  | int _ | double _ | bool _ | str _ => []
  | var name => [name]
  | unary _ e => e.reads
  | binary _ l r => l.reads ++ r.reads
  | call _ arguments => readsAll arguments

/-- The variables that some expressions read. -/
def readsAll : List Expr → List Text
  | [] => []
  | e :: es => e.reads ++ readsAll es

end

end Expr

namespace Item

/-- The variables that an operand of a print statement reads. -/
def reads : Item → List Text
  | value e | precision e => e.reads
  | endl | boolalpha _ => []

/-- Whether an operand of a print statement changes the output format. -/
def setsFormat : Item → Bool
  | boolalpha _ | precision _ => true
  | value _ | endl => false

end Item

namespace Statement

/-- The variables that a statement declares, assigns or reads. -/
def mentions : Statement → List Text
  | declare _ name none => [name]
  | declare _ name (some e) | assign name _ e => name :: e.reads
  | print _ items => items.flatMap Item.reads
  | throw _ e | exit e | expr e => e.reads

/-- Whether a statement has an operand that changes the output format. -/
def setsFormat : Statement → Bool
  | print _ items => items.any Item.setsFormat
  | declare .. | assign .. | throw .. | exit _ | expr _ => false

/-- The variables that the statements of a block declare, assign or read. A text that does not read
as statements has none. -/
def mentionedIn (block : Text) : List Text :=
  match ofText block with
  | .ok statements => statements.flatMap mentions
  | .error _ => []

/-- Whether a statement of a block changes the output format. -/
def formatSetIn (block : Text) : Bool :=
  match ofText block with
  | .ok statements => statements.any setsFormat
  | .error _ => false

end Statement

/-- Some known variables on given names, and others on all other names. -/
def Known.beside (known : Known) (names : List Text) (others : Known) : Known :=
  fun x => if x ∈ names then known x else others x

private theorem Known.beside_of_mem {names : List Text} {name : Text} (h : name ∈ names)
    {others known : Known} : known.beside names others name = known name :=
  if_pos h

private theorem Known.insert_beside {names : List Text} {name : Text} (h : name ∈ names)
    (others known : Known) :
    (known.beside names others).insert name = (known.insert name).beside names others := by
  funext x
  by_cases hx : x = name
  · simp [insert, beside, hx, h]
  · have hne : (x == name) = false := beq_false_of_ne hx
    simp [insert, beside, hne]

namespace Store

/-- One store on given names, and another on all other names. -/
def beside (s : Store) (names : List Text) (others : Store) : Store :=
  fun x => if x ∈ names then s x else others x

variable {names : List Text} {others s : Store} {x : Text}

private theorem get?_beside_of_mem (h : x ∈ names) : (s.beside names others).get? x = s.get? x :=
  if_pos h

private theorem get?_beside_of_notMem (h : x ∉ names) :
    (s.beside names others).get? x = others.get? x :=
  if_neg h

@[simp] theorem beside_self (names : List Text) (s : Store) : s.beside names s = s := by
  ext x : 1
  by_cases hx : x ∈ names
  · exact get?_beside_of_mem hx
  · exact get?_beside_of_notMem hx

private theorem declares_beside (names : List Text) (others s : Store) :
    (s.beside names others).declares = Known.beside s.declares names others.declares := by
  funext x
  by_cases hx : x ∈ names
  · simp [declares, get?_beside_of_mem hx, Known.beside, hx]
  · simp [declares, get?_beside_of_notMem hx, Known.beside, hx]

private theorem bind_beside (h : x ∈ names) (b : Binding) :
    (s.beside names others).bind x b = (s.bind x b).beside names others := by
  ext y : 1
  by_cases hy : y ∈ names
  · rw [get?_beside_of_mem hy, get?_bind, get?_bind, get?_beside_of_mem hy]
  · have hne : y ≠ x := by
      intro hyx
      exact hy (hyx ▸ h)
    rw [get?_beside_of_notMem hy, get?_bind, if_neg hne, get?_beside_of_notMem hy]

end Store

namespace Expr

variable {names : List Text}

mutual

/-- The value of an expression depends on the variables that it reads alone. -/
theorem eval_beside (mode : FaultMode) (others s : Store) :
    (e : Expr) → (∀ x ∈ e.reads, x ∈ names) → e.eval mode (s.beside names others) = e.eval mode s
  | .int n, _ => by rw [eval, eval]
  | .double x, _ => by rw [eval, eval]
  | .bool b, _ => by rw [eval, eval]
  | .str t, _ => by rw [eval, eval]
  | .var name, h => by
    rw [eval, eval, Store.get?_beside_of_mem (h name List.mem_cons_self)]
  | .unary op e, h => by
    rw [eval, eval, eval_beside mode others s e h]
  | .binary op l r, h => by
    obtain ⟨hl, hr⟩ := List.forall_mem_append.mp h
    have hl := eval_beside mode others s l hl
    have hr := eval_beside mode others s r hr
    cases op <;> simp only [eval, hl, hr]
  | .call name arguments, h => by
    rw [eval, eval, evalAll_beside mode others s arguments h]

/-- So do the values of expressions in order. -/
theorem evalAll_beside (mode : FaultMode) (others s : Store) :
    (es : List Expr) → (∀ x ∈ readsAll es, x ∈ names) →
      evalAll mode (s.beside names others) es = evalAll mode s es
  | [], _ => by rw [evalAll, evalAll]
  | e :: es, h => by
    obtain ⟨he, hes⟩ := List.forall_mem_append.mp h
    rw [evalAll, evalAll, eval_beside mode others s e he, evalAll_beside mode others s es hes]

end

mutual

/-- Whether an expression resolves depends on the variables that it reads alone. -/
theorem resolve_beside (others known : Known) :
    (e : Expr) → (∀ x ∈ e.reads, x ∈ names) →
      e.resolve (known.beside names others) = e.resolve known
  | .int n, _ => by rw [resolve, resolve]
  | .double x, _ => by rw [resolve, resolve]
  | .bool b, _ => by rw [resolve, resolve]
  | .str t, _ => by rw [resolve, resolve]
  | .var name, h => by
    rw [resolve, resolve, Known.beside, if_pos (h name List.mem_cons_self)]
  | .unary op e, h => by
    rw [resolve, resolve, resolve_beside others known e h]
  | .binary op l r, h => by
    obtain ⟨hl, hr⟩ := List.forall_mem_append.mp h
    rw [resolve, resolve, resolve_beside others known l hl, resolve_beside others known r hr]
  | .call name arguments, h => by
    rw [resolve, resolve, resolveAll_beside others known arguments h]

/-- So does whether expressions in order resolve. -/
theorem resolveAll_beside (others known : Known) :
    (es : List Expr) → (∀ x ∈ readsAll es, x ∈ names) →
      resolveAll (known.beside names others) es = resolveAll known es
  | [], _ => by rw [resolveAll, resolveAll]
  | e :: es, h => by
    obtain ⟨he, hes⟩ := List.forall_mem_append.mp h
    rw [resolveAll, resolveAll, resolve_beside others known e he,
      resolveAll_beside others known es hes]

end

end Expr

namespace Item

variable {names : List Text}

/-- Whether an operand of a print statement resolves depends on the variables it reads alone. -/
theorem resolve_beside (others known : Known) (i : Item) (h : ∀ x ∈ i.reads, x ∈ names) :
    i.resolve (known.beside names others) = i.resolve known := by
  cases i with
  | value e => exact e.resolve_beside others known h
  | endl => rfl
  | boolalpha on => rfl
  | precision e => exact e.resolve_beside others known h

/-- So does whether all operands resolve. -/
theorem resolveAll_beside (others known : Known) {is : List Item}
    (h : ∀ x ∈ is.flatMap reads, x ∈ names) :
    resolveAll (known.beside names others) is = resolveAll known is := by
  induction is with
  | nil => rfl
  | cons i is ih =>
    obtain ⟨hi, his⟩ := List.forall_mem_append.mp h
    rw [resolveAll, resolveAll, i.resolve_beside others known hi, ih his]

end Item

namespace Statement

variable {names : List Text}

/-- Resolving the names of a statement looks at the names that it mentions alone. -/
theorem resolve_beside (others known : Known) (s : Statement) (h : ∀ x ∈ s.mentions, x ∈ names) :
    s.resolve (known.beside names others) = (s.resolve known).map (·.beside names others) := by
  cases s with
  | declare type name init =>
    cases init with
    | none =>
      have hname : name ∈ names := h name List.mem_cons_self
      simp only [resolve, Known.beside_of_mem hname, Known.insert_beside hname]
      cases known name <;> rfl
    | some e =>
      obtain ⟨hname, he⟩ := List.forall_mem_cons.mp h
      simp only [resolve, e.resolve_beside others known he, Known.beside_of_mem hname,
        Known.insert_beside hname]
      cases e.resolve known with
      | error err => rfl
      | ok u => cases known name <;> rfl
  | assign name op e =>
    obtain ⟨hname, he⟩ := List.forall_mem_cons.mp h
    simp only [resolve, Known.beside_of_mem hname, e.resolve_beside others known he]
    cases known name with
    | false => rfl
    | true => cases e.resolve known <;> rfl
  | print stream items =>
    rw [resolve, resolve, Item.resolveAll_beside others known h]
    cases Item.resolveAll known items <;> rfl
  | throw type e =>
    rw [resolve, resolve, e.resolve_beside others known h]
    cases e.resolve known <;> rfl
  | exit e =>
    rw [resolve, resolve, e.resolve_beside others known h]
    cases e.resolve known <;> rfl
  | expr e =>
    rw [resolve, resolve, e.resolve_beside others known h]
    cases e.resolve known <;> rfl

/-- Statements resolve beside other known variables as they do alone, and leave those alone. -/
theorem resolveAll_beside (others known : Known) {statements : List Statement}
    (h : ∀ x ∈ statements.flatMap mentions, x ∈ names) :
    resolveAll (known.beside names others) statements =
      (resolveAll known statements).map (·.beside names others) := by
  induction statements generalizing known with
  | nil => rfl
  | cons s rest ih =>
    obtain ⟨hs, hrest⟩ := List.forall_mem_append.mp h
    rw [resolveAll, resolveAll, s.resolve_beside others known hs]
    cases s.resolve known with
    | error e => rfl
    | ok after => exact ih after hrest

end Statement

/-- An interpreter with other variables outside given names. -/
def Interpreter.beside (s : Interpreter) (names : List Text) (others : Store) : Interpreter :=
  { s with store := s.store.beside names others }

namespace Machine

/-- A machine with other variables outside given names. -/
def beside (m : Machine) (names : List Text) (others : Store) : Machine :=
  { m with state := m.state.beside names others }

/-- What a machine with other variables outside given names comes to, if it leaves them alone. -/
def besideRun (names : List Text) (others : Store) (r : Machine × Option Interrupt) :
    Machine × Option Interrupt :=
  (r.1.beside names others, r.2)

variable {names : List Text} {others : Store} {m : Machine}

private theorem write_beside (stream : Stream) (t : Text) :
    (m.beside names others).write stream t = (m.write stream t).beside names others := by
  cases stream <;> rfl

private theorem bind_beside {name : Text} (h : name ∈ names) (b : Binding) :
    (m.beside names others).bind name b = (m.bind name b).beside names others := by
  simp only [bind, beside, Interpreter.beside, Store.bind_beside h]

private theorem eval_beside {e : Expr} (h : ∀ x ∈ e.reads, x ∈ names) :
    (m.beside names others).eval e = m.eval e :=
  e.eval_beside m.state.mode others m.state.store h

private theorem andThen_beside {α : Type} (r : Except Interrupt α)
    {next next' : α → Machine × Option Interrupt}
    (h : ∀ a, next' a = besideRun names others (next a)) :
    (m.beside names others).andThen r next' = besideRun names others (m.andThen r next) := by
  cases r with
  | ok a => exact h a
  | error i => rfl

/-- Steps one after another leave other variables alone if each of them does. -/
theorem goOn_beside {r : Machine × Option Interrupt} {next : Machine → Machine × Option Interrupt}
    (h : ∀ m, next (m.beside names others) = besideRun names others (next m)) :
    goOn (besideRun names others r) next = besideRun names others (goOn r next) := by
  obtain ⟨m, stop⟩ := r
  cases stop with
  | none => exact h m
  | some i => rfl

end Machine

namespace Item

variable {names : List Text} {others : Store} {m : Machine}

/-- An operand of a print statement leaves other variables alone, and is written as without them. -/
theorem run_beside (stream : Stream) {i : Item} (h : ∀ x ∈ i.reads, x ∈ names) :
    i.run stream (m.beside names others) = Machine.besideRun names others (i.run stream m) := by
  cases i with
  | value e =>
    rw [run, run, Machine.eval_beside h]
    apply Machine.andThen_beside
    intro v
    rw [Machine.write_beside]
    rfl
  | endl =>
    rw [run, Machine.write_beside]
    rfl
  | boolalpha on => rfl
  | precision e =>
    rw [run, run, Machine.eval_beside h]
    apply Machine.andThen_beside
    intro v
    exact Machine.andThen_beside _ fun n => rfl

/-- So do all operands of a print statement. -/
theorem runAll_beside (stream : Stream) {is : List Item} (h : ∀ x ∈ is.flatMap reads, x ∈ names) :
    runAll stream (m.beside names others) is =
      Machine.besideRun names others (runAll stream m is) := by
  induction is generalizing m with
  | nil => rfl
  | cons i is ih =>
    obtain ⟨hi, his⟩ := List.forall_mem_append.mp h
    rw [runAll_cons, runAll_cons, run_beside stream hi]
    apply Machine.goOn_beside
    intro m'
    exact ih his

end Item

namespace Statement

variable {names : List Text} {others : Store} {m : Machine}

/-- A statement does the same whatever the variables are that it does not mention, and leaves them
alone. -/
theorem run_beside {s : Statement} (h : ∀ x ∈ s.mentions, x ∈ names) :
    s.run (m.beside names others) = Machine.besideRun names others (s.run m) := by
  cases s with
  | declare type name init =>
    cases init with
    | none =>
      rw [run, run, Machine.bind_beside (h name List.mem_cons_self)]
      rfl
    | some e =>
      obtain ⟨hname, he⟩ := List.forall_mem_cons.mp h
      rw [run, run, Machine.eval_beside he]
      apply Machine.andThen_beside
      intro v
      apply Machine.andThen_beside
      intro w
      rw [Machine.bind_beside hname]
      rfl
  | assign name op e =>
    obtain ⟨hname, he⟩ := List.forall_mem_cons.mp h
    have hget : (m.beside names others).state.store.get? name = m.state.store.get? name :=
      Store.get?_beside_of_mem hname
    rw [run, run, Machine.eval_beside he]
    apply Machine.andThen_beside
    intro v
    rw [hget]
    cases m.state.store.get? name with
    | none => rfl
    | some b =>
      apply Machine.andThen_beside
      intro w
      apply Machine.andThen_beside
      intro u
      rw [Machine.bind_beside hname]
      rfl
  | print stream items => exact Item.runAll_beside stream h
  | throw type e =>
    rw [run, run]
    split
    · rw [Machine.eval_beside h]
      apply Machine.andThen_beside
      intro v
      cases v <;> rfl
    · rfl
  | exit e =>
    rw [run, run, Machine.eval_beside h]
    apply Machine.andThen_beside
    intro v
    exact Machine.andThen_beside _ fun n => rfl
  | expr e =>
    rw [run, run, Machine.eval_beside h]
    exact Machine.andThen_beside _ fun v => rfl

/-- Statements leave other variables alone, and do what they do without them. -/
theorem runAll_beside {statements : List Statement}
    (h : ∀ x ∈ statements.flatMap mentions, x ∈ names) :
    runAll (m.beside names others) statements =
      Machine.besideRun names others (runAll m statements) := by
  induction statements generalizing m with
  | nil => rfl
  | cons s rest ih =>
    obtain ⟨hs, hrest⟩ := List.forall_mem_append.mp h
    rw [runAll_cons, runAll_cons, run_beside hs]
    apply Machine.goOn_beside
    intro m'
    exact ih hrest

end Statement

/-- What an interpreter keeps beside its variables. -/
def Interpreter.settings (s : Interpreter) : Nat × Bool × FaultMode :=
  (s.precision, s.boolalpha, s.mode)

/-- A step that has no value leaves the settings, and so does one with a value if what comes after
it does. -/
theorem Machine.settings_andThen {α : Type} {m : Machine} {r : Except Interrupt α}
    {next : α → Machine × Option Interrupt}
    (h : ∀ a, (next a).1.state.settings = m.state.settings) :
    (m.andThen r next).1.state.settings = m.state.settings :=
  andThen_preserves (P := fun m' => m'.state.settings = m.state.settings) rfl h

namespace Item

/-- An operand that sets no format leaves the settings as they are. -/
theorem settings_run (stream : Stream) (m : Machine) {i : Item} (h : i.setsFormat = false) :
    (i.run stream m).1.state.settings = m.state.settings := by
  cases i with
  | value e =>
    apply Machine.settings_andThen
    intro v
    cases stream <;> rfl
  | endl => cases stream <;> rfl
  | boolalpha on => cases h
  | precision e => cases h

private theorem settings_runAll (stream : Stream) (m : Machine) {is : List Item}
    (h : is.any setsFormat = false) :
    (runAll stream m is).1.state.settings = m.state.settings :=
  runAll_keeps (f := fun m => m.state.settings) (fun _ m hi => settings_run stream m hi) h m

end Item

namespace Statement

/-- A statement changes the settings only where an operand of it sets the format. -/
theorem settings_run (m : Machine) {s : Statement} (h : s.setsFormat = false) :
    (s.run m).1.state.settings = m.state.settings := by
  cases s with
  | declare type name init =>
    cases init with
    | none => rfl
    | some e =>
      apply Machine.settings_andThen
      intro v
      exact Machine.settings_andThen fun w => rfl
  | assign name op e =>
    apply Machine.settings_andThen
    intro v
    split
    · rfl
    · apply Machine.settings_andThen
      intro w
      exact Machine.settings_andThen fun u => rfl
  | print stream items => exact Item.settings_runAll stream m h
  | throw type e =>
    rw [run]
    split
    · apply Machine.settings_andThen
      intro v
      cases v <;> rfl
    · rfl
  | exit e =>
    apply Machine.settings_andThen
    intro v
    exact Machine.settings_andThen fun n => rfl
  | expr e => exact Machine.settings_andThen fun v => rfl

/-- Statements that set no format leave the settings as they are. -/
theorem settings_runAll (m : Machine) {statements : List Statement}
    (h : statements.any setsFormat = false) :
    (runAll m statements).1.state.settings = m.state.settings :=
  runAll_keeps (f := fun m => m.state.settings) (fun _ m hs => settings_run m hs) h m

end Statement

namespace Interpreter

variable {s s' : Interpreter} {names : List Text} {block : Text}

/-- Two interpreters with the same variables and settings are the same. -/
theorem eq_of_store_of_settings {s t : Interpreter} (hstore : s.store = t.store)
    (hsettings : s.settings = t.settings) : s = t := by
  cases s
  cases t
  cases hstore
  cases hsettings
  rfl

/-- A block is accepted or refused alike beside other variables. -/
theorem check_beside (others : Store) (h : ∀ x ∈ Statement.mentionedIn block, x ∈ names) :
    (s.beside names others).check block = s.check block := by
  unfold Statement.mentionedIn at h
  unfold check
  cases htext : Statement.ofText block with
  | error e => rfl
  | ok statements =>
    rw [htext] at h
    have hresolve := Statement.resolveAll_beside others.declares s.store.declares h
    rw [← Store.declares_beside] at hresolve
    simp only [beside, hresolve]
    cases Statement.resolveAll s.store.declares statements <;> rfl

private theorem answer_besideRun (s t : Interpreter) (others : Store)
    (r : Machine × Option Interrupt) :
    (Execution.ran (Machine.besideRun names others r).1
        (Machine.besideRun names others r).2).answer s =
      ((Execution.ran r.1 r.2).answer t).map fun x => (x.1, x.2.beside names others) := by
  rcases r with ⟨m, _ | e | ending⟩ <;> rfl

/-- A block answers alike whatever the variables are that it does not mention, and leaves them as
they are. -/
theorem execute_beside (others : Store) (h : ∀ x ∈ Statement.mentionedIn block, x ∈ names) :
    (s.beside names others).execute block =
      (s.execute block).map fun r => (r.1, r.2.beside names others) := by
  have hchecks := check_beside (s := s) others h
  cases hcheck : s.check block with
  | error e =>
    rw [hcheck] at hchecks
    rw [execute_of_check_error hcheck, execute_of_check_error hchecks]
    rfl
  | ok statements =>
    rw [hcheck] at hchecks
    obtain ⟨htext, -⟩ := check_eq_ok.mp hcheck
    have hmentions : ∀ x ∈ statements.flatMap Statement.mentions, x ∈ names := by
      simpa only [Statement.mentionedIn, htext] using h
    have hrun : Statement.runAll ⟨s.beside names others, {}⟩ statements =
        Machine.besideRun names others (Statement.runAll ⟨s, {}⟩ statements) :=
      Statement.runAll_beside (m := ⟨s, {}⟩) hmentions
    rw [execute_of_check hcheck, execute_of_check hchecks, hrun]
    exact answer_besideRun _ s others _

/-- A block changes no variable that it does not mention. -/
theorem get?_of_execute {a : Answer} (h : s.execute block = .ok (a, s')) {x : Text}
    (hx : x ∉ Statement.mentionedIn block) : s'.store.get? x = s.store.get? x := by
  have hself : s.beside (Statement.mentionedIn block) s.store = s := by
    simp only [beside, Store.beside_self]
  have hframe := execute_beside (s := s) s.store fun x (hx : x ∈ Statement.mentionedIn block) => hx
  rw [hself, h] at hframe
  have hstate : s' = s'.beside (Statement.mentionedIn block) s.store :=
    congrArg Prod.snd (Except.ok.inj hframe)
  rw [hstate]
  exact Store.get?_beside_of_notMem hx

/-- A block that does not set the output format leaves the settings. -/
theorem settings_of_execute {a : Answer} (h : s.execute block = .ok (a, s'))
    (hformat : Statement.formatSetIn block = false) : s'.settings = s.settings := by
  rcases state_of_execute h with rfl | ⟨statements, hcheck, rfl⟩
  · rfl
  · obtain ⟨htext, -⟩ := check_eq_ok.mp hcheck
    have hany : statements.any Statement.setsFormat = false := by
      simpa only [Statement.formatSetIn, htext] using hformat
    exact Statement.settings_runAll ⟨s, {}⟩ hany

/-- A block answers alike after another one that has none of its variables and does not set the
output format. -/
theorem execute_after {a b : Text} {x y : Answer} {s₁ s₂ : Interpreter}
    (hapart : ∀ name ∈ Statement.mentionedIn a, name ∉ Statement.mentionedIn b)
    (hformat : Statement.formatSetIn a = false) (h₁ : s.execute a = .ok (x, s₁))
    (h₂ : s.execute b = .ok (y, s₂)) :
    s₁.execute b = .ok (y, s₂.beside (Statement.mentionedIn b) s₁.store) := by
  have hstate : s.beside (Statement.mentionedIn b) s₁.store = s₁ := by
    apply eq_of_store_of_settings
    · ext name : 1
      by_cases hname : name ∈ Statement.mentionedIn b
      · have hnot : name ∉ Statement.mentionedIn a := fun ha => hapart name ha hname
        exact (Store.get?_beside_of_mem hname).trans (get?_of_execute h₁ hnot).symm
      · exact Store.get?_beside_of_notMem hname
    · exact (settings_of_execute h₁ hformat).symm
  have hexecute := execute_beside (s := s) s₁.store
    fun name (hname : name ∈ Statement.mentionedIn b) => hname
  rw [hstate, h₂] at hexecute
  exact hexecute

/-- Two blocks without a common variable, neither of which sets the output format: where neither
ends the process, each answers after the other as it does before it, with the same result and
output, and both orders leave the same state. -/
theorem execute_comm {a b : Text} {x y : Answer} {s₁ s₂ : Interpreter}
    (hapart : ∀ name ∈ Statement.mentionedIn a, name ∉ Statement.mentionedIn b)
    (ha : Statement.formatSetIn a = false) (hb : Statement.formatSetIn b = false)
    (h₁ : s.execute a = .ok (x, s₁)) (h₂ : s.execute b = .ok (y, s₂)) :
    ∃ last, s₁.execute b = .ok (y, last) ∧ s₂.execute a = .ok (x, last) := by
  have hapart' : ∀ name ∈ Statement.mentionedIn b, name ∉ Statement.mentionedIn a :=
    fun name hname ha => hapart name ha hname
  have hsame : s₂.beside (Statement.mentionedIn b) s₁.store =
      s₁.beside (Statement.mentionedIn a) s₂.store := by
    apply eq_of_store_of_settings
    · ext name : 1
      simp only [beside]
      by_cases hnameb : name ∈ Statement.mentionedIn b
      · rw [Store.get?_beside_of_mem hnameb, Store.get?_beside_of_notMem (hapart' name hnameb)]
      · rw [Store.get?_beside_of_notMem hnameb]
        by_cases hnamea : name ∈ Statement.mentionedIn a
        · rw [Store.get?_beside_of_mem hnamea]
        · rw [Store.get?_beside_of_notMem hnamea, get?_of_execute h₁ hnamea,
            get?_of_execute h₂ hnameb]
    · exact (settings_of_execute h₂ hb).trans (settings_of_execute h₁ ha).symm
  have hback := execute_after hapart' hb h₂ h₁
  rw [← hsame] at hback
  exact ⟨_, execute_after hapart ha h₁ h₂, hback⟩

/-- A block that fails at a division by zero after it has declared a variable, and one that declares
another variable and prints it. -/
theorem execute_comm_division :
    let s : Interpreter := { mode := .catchable }
    let a := "int x = 7; x = x / 0;".toList
    let b := "int y = 2; std::cout << y;".toList
    (∀ name ∈ Statement.mentionedIn a, name ∉ Statement.mentionedIn b) ∧
      Statement.formatSetIn a = false ∧ Statement.formatSetIn b = false ∧
      ∃ fault s₁ s₂ last, s.execute a = .ok (.raised fault {}, s₁) ∧
        s.execute b = .ok (.done ⟨"2".toList, []⟩, s₂) ∧
        s₁.execute b = .ok (.done ⟨"2".toList, []⟩, last) ∧
        s₂.execute a = .ok (.raised fault {}, last) := by
  have hscana : Token.scan "int x = 7; x = x / 0;".toList =
      .ok [.name "int".toList, .name "x".toList, .sym .eq, .int 7, .sym .semi,
        .name "x".toList, .sym .eq, .name "x".toList, .sym .slash, .int 0, .sym .semi] := by
    decide +kernel
  have hscanb : Token.scan "int y = 2; std::cout << y;".toList =
      .ok [.name "int".toList, .name "y".toList, .sym .eq, .int 2, .sym .semi,
        .name "std::cout".toList, .sym .shl, .name "y".toList, .sym .semi] := by decide +kernel
  have hofa : Statement.ofText _ = .ok [.declare .int "x".toList (some (.int 7)),
      .assign "x".toList none (.binary .div (.var "x".toList) (.int 0))] :=
    Statement.ofText_eq_ok.mpr ⟨_, hscana, rfl⟩
  have hofb : Statement.ofText _ = .ok [.declare .int "y".toList (some (.int 2)),
      .print .out [.value (.var "y".toList)]] := Statement.ofText_eq_ok.mpr ⟨_, hscanb, rfl⟩
  have hchecka : ({ mode := .catchable } : Interpreter).check _ = .ok _ :=
    check_eq_ok.mpr ⟨hofa, _, rfl⟩
  have hcheckb : ({ mode := .catchable } : Interpreter).check _ = .ok _ :=
    check_eq_ok.mpr ⟨hofb, _, rfl⟩
  have hexecutea := execute_of_check hchecka
  have hexecuteb := execute_of_check hcheckb
  have hapart : ∀ name ∈ Statement.mentionedIn "int x = 7; x = x / 0;".toList,
      name ∉ Statement.mentionedIn "int y = 2; std::cout << y;".toList := by
    simp only [Statement.mentionedIn, hofa, hofb]
    decide
  have hformata : Statement.formatSetIn "int x = 7; x = x / 0;".toList = false := by
    simp only [Statement.formatSetIn, hofa]
    rfl
  have hformatb : Statement.formatSetIn "int y = 2; std::cout << y;".toList = false := by
    simp only [Statement.formatSetIn, hofb]
    rfl
  obtain ⟨last, hb, ha⟩ := execute_comm hapart hformata hformatb hexecutea hexecuteb
  exact ⟨hapart, hformata, hformatb, _, _, _, last, hexecutea, hexecuteb, hb, ha⟩

end Interpreter

end Literate

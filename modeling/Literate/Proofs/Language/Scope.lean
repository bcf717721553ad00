import Literate.Engine.Interpreter
import Literate.Proofs.Result

/-!
# Names are resolved before anything runs

Resolution follows a block with the names known so far, and a run binds exactly those names. So a
block whose names resolve never comes upon an undeclared one, and never declares a bound one,
however far its run gets.
-/

namespace Literate

/-- An interrupt other than the use of an undeclared name. -/
def Interrupt.Declared (i : Interrupt) : Prop :=
  ∀ name, i ≠ .error (.undeclared name)

/-- A step that may fail, but not for an undeclared name. -/
def Declared {α : Type} (r : Except Interrupt α) : Prop :=
  ∀ i, r = .error i → i.Declared

namespace Declared

variable {α β : Type}

private theorem ok (a : α) : Declared (.ok a : Except Interrupt α) := by
  rintro i ⟨⟩

private theorem error {i : Interrupt} (h : i.Declared) :
    Declared (.error i : Except Interrupt α) := by
  rintro _ ⟨⟩
  exact h

/-- Steps one after another fail for an undeclared name only if one of them does. -/
theorem bind {r : Except Interrupt α} {f : α → Except Interrupt β} (hr : Declared r)
    (hf : ∀ a, Declared (f a)) : Declared (r >>= f) := by
  cases r with
  | ok a => exact hf a
  | error i =>
    rintro _ ⟨⟩
    exact hr i rfl

private theorem of_signal (mode : FaultMode) : mode.divisionByZero.Declared := by
  intro name
  cases mode <;> simp [FaultMode.divisionByZero]

private theorem unary (op : UnaryOp) (v : Value) : Declared (op.apply v) := by
  unfold UnaryOp.apply
  split
  · exact ok _
  · exact ok _
  · exact ok _
  · exact error (by simp [Interrupt.Declared])

private theorem onInts (mode : FaultMode) (op : BinaryOp) (a b : Int64) :
    Declared (op.onInts mode a b) := by
  unfold BinaryOp.onInts
  split
  · exact ok _
  · exact ok _
  · exact ok _
  · split
    · exact error (of_signal mode)
    · exact ok _
  · split
    · exact error (of_signal mode)
    · exact ok _
  · exact ok _

/-- An operation on two values never misses a name. -/
theorem binary (mode : FaultMode) (op : BinaryOp) (left right : Value) :
    Declared (op.apply mode left right) := by
  unfold BinaryOp.apply
  split
  · exact onInts mode op _ _
  · split
    · exact ok _
    · exact error (by simp [Interrupt.Declared])
  · exact error (by simp [Interrupt.Declared])

private theorem call (name : Text) (arguments : List Value) :
    Declared (Function.call name arguments) := by
  unfold Function.call
  split
  · exact ok _
  · exact error (by simp [Interrupt.Declared])

private theorem convert (type : VarType) (v : Value) : Declared (Literate.convert type v) := by
  unfold Literate.convert
  split
  · exact ok _
  · exact error (by simp [Interrupt.Declared])

private theorem toInt64 (context : Text) (v : Value) : Declared (v.toInt64 context) := by
  unfold Value.toInt64
  split
  · exact ok _
  · exact error (by simp [Interrupt.Declared])

end Declared

namespace Expr

mutual

/-- An expression of known names evaluates, or fails, without an undeclared one. -/
theorem declared_eval {known : Known} {store : Store}
    (hk : ∀ x, known x = true → store.declares x = true) (mode : FaultMode) :
    (e : Expr) → e.resolve known = .ok () → Declared (e.eval mode store)
  | .int n, _ => by unfold Expr.eval; exact .ok _
  | .double x, _ => by unfold Expr.eval; exact .ok _
  | .bool b, _ => by unfold Expr.eval; exact .ok _
  | .str s, _ => by unfold Expr.eval; exact .ok _
  | .var name, h => by
    unfold Expr.resolve at h
    split at h
    · next hname =>
      obtain ⟨b, hb⟩ := Option.isSome_iff_exists.mp (hk name hname)
      unfold Expr.eval
      rw [hb]
      exact .ok _
    · cases h
  | .unary op e, h => by
    unfold Expr.resolve at h
    unfold Expr.eval
    exact (declared_eval hk mode e h).bind fun v => .unary op v
  | .binary op l r, h => by
    unfold Expr.resolve at h
    obtain ⟨⟨⟩, hl, hr⟩ := bind_eq_ok.mp h
    have hl := declared_eval hk mode l hl
    have hr := declared_eval hk mode r hr
    cases op with
    | and =>
      unfold Expr.eval
      refine hl.bind fun a => ?_
      split
      · exact hr.bind fun b => .ok _
      · exact .ok _
    | or =>
      unfold Expr.eval
      refine hl.bind fun a => ?_
      split
      · exact .ok _
      · exact hr.bind fun b => .ok _
    | _ =>
      unfold Expr.eval
      exact hl.bind fun a => hr.bind fun b => .binary mode _ a b
  | .call name arguments, h => by
    unfold Expr.resolve at h
    split at h
    · unfold Expr.eval
      exact (declared_evalAll hk mode arguments h).bind fun vs => .call name vs
    · cases h

/-- So do expressions in order. -/
theorem declared_evalAll {known : Known} {store : Store}
    (hk : ∀ x, known x = true → store.declares x = true) (mode : FaultMode) :
    (es : List Expr) → resolveAll known es = .ok () → Declared (evalAll mode store es)
  | [], _ => .ok _
  | e :: es, h => by
    unfold Expr.resolveAll at h
    obtain ⟨⟨⟩, he, hes⟩ := bind_eq_ok.mp h
    unfold Expr.evalAll
    have hes := declared_evalAll hk mode es hes
    exact (declared_eval hk mode e he).bind fun v => hes.bind fun vs => .ok _

end

end Expr

/-- A run that may stop, but not at an undeclared name. -/
def DeclaredStop (r : Machine × Option Interrupt) : Prop :=
  ∀ i, r.2 = some i → i.Declared

namespace DeclaredStop

private theorem none (m : Machine) : DeclaredStop (m, none) := by
  rintro i ⟨⟩

private theorem some {i : Interrupt} (m : Machine) (h : i.Declared) : DeclaredStop (m, some i) := by
  rintro _ ⟨⟩
  exact h

/-- A step with its value never stops at an undeclared name, if what follows does not. -/
theorem andThen {α : Type} {m : Machine} {r : Except Interrupt α}
    {next : α → Machine × Option Interrupt} (hr : Declared r)
    (hn : ∀ a, DeclaredStop (next a)) : DeclaredStop (m.andThen r next) := by
  cases r with
  | ok a => exact hn a
  | error i => exact some m (hr i rfl)

end DeclaredStop

/-- A step that goes on to the end has a value. -/
theorem Machine.andThen_eq_none {α : Type} {m m' : Machine} {r : Except Interrupt α}
    {next : α → Machine × Option Interrupt} (h : m.andThen r next = (m', none)) :
    ∃ a, r = .ok a ∧ next a = (m', none) := by
  cases r with
  | ok a => exact ⟨a, rfl, h⟩
  | error i => simp [Machine.andThen] at h

namespace Item

/-- An operand of known names is written, or stops, without an undeclared one. -/
theorem declared_run {m : Machine} {known : Known} (stream : Stream) (i : Item)
    (hk : ∀ x, known x = true → m.state.store.declares x = true)
    (h : i.resolve known = .ok ()) : DeclaredStop (i.run stream m) := by
  cases i with
  | value e => exact .andThen (Expr.declared_eval hk _ e h) fun v => .none _
  | endl => exact .none _
  | boolalpha on => exact .none _
  | precision e =>
    exact .andThen (Expr.declared_eval hk _ e h) fun v => .andThen (.toInt64 _ v) fun n => .none _

/-- Printing leaves the variables alone. -/
theorem store_run (stream : Stream) (m : Machine) (i : Item) :
    (i.run stream m).1.state.store = m.state.store := by
  cases i with
  | value e =>
    simp only [run, Machine.andThen]
    split
    · cases stream <;> rfl
    · rfl
  | endl => cases stream <;> rfl
  | boolalpha on => rfl
  | precision e =>
    simp only [run, Machine.andThen]
    split
    · split <;> rfl
    · rfl

/-- Printing all of some operands leaves them alone as well. -/
theorem store_runAll (stream : Stream) (m : Machine) (is : List Item) :
    (runAll stream m is).1.state.store = m.state.store := by
  induction is generalizing m with
  | nil => rfl
  | cons i is ih =>
    have hi := store_run stream m i
    rw [runAll]
    rcases hrun : i.run stream m with ⟨m', _ | stop⟩
    · rw [hrun] at hi
      exact (ih m').trans hi
    · rw [hrun] at hi
      exact hi

/-- All operands of known names are written, or stop, without an undeclared one. -/
theorem declared_runAll {m : Machine} {known : Known} (stream : Stream) (is : List Item)
    (hk : ∀ x, known x = true → m.state.store.declares x = true)
    (h : resolveAll known is = .ok ()) : DeclaredStop (runAll stream m is) := by
  induction is generalizing m with
  | nil => exact .none m
  | cons i is ih =>
    obtain ⟨⟨⟩, hi, his⟩ := bind_eq_ok.mp h
    have hdeclared := declared_run stream i hk hi
    have hstore := store_run stream m i
    rw [runAll]
    rcases hrun : i.run stream m with ⟨m', _ | stop⟩
    · rw [hrun] at hstore
      exact ih (by rwa [hstore]) his
    · rw [hrun] at hdeclared
      exact hdeclared

end Item

namespace Statement

variable {known after : Known} {e : Expr}

/-- A declaration resolves if its value does and its name is new. -/
theorem resolve_declare_eq_ok {type : VarType} {name : Text} {init : Option Expr} :
    resolve known (.declare type name init) = .ok after ↔
      (∀ e ∈ init, e.resolve known = .ok ()) ∧ known name = false ∧
        after = known.insert name := by
  cases init with
  | none => cases hn : known name <;> simp [resolve, hn, bind, Except.bind, eq_comm]
  | some e =>
    cases he : e.resolve known with
    | error err => simp [resolve, he, bind, Except.bind]
    | ok u => cases hn : known name <;> simp [resolve, he, hn, bind, Except.bind, eq_comm]

/-- An assignment resolves if its value does and its name is known. -/
theorem resolve_assign_eq_ok {name : Text} {op : Option BinaryOp} :
    resolve known (.assign name op e) = .ok after ↔
      known name = true ∧ e.resolve known = .ok () ∧ after = known := by
  cases hn : known name with
  | false => simp [resolve, hn]
  | true =>
    cases he : e.resolve known <;> simp [resolve, hn, he, bind, Except.bind, eq_comm]

/-- A statement that resolves with the names of the machine never stops at an undeclared name. -/
theorem declared_run {m : Machine} (s : Statement)
    (h : s.resolve m.state.store.declares = .ok after) : DeclaredStop (s.run m) := by
  have hk : ∀ x, m.state.store.declares x = true → m.state.store.declares x = true :=
    fun _ h => h
  cases s with
  | declare type name init =>
    obtain ⟨hinit, -, -⟩ := resolve_declare_eq_ok.mp h
    cases init with
    | none => exact .none _
    | some e =>
      exact .andThen (Expr.declared_eval hk _ e (hinit e rfl)) fun v =>
        .andThen (.convert type v) fun v => .none _
  | assign name op e =>
    obtain ⟨hname, he, -⟩ := resolve_assign_eq_ok.mp h
    obtain ⟨b, hb⟩ := Option.isSome_iff_exists.mp hname
    refine .andThen (Expr.declared_eval hk _ e he) fun v => ?_
    rw [hb]
    refine .andThen ?_ fun v => .andThen (.convert b.type v) fun v => .none _
    cases op with
    | none => exact .ok v
    | some op => exact .binary _ op _ _
  | print stream items =>
    obtain ⟨⟨⟩, hitems, -⟩ := bind_eq_ok.mp h
    exact Item.declared_runAll stream items hk hitems
  | throw type e =>
    obtain ⟨⟨⟩, he, -⟩ := bind_eq_ok.mp h
    rw [run]
    split
    · refine .andThen (Expr.declared_eval hk _ e he) fun v => ?_
      split
      · exact .some _ (by simp [Interrupt.Declared])
      · exact .some _ (by simp [Interrupt.Declared])
    · exact .some _ (by simp [Interrupt.Declared])
  | exit e =>
    obtain ⟨⟨⟩, he, -⟩ := bind_eq_ok.mp h
    exact .andThen (Expr.declared_eval hk _ e he) fun v => .andThen (.toInt64 _ v) fun n =>
      .some _ (by simp [Interrupt.Declared])
  | expr e =>
    obtain ⟨⟨⟩, he, -⟩ := bind_eq_ok.mp h
    exact .andThen (Expr.declared_eval hk _ e he) fun v => .none _

/-- A statement that runs to its end leaves exactly the names that resolution expects. -/
theorem declares_run {m m' : Machine} {s : Statement}
    (h : s.resolve m.state.store.declares = .ok after) (hr : s.run m = (m', none)) :
    m'.state.store.declares = after := by
  cases s with
  | declare type name init =>
    obtain ⟨-, -, rfl⟩ := resolve_declare_eq_ok.mp h
    cases init with
    | none =>
      obtain ⟨rfl, -⟩ := Prod.mk.inj hr
      funext x
      exact Store.declares_bind ..
    | some e =>
      obtain ⟨v, -, hr⟩ := Machine.andThen_eq_none hr
      obtain ⟨v, -, hr⟩ := Machine.andThen_eq_none hr
      obtain ⟨rfl, -⟩ := Prod.mk.inj hr
      funext x
      exact Store.declares_bind ..
  | assign name op e =>
    obtain ⟨hname, -, rfl⟩ := resolve_assign_eq_ok.mp h
    obtain ⟨b, hb⟩ := Option.isSome_iff_exists.mp hname
    obtain ⟨v, -, hr⟩ := Machine.andThen_eq_none hr
    rw [hb] at hr
    obtain ⟨v, -, hr⟩ := Machine.andThen_eq_none hr
    obtain ⟨v, -, hr⟩ := Machine.andThen_eq_none hr
    obtain ⟨rfl, -⟩ := Prod.mk.inj hr
    funext x
    refine (Store.declares_bind ..).trans ?_
    by_cases hx : x = name
    · subst hx; simp [hname]
    · simp [hx]
  | print stream items =>
    obtain ⟨⟨⟩, -, ⟨⟩⟩ := bind_eq_ok.mp h
    have hstore := Item.store_runAll stream m items
    rw [run] at hr
    rw [hr] at hstore
    rw [hstore]
  | throw type e =>
    rw [run] at hr
    split at hr
    · obtain ⟨v, -, hr⟩ := Machine.andThen_eq_none hr
      split at hr <;> simp [Machine.stop] at hr
    · simp [Machine.stop] at hr
  | exit e =>
    obtain ⟨v, -, hr⟩ := Machine.andThen_eq_none hr
    obtain ⟨n, -, hr⟩ := Machine.andThen_eq_none hr
    simp at hr
  | expr e =>
    obtain ⟨⟨⟩, -, ⟨⟩⟩ := bind_eq_ok.mp h
    obtain ⟨v, -, hr⟩ := Machine.andThen_eq_none hr
    obtain ⟨rfl, -⟩ := Prod.mk.inj hr
    rfl

/-- A declaration that is carried out binds its name. -/
theorem get?_run_declare_self {m m' : Machine} {name : Text} {type : VarType} {init : Option Expr}
    (hr : run m (.declare type name init) = (m', none)) :
    ∃ v, m'.state.store.get? name = some (.ofDeclared type v) := by
  cases init with
  | none =>
    obtain ⟨rfl, -⟩ := Prod.mk.inj hr
    exact ⟨_, Store.get?_bind_self ..⟩
  | some e =>
    obtain ⟨u, -, hr⟩ := Machine.andThen_eq_none hr
    obtain ⟨v, -, hr⟩ := Machine.andThen_eq_none hr
    obtain ⟨rfl, -⟩ := Prod.mk.inj hr
    exact ⟨v, Store.get?_bind_self ..⟩

/-- A declaration leaves the variables of every other name alone. -/
theorem get?_run_declare {m : Machine} {name x : Text} {b : Binding} (type : VarType)
    (init : Option Expr) (hx : x ≠ name) (hb : m.state.store.get? x = some b) :
    (run m (.declare type name init)).1.state.store.get? x = some b := by
  have hbind (c : Binding) : (m.bind name c).state.store.get? x = some b := by
    rw [← hb]
    exact (Store.get?_bind ..).trans (if_neg hx)
  cases init with
  | none => exact hbind _
  | some e =>
    simp only [run, Machine.andThen]
    split
    · split
      · exact hbind _
      · exact hb
    · exact hb

/-- Running statements from a machine comes to a statement in a machine. -/
inductive Reaches : Machine → List Statement → Statement → Machine → Prop
  | here (m : Machine) (s : Statement) (rest : List Statement) : Reaches m (s :: rest) s m
  | next {m m' m'' : Machine} {s t : Statement} {rest : List Statement}
    (hs : s.run m = (m', none)) (ht : Reaches m' rest t m'') : Reaches m (s :: rest) t m''

/-- A run comes to its own statements only. -/
theorem Reaches.mem {m m₀ : Machine} {statements : List Statement} {s : Statement}
    (h : Reaches m statements s m₀) : s ∈ statements := by
  induction h with
  | here => exact List.mem_cons_self
  | next _ _ ih => exact List.mem_cons_of_mem _ ih

/-- A run that stops has come to the statement that stopped it. -/
theorem exists_reaches_of_stop {m m' : Machine} {statements : List Statement} {i : Interrupt}
    (h : runAll m statements = (m', some i)) :
    ∃ s m₀, Reaches m statements s m₀ ∧ s.run m₀ = (m', some i) := by
  induction statements generalizing m with
  | nil => simp [runAll] at h
  | cons s rest ih =>
    rw [runAll] at h
    cases hs : s.run m with
    | mk m₁ stop =>
      rw [hs] at h
      cases stop with
      | none =>
        obtain ⟨t, m₀, ht, hrun⟩ := ih h
        exact ⟨t, m₀, .next hs ht, hrun⟩
      | some stop => exact ⟨s, m, .here m s rest, hs.trans h⟩

/-- Every statement that a resolved block comes to resolves with the names bound by then. -/
theorem Reaches.resolve {m m₀ : Machine} {statements : List Statement} {s : Statement}
    (hr : Reaches m statements s m₀) {after : Known}
    (h : resolveAll m.state.store.declares statements = .ok after) :
    ∃ known, s.resolve m₀.state.store.declares = .ok known := by
  induction hr with
  | here m s rest =>
    obtain ⟨known, hs, -⟩ := bind_eq_ok.mp h
    exact ⟨known, hs⟩
  | next hs ht ih =>
    obtain ⟨known, hknown, hrest⟩ := bind_eq_ok.mp h
    exact ih (by rwa [declares_run hknown hs])

/-- Statements that run to their end leave exactly the names that resolution expects. -/
theorem declares_runAll {m m' : Machine} {statements : List Statement} {after : Known}
    (h : resolveAll m.state.store.declares statements = .ok after)
    (hr : runAll m statements = (m', none)) : m'.state.store.declares = after := by
  induction statements generalizing m with
  | nil =>
    obtain ⟨rfl, -⟩ := Prod.mk.inj hr
    exact Except.ok.inj h
  | cons s rest ih =>
    obtain ⟨known, hknown, hrest⟩ := bind_eq_ok.mp h
    rw [runAll] at hr
    cases hs : s.run m with
    | mk m₁ stop =>
      rw [hs] at hr
      cases stop with
      | none => exact ih (by rwa [declares_run hknown hs]) hr
      | some stop => simp at hr

end Statement

/-- Texts that differ within their first characters differ whatever follows them. -/
theorem Text.append_ne_of_take {k : Nat} {a b : Text} (ha : k ≤ a.length) (hb : k ≤ b.length)
    (h : a.take k ≠ b.take k) (x y : Text) : a ++ x ≠ b ++ y := by
  intro he
  apply h
  rw [← List.take_append_of_le_length ha, he, List.take_append_of_le_length hb]

private theorem ResolveError.message_undeclared (name : Text) :
    (undeclared name).message =
      "error: use of undeclared identifier '".toList ++ (name ++ "'".toList) :=
  List.append_assoc _ _ _

/-- A text that begins otherwise is not the message of an undeclared name. -/
theorem ResolveError.append_ne_message_undeclared (t : Text) (ht : 9 ≤ t.length)
    (hne : t.take 9 ≠ "error: use of undeclared identifier '".toList.take 9) (rest name : Text) :
    t ++ rest ≠ (undeclared name).message := by
  have hlength : 9 ≤ "error: use of undeclared identifier '".toList.length := by decide
  rw [message_undeclared]
  exact Text.append_ne_of_take ht hlength hne rest _

/-- No other error of a run reads like that of an undeclared name. -/
theorem RunError.raised_ne_undeclared {e : RunError} (h : (Interrupt.error e).Declared)
    (name : Text) : e.raised ≠ .other (ResolveError.undeclared name).message := by
  intro he
  cases e with
  | undeclared x => exact h x rfl
  | badOperand type =>
    refine ResolveError.append_ne_message_undeclared "error: invalid argument type '".toList
      (by decide) (by decide) (type ++ "' to unary expression".toList) name ?_
    rw [← Raised.other.inj he, List.append_assoc]
  | badOperands left right =>
    refine ResolveError.append_ne_message_undeclared
      "error: invalid operands to binary expression ('".toList (by decide) (by decide)
      (left ++ ("' and '".toList ++ (right ++ "')".toList))) name ?_
    rw [← Raised.other.inj he]
    simp only [List.append_assoc]
  | noFunction x =>
    refine ResolveError.append_ne_message_undeclared
      "error: no matching function for call to '".toList (by decide) (by decide)
      (x ++ "'".toList) name ?_
    rw [← Raised.other.inj he, List.append_assoc]
  | badInit type value =>
    refine ResolveError.append_ne_message_undeclared
      "error: cannot initialize a variable of type '".toList (by decide) (by decide)
      (type.label ++ ("' with an lvalue of type '".toList ++ (value ++ "'".toList))) name ?_
    rw [← Raised.other.inj he]
    simp only [List.append_assoc]
  | unknownException type =>
    refine ResolveError.append_ne_message_undeclared "error: unknown type name '".toList
      (by decide) (by decide) (type ++ "'".toList) name ?_
    rw [← Raised.other.inj he, List.append_assoc]
  | noConstructor type value =>
    refine ResolveError.append_ne_message_undeclared
      "error: no matching constructor for initialization of '".toList (by decide) (by decide)
      (type ++ ("' from '".toList ++ (value ++ "'".toList))) name ?_
    rw [← Raised.other.inj he]
    simp only [List.append_assoc]
  | divisionByZero => cases he
  | thrown type what => cases he

namespace Interpreter

/-- A block is accepted with the names of the state exactly if it reads as statements whose names
can be resolved. -/
theorem check_eq_ok {state : Interpreter} {block : Text} {statements : List Statement} :
    state.check block = .ok statements ↔
      Statement.ofText block = .ok statements ∧
        ∃ known, Statement.resolveAll state.store.declares statements = .ok known := by
  unfold check
  cases Statement.ofText block with
  | error e => simp
  | ok ss =>
    cases hk : Statement.resolveAll state.store.declares ss with
    | error e =>
      simp only [hk, reduceCtorEq, false_iff, not_and, not_exists]
      rintro ⟨⟩ known
      simp [hk]
    | ok known =>
      simp only [hk, Except.ok.injEq]
      constructor
      · rintro rfl
        exact ⟨rfl, known, hk⟩
      · exact fun h => h.1

/-- A block that is refused is answered with the message of the refusal, and changes nothing. -/
theorem execute_of_check_error {state : Interpreter} {block : Text} {e : BlockError}
    (h : state.check block = .error e) :
    state.execute block = .ok (.raised (.other e.message) {}, state) := by
  simp only [execute, run, h]
  rfl

/-- A block that is accepted answers what its statements come to. -/
theorem execute_of_check {state : Interpreter} {block : Text} {statements : List Statement}
    (h : state.check block = .ok statements) :
    state.execute block =
      (Execution.ran (Statement.runAll ⟨state, {}⟩ statements).1
        (Statement.runAll ⟨state, {}⟩ statements).2).answer state := by
  simp only [execute, run, h]

private theorem stop_of_answer_raised {state after : Interpreter} {m : Machine}
    {stop : Option Interrupt}
    {fault : Raised} {output : Captured}
    (h : (Execution.ran m stop).answer state = .ok (.raised fault output, after)) :
    ∃ e, stop = some (.error e) ∧ fault = e.raised := by
  rcases stop with _ | e | ending
  · cases h
  · cases h
    exact ⟨e, rfl, rfl⟩
  · cases h

/-- A block is refused before it changes anything, or it starts to run. Then no statement it comes
to stops at an undeclared name, and every declaration it comes to finds its name unbound, keeps the
bindings there are and, where it is carried out, adds one for its name. -/
theorem names_resolved_before_run (state : Interpreter) (block : Text) :
    (∃ e, state.check block = .error e ∧
      state.execute block = .ok (.raised (.other e.message) {}, state)) ∨
    ∃ statements, state.check block = .ok statements ∧
      state.execute block =
        (Execution.ran (Statement.runAll ⟨state, {}⟩ statements).1
          (Statement.runAll ⟨state, {}⟩ statements).2).answer state ∧
      (∀ s m, Statement.Reaches ⟨state, {}⟩ statements s m →
        (∀ name, (s.run m).2 ≠ some (.error (.undeclared name))) ∧
        ∀ type name init, s = .declare type name init →
          m.state.store.get? name = none ∧
          (∀ x b, m.state.store.get? x = some b → (s.run m).1.state.store.get? x = some b) ∧
          ∀ m', s.run m = (m', none) →
            ∃ v, m'.state.store.get? name = some (.ofDeclared type v)) ∧
      ∀ fault output after, state.execute block = .ok (.raised fault output, after) →
        ∀ name, fault ≠ .other (ResolveError.undeclared name).message := by
  cases hcheck : state.check block with
  | error e => exact .inl ⟨e, rfl, execute_of_check_error hcheck⟩
  | ok statements =>
    obtain ⟨-, known, hknown⟩ := check_eq_ok.mp hcheck
    have hexecute := execute_of_check hcheck
    have hstep : ∀ s m, Statement.Reaches ⟨state, {}⟩ statements s m →
        ∃ after, s.resolve m.state.store.declares = .ok after :=
      fun s m hr => hr.resolve hknown
    refine .inr ⟨statements, rfl, hexecute, fun s m hr => ?_, fun fault output after h => ?_⟩
    · obtain ⟨after, hs⟩ := hstep s m hr
      refine ⟨fun name hstop => s.declared_run hs _ hstop name rfl, ?_⟩
      rintro type name init rfl
      obtain ⟨-, hname, -⟩ := Statement.resolve_declare_eq_ok.mp hs
      have hnone : m.state.store.get? name = none :=
        Option.not_isSome_iff_eq_none.mp (by simpa [Store.declares] using hname)
      refine ⟨hnone, fun x b hb => ?_, fun m' => Statement.get?_run_declare_self⟩
      refine Statement.get?_run_declare type init (fun hx => ?_) hb
      rw [hx, hnone] at hb
      cases hb
    · rw [hexecute] at h
      obtain ⟨e, hstop, rfl⟩ := stop_of_answer_raised h
      obtain ⟨s, m, hr, hrun⟩ := Statement.exists_reaches_of_stop (Prod.ext rfl hstop)
      obtain ⟨after, hs⟩ := hstep s m hr
      exact RunError.raised_ne_undeclared (s.declared_run hs _ (by rw [hrun]))

end Interpreter

end Literate

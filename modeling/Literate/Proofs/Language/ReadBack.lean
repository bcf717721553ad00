import Literate.Proofs.Language.Parenthesized
import Literate.Proofs.Language.Typing

/-!
# Declared names are read back

A declaration takes its name from the tokens of its block, so in every state that calls lead to,
each declared name is a name of the lexer. Such a name in parentheses is read as one name again and
is printed as the value of its variable, unless it has a meaning of its own there. A declaration
does not refuse these names: the truth values, the line end and the changes of the number format.
-/

namespace Literate

namespace Token

/-- A text that is read as one name, up to its end. -/
def IsName : Text → Prop
  | [] => False
  | c :: rest => isNameStart c = true ∧ readName rest = (rest, [])

/-- The part of a text that goes on a name goes on it up to its end. -/
theorem readName_fst (t : Text) : readName (readName t).1 = ((readName t).1, []) := by
  fun_induction readName t with
  | case1 c rest hc ih => rw [readName, if_pos hc, ih]
  | case2 => rfl
  | case3 c rest _ hc ih => rw [readName_cons_of_isNameChar hc, ih]
  | case4 => rfl
  | case5 => rfl

/-- A number is no name. -/
theorem readNumber?_ne_name {t : Text} {r : Token × Text} (h : readNumber? t = some r) (x : Text) :
    r.1 ≠ .name x := by
  intro hname
  unfold readNumber? at h
  dsimp only at h
  split at h
  · split at h <;> cases h <;> cases hname
  · split at h
    · cases h
      cases hname
    · split at h <;> cases h
      cases hname

/-- What the lexer reads as a name is one. -/
theorem isName_of_next? {c : Char} {rest x after : Text}
    (h : next? c rest = some (some (.name x), after)) : IsName x := by
  unfold next? at h
  split at h
  · cases h
  split at h
  · cases h
  split at h
  · next hc =>
    cases h
    exact ⟨hc, readName_fst rest⟩
  split at h
  · obtain ⟨r, hnumber, hr⟩ := Option.map_eq_some_iff.mp h
    exact absurd (Option.some.inj (congrArg Prod.fst hr)) (readNumber?_ne_name hnumber x)
  split at h
  · obtain ⟨r, -, hr⟩ := Option.map_eq_some_iff.mp h
    cases hr
  · obtain ⟨r, hsymbol, hr⟩ := Option.map_eq_some_iff.mp h
    obtain ⟨s, -, rfl⟩ := Option.map_eq_some_iff.mp hsymbol
    cases hr

/-- The names among the tokens of a text are names of the lexer. -/
theorem isName_of_scan {t : Text} {tokens : List Token} (h : scan t = .ok tokens) {x : Text}
    (hx : .name x ∈ tokens) : IsName x := by
  fun_induction scan t generalizing tokens with
  | case1 =>
    obtain rfl := Except.ok.inj h
    cases hx
  | case2 => cases h
  | case3 c rest r hnext ih =>
    obtain ⟨later, hlater, rfl⟩ := map_eq_ok.mp h
    rcases List.mem_append.mp hx with hx | hx
    · exact isName_of_next? (hnext.trans (congrArg some (Prod.ext (Option.mem_toList.mp hx) rfl)))
    · exact ih hlater hx

namespace IsName

variable {x : Text}

/-- A name begins no gap and no string literal, and all of it is one token. -/
theorem exists_cons (h : IsName x) :
    ∃ c rest, x = c :: rest ∧ next? c rest = some (some (.name x), []) ∧ c ≠ '/' ∧ c ≠ '"' := by
  cases x with
  | nil => cases h
  | cons c rest =>
    obtain ⟨hstart, hname⟩ := h
    have hne : c ≠ '/' ∧ c ≠ '"' := by
      constructor <;> rintro rfl <;> revert hstart <;> decide
    have hgap : isGap c = false := by
      rw [Bool.eq_false_iff]
      intro hgap
      rw [(delimits_of_isGap hgap).nameStart] at hstart
      cases hstart
    refine ⟨c, rest, rfl, ?_, hne⟩
    simp [next?, hgap, hne.1, hstart, hname]

/-- Nothing in a name begins a comment. -/
theorem uncommented (h : IsName x) : Uncommented x := by
  obtain ⟨c, rest, rfl, hnext, hc, -⟩ := h.exists_cons
  exact .cons (fun hcomment => hc hcomment.1) hnext .nil

/-- A name is a single token. -/
theorem scan_eq (h : IsName x) : scan x = .ok [.name x] := by
  obtain ⟨c, rest, hx, hnext, -⟩ := h.exists_cons
  conv_lhs => rw [hx, scan_cons, hnext]
  simp only [scan]
  rfl

end IsName

end Token

/-- The name that a statement declares, if it declares one. -/
def Statement.declared? : Statement → Option Text
  | declare _ name _ => some name
  | assign .. | print .. | throw .. | exit _ | expr _ => none

private theorem Expr.suffix_of_read {t rest : List Token} {e : Expr} (h : read t = .ok (e, rest)) :
    rest <:+ t := by
  obtain ⟨used, rfl, -⟩ := (read_eq_ok.mp h).exists_append
  exact List.suffix_append used rest

/-- What a name alone is as an operand of a print statement. -/
theorem Item.ofExpr_var (name : Text) :
    ofExpr (.var name) =
      if name = "std::endl".toList then endl
      else if name = "std::boolalpha".toList then boolalpha true
      else if name = "std::noboolalpha".toList then boolalpha false
      else value (.var name) := rfl

/-- A declared name is resolved as an operand, whatever it stands for. -/
theorem Item.resolve_ofName {known : Known} {name : Text} (h : known name = true) :
    (ofExpr (.ofName name)).resolve known = .ok () := by
  unfold Expr.ofName
  split
  · rfl
  split
  · rfl
  rw [ofExpr_var]
  split
  · rfl
  split
  · rfl
  split
  · rfl
  · exact if_pos h

private theorem Item.suffix_of_readAll {count : Nat} {t rest : List Token} {items : List Item}
    (h : readAll count t = .ok (items, rest)) : rest <:+ t := by
  induction count generalizing t items with
  | zero =>
    obtain ⟨rfl, rfl⟩ := h
    exact List.suffix_refl rest
  | succ count ih =>
    rw [readAll.eq_def] at h
    split at h
    · next hcount =>
      cases hcount
      obtain ⟨⟨e, mid⟩, hsum, hitems⟩ := bind_eq_ok.mp h
      obtain ⟨⟨others, last⟩, hall, ⟨rfl, rfl⟩⟩ := bind_eq_ok.mp hitems
      obtain ⟨used, rfl, -⟩ := (Expr.readSum_eq_ok.mp hsum).exists_append
      exact ((ih hall).trans (List.suffix_append used mid)).trans (List.suffix_cons _ _)
    · obtain ⟨rfl, rfl⟩ := h
      exact List.suffix_refl rest

/-- A reader of statements that declare a given name, or none. It leaves the last of the tokens. -/
def Reader.Declares (name? : Option Text) (p : Reader Statement) : Prop :=
  ∀ ⦃t s rest⦄, p t = .ok (s, rest) → rest <:+ t ∧ s.declared? = name?

namespace Reader.Declares

variable {name? : Option Text}

private theorem ok (s : Statement) : Declares s.declared? (fun t => .ok (s, t)) := by
  rintro t s' rest ⟨rfl, rfl⟩
  exact ⟨List.suffix_refl t, rfl⟩

private theorem closing (symbol : Symbol) (otherwise : ParseError) (s : Statement) :
    Declares s.declared? (closing symbol otherwise s) := by
  intro t s' rest h
  obtain ⟨after, hsymbol, ⟨rfl, rfl⟩⟩ := bind_eq_ok.mp h
  obtain rfl := expect_eq_ok.mp hsymbol
  exact ⟨List.suffix_cons _ _, rfl⟩

/-- The expression within a statement declares nothing. -/
theorem read {f : Expr → Reader Statement} (hf : ∀ e, Declares name? (f e)) :
    Declares name? (fun t => do let (e, rest) ← Expr.read t; f e rest) := by
  intro t s rest h
  obtain ⟨⟨e, mid⟩, hread, hrest⟩ := bind_eq_ok.mp h
  obtain ⟨hsuffix, hname⟩ := hf e hrest
  exact ⟨hsuffix.trans (Expr.suffix_of_read hread), hname⟩

end Reader.Declares

namespace Statement

open Reader (Declares)

private theorem declares_readAssignment (name : Text) (op : Option BinaryOp) :
    Declares none (readAssignment name op) :=
  .read fun e => .ok (assign name op e)

private theorem declares_readExpr : Declares none readExpr :=
  .read fun e => .ok (expr e)

private theorem declares_readExit : Declares none readExit :=
  .read fun e => .closing .rparen .closingParen (exit e)

private theorem declares_readThrow : Declares none readThrow := by
  intro t s rest h
  obtain ⟨⟨type, mid⟩, hname, hrest⟩ := bind_eq_ok.mp h
  obtain rfl := expectName_eq_ok.mp hname
  obtain ⟨after, hparen, h⟩ := bind_eq_ok.mp hrest
  obtain rfl := expect_eq_ok.mp hparen
  obtain ⟨hsuffix, hs⟩ :=
    Declares.read (fun e => .closing .rparen .closingParen (throw type e)) h
  exact ⟨hsuffix.trans (List.suffix_append [_, _] after), hs⟩

private theorem declares_readPrint (stream : Stream) : Declares none (readPrint stream) := by
  intro t s rest h
  obtain ⟨⟨items, last⟩, hall, ⟨rfl, rfl⟩⟩ := bind_eq_ok.mp h
  exact ⟨Item.suffix_of_readAll hall, rfl⟩

/-- A declaration declares its name and nothing else. -/
theorem declares_readDeclaration (type : VarType) (name : Text) :
    Declares (some name) (readDeclaration type name) := by
  intro t s rest h
  unfold readDeclaration at h
  split at h
  · obtain ⟨hsuffix, hs⟩ := Declares.read (fun e => .ok (declare type name (some e))) h
    exact ⟨hsuffix.trans (List.suffix_cons _ _), hs⟩
  · obtain ⟨hsuffix, hs⟩ :=
      Declares.read (fun e => .closing .rparen .closingParen (declare type name (some e))) h
    exact ⟨hsuffix.trans (List.suffix_cons _ _), hs⟩
  · split at h
    · cases h
    · obtain ⟨rfl, rfl⟩ := h
      exact ⟨List.suffix_refl t, rfl⟩

private theorem declares_readAfterName {name : Text} {symbol : Symbol} {t rest : List Token}
    {s : Statement} (h : readAfterName name symbol t = .ok (s, rest)) :
    rest <:+ .name name :: .sym symbol :: t ∧ s.declared? = none := by
  by_cases hs : symbol = .shl → stream? name = none
  · rw [readAfterName_of_no_stream hs] at h
    have hsym : .sym symbol :: t <:+ .name name :: .sym symbol :: t := List.suffix_cons _ _
    have htail : t <:+ .name name :: .sym symbol :: t := List.suffix_append [_, _] t
    split at h
    · exact (declares_readThrow h).imp_left fun hsuffix => hsuffix.trans hsym
    split at h
    · exact (declares_readExit h).imp_left fun hsuffix => hsuffix.trans htail
    split at h
    · exact (declares_readAssignment _ _ h).imp_left fun hsuffix => hsuffix.trans htail
    · exact declares_readExpr h
  · obtain ⟨rfl, hstream⟩ := Classical.not_imp.mp hs
    obtain ⟨stream, hstream⟩ := Option.ne_none_iff_exists'.mp hstream
    rw [readAfterName_stream hstream] at h
    exact (declares_readPrint stream h).imp_left fun hsuffix => hsuffix.trans (List.suffix_cons _ _)

/-- The name that a statement declares is one of its tokens. -/
theorem mem_of_readBody {t rest : List Token} {s : Statement} (h : readBody t = .ok (s, rest)) :
    rest <:+ t ∧ ∀ x ∈ s.declared?, .name x ∈ t := by
  have declaresNone {u : List Token} (hu : u <:+ t) (h : rest <:+ u ∧ s.declared? = none) :
      rest <:+ t ∧ ∀ x ∈ s.declared?, .name x ∈ t :=
    ⟨h.1.trans hu, by simp [h.2]⟩
  -- Only two names in a row can be a declaration, and the second of them is its name.
  unfold readBody at h
  split at h
  · next word name after =>
    split at h
    · next type htype =>
      obtain ⟨hsuffix, hs⟩ := declares_readDeclaration type name h
      refine ⟨hsuffix.trans (List.suffix_append [_, _] after), ?_⟩
      simp [hs]
    split at h
    · exact declaresNone (List.suffix_cons _ _) (declares_readThrow h)
    · exact declaresNone (List.suffix_refl _) (declares_readExpr h)
  · exact declaresNone (List.suffix_refl _) (declares_readAfterName h)
  · split at h
    · exact declaresNone (List.suffix_cons _ _) (declares_readThrow h)
    · exact declaresNone (List.suffix_refl _) (declares_readExpr h)
  · exact declaresNone (List.suffix_refl _) (declares_readExpr h)

/-- A name that a block declares is one of its tokens. -/
theorem mem_of_readUpTo {count : Nat} {t : List Token} {ss : List Statement}
    (h : readUpTo count t = .ok ss) {s : Statement} (hs : s ∈ ss) {x : Text}
    (hx : x ∈ s.declared?) : .name x ∈ t := by
  induction count generalizing t ss with
  | zero =>
    cases t with
    | nil =>
      obtain rfl := Except.ok.inj h
      cases hs
    | cons y t => cases h
  | succ count ih =>
    cases t with
    | nil =>
      obtain rfl := Except.ok.inj h
      cases hs
    | cons y t =>
      rw [readUpTo_cons] at h
      split at h
      · exact List.mem_cons_of_mem y (ih h hs)
      · obtain ⟨⟨s', rest⟩, hread, hothers⟩ := bind_eq_ok.mp h
        obtain ⟨others, hall, ⟨⟩⟩ := bind_eq_ok.mp hothers
        obtain ⟨⟨s', mid⟩, hbody, hsemi⟩ := bind_eq_ok.mp hread
        obtain ⟨after, hsemi, ⟨rfl, rfl⟩⟩ := bind_eq_ok.mp hsemi
        obtain rfl := expect_eq_ok.mp hsemi
        obtain ⟨hsuffix, hname⟩ := mem_of_readBody hbody
        rcases List.mem_cons.mp hs with rfl | hs
        · exact hname x hx
        · exact ((List.suffix_cons _ _).trans hsuffix).mem (ih hall hs)

/-- A name in parentheses is the only operand of a print statement. -/
theorem ofText_name {x : Text} (hx : Token.IsName x) :
    ofText ("std::cout << (".toList ++ x ++ ");".toList) =
      .ok [.print .out [.ofExpr (.ofName x)]] :=
  ofText_parenthesized hx.uncommented hx.scan_eq rfl

/-- The names that a block declares are names of the lexer. -/
theorem isName_of_ofText {block : Text} {ss : List Statement} (h : ofText block = .ok ss)
    {s : Statement} (hs : s ∈ ss) {x : Text} (hx : x ∈ s.declared?) : Token.IsName x := by
  obtain ⟨tokens, hscan, hread⟩ := ofText_eq_ok.mp h
  exact Token.isName_of_scan hscan (mem_of_readUpTo hread hs hx)

end Statement

/-- A store in which only names of the lexer are declared. -/
def Store.Named (s : Store) : Prop :=
  ∀ x b, s.get? x = some b → Token.IsName x

/-- Binding a name of the lexer leaves only such names. -/
theorem Store.Named.bind {s : Store} (hs : s.Named) {name : Text} (hname : Token.IsName name)
    (b : Binding) : (s.bind name b).Named := by
  intro x c hc
  rw [get?_bind] at hc
  split at hc
  · next hx => exact hx ▸ hname
  · exact hs x c hc

/-- A statement adds no more than the name it declares. -/
theorem Statement.named_run {m : Machine} (h : m.state.store.Named) {s : Statement}
    (hs : ∀ x ∈ s.declared?, Token.IsName x) : (s.run m).1.state.store.Named := by
  have heffect := effect_run m s
  generalize (s.run m).1.state.store = t at heffect ⊢
  cases heffect with
  | none => exact h
  | @declared type name init v hv => exact h.bind (hs name rfl) _
  | @assigned name op e b v hb hv => exact h.bind (h name b hb) _

namespace Interpreter

variable {s s' : Interpreter}

/-- A step declares only names of the lexer. -/
theorem named_step (hs : s.store.Named) (h : Engine.Step s s') : s'.store.Named := by
  rcases step_cases h with ⟨mode, rfl⟩ | ⟨mode, mode', block, statements, hcheck, rfl⟩
  · exact hs
  · obtain ⟨htext, -⟩ := check_eq_ok.mp hcheck
    refine Statement.runAll_preserves (P := fun m => m.state.store.Named)
      (m := ⟨s.inMode mode, {}⟩) ?_ hs
    intro statement hstatement m hm
    exact Statement.named_run hm fun x hx => Statement.isName_of_ofText htext hstatement hx

/-- In every state that is reached only names of the lexer are declared. -/
theorem named_of_steps (h : Engine.Steps ({} : Interpreter) s) : s.store.Named := by
  induction h with
  | refl => rintro x b ⟨⟩
  | tail _ hstep ih => exact named_step ih hstep

/-- A declared name in parentheses is printed as the operand that it stands for. -/
theorem execute_name {x : Text} (hx : Token.IsName x) (hdeclared : s.store.declares x = true)
    {m : Machine} (hrun : (Item.ofExpr (.ofName x)).run .out ⟨s, {}⟩ = (m, none)) :
    s.execute ("std::cout << (".toList ++ x ++ ");".toList) = .ok (.done m.output, m.state) := by
  have hitem := Item.resolve_ofName hdeclared
  have hresolved : Statement.resolveAll s.store.declares [.print .out [.ofExpr (.ofName x)]] =
      .ok s.store.declares := by
    simp [Statement.resolveAll, Statement.resolve, Item.resolveAll, hitem, bind, Except.bind]
  have hcheck := check_eq_ok.mpr ⟨Statement.ofText_name hx, _, hresolved⟩
  have hall : Statement.runAll ⟨s, {}⟩ [.print .out [.ofExpr (.ofName x)]] = (m, none) := by
    simp only [Statement.runAll, Statement.run, Item.runAll, hrun]
  rw [execute_of_check hcheck, hall]
  rfl

/-- In every state that calls lead to from a fresh interpreter, printing a declared name in
parentheses succeeds. It prints the value of the variable as the number format is and changes
nothing, but for the five names that mean something else there. -/
theorem declared_printed (h : Engine.Steps ({} : Interpreter) s) {x : Text} {b : Binding}
    (hb : s.store.get? x = some b) :
    let block := "std::cout << (".toList ++ x ++ ");".toList
    (x ∉ ["true".toList, "false".toList, "std::endl".toList, "std::boolalpha".toList,
        "std::noboolalpha".toList] →
      s.execute block = .ok (.done ⟨b.value.render s.precision s.boolalpha, []⟩, s)) ∧
    (x ∈ ["true".toList, "false".toList] →
      s.execute block =
        .ok (.done ⟨(Value.bool (x = "true".toList)).render s.precision s.boolalpha, []⟩, s)) ∧
    (x = "std::endl".toList → s.execute block = .ok (.done ⟨['\n'], []⟩, s)) ∧
    (x ∈ ["std::boolalpha".toList, "std::noboolalpha".toList] →
      s.execute block = .ok (.done {}, { s with boolalpha := x = "std::boolalpha".toList })) := by
  intro block
  have hx : Token.IsName x := named_of_steps h x b hb
  have hdeclared : s.store.declares x = true := by simp [Store.declares, hb]
  refine ⟨fun hvalue => ?_, fun htruth => ?_, ?_, fun hformat => ?_⟩
  · simp only [List.mem_cons, List.not_mem_nil, or_false, not_or] at hvalue
    obtain ⟨htrue, hfalse, hendl, hon, hoff⟩ := hvalue
    refine execute_name (m := ⟨s, ⟨b.value.render s.precision s.boolalpha, []⟩⟩) hx hdeclared ?_
    rw [Expr.ofName, if_neg htrue, if_neg hfalse, Item.ofExpr_var, if_neg hendl, if_neg hon,
      if_neg hoff]
    simp [Item.run, Machine.eval, Expr.eval, hb, Machine.andThen, Machine.write]
  · obtain rfl | rfl : x = "true".toList ∨ x = "false".toList := by simpa using htruth
    · exact execute_name hx hdeclared rfl
    · exact execute_name hx hdeclared rfl
  · rintro rfl
    exact execute_name hx hdeclared rfl
  · obtain rfl | rfl : x = "std::boolalpha".toList ∨ x = "std::noboolalpha".toList := by
      simpa using hformat
    · exact execute_name hx hdeclared rfl
    · exact execute_name hx hdeclared rfl

/-- A name with a colon pair is declared and read back. -/
theorem declared_printed_qualified :
    ∃ s : Interpreter, Engine.Steps ({} : Interpreter) s ∧
      s.store.get? "std::n".toList = some ⟨.int, .int 7⟩ ∧
      s.execute "std::cout << (std::n);".toList = .ok (.done ⟨"7".toList, []⟩, s) := by
  have hscan : Token.scan "long std::n = 7;".toList =
      .ok [.name "long".toList, .name "std::n".toList, .sym .eq, .int 7, .sym .semi] := by
    decide +kernel
  have hcheck : ({} : Interpreter).check _ = .ok [.declare .int "std::n".toList (some (.int 7))] :=
    check_of_scan hscan rfl rfl
  have hsteps : Engine.Steps ({} : Interpreter) _ := .single (.execute (execute_of_check hcheck))
  exact ⟨_, hsteps, rfl, (declared_printed hsteps (x := "std::n".toList) rfl).1 (by decide)⟩

/-- Not every declared name is read back: a truth value may be declared, but is printed as what it
is. -/
theorem not_forall_declared_printed :
    ¬∀ s : Interpreter, Engine.Steps ({} : Interpreter) s → ∀ x b, s.store.get? x = some b →
      s.execute ("std::cout << (".toList ++ x ++ ");".toList) =
        .ok (.done ⟨b.value.render s.precision s.boolalpha, []⟩, s) := by
  intro h
  have hscan : Token.scan "int true = 5;".toList =
      .ok [.name "int".toList, .name "true".toList, .sym .eq, .int 5, .sym .semi] := by
    decide +kernel
  have hcheck : ({} : Interpreter).check _ = .ok [.declare .int "true".toList (some (.int 5))] :=
    check_of_scan hscan rfl rfl
  let s : Interpreter := { store := Store.bind .empty "true".toList ⟨.int, .int 5⟩ }
  have hsteps : Engine.Steps {} s := .single (.execute (execute_of_check hcheck))
  have hfive := h s hsteps "true".toList ⟨.int, .int 5⟩ rfl
  have hname := named_of_steps hsteps "true".toList ⟨.int, .int 5⟩ rfl
  have hone := execute_name (s := s) hname rfl rfl
  have hsame := congrArg Prod.fst (Except.ok.inj (hone.symm.trans hfive))
  revert hsame
  decide

end Interpreter

end Literate

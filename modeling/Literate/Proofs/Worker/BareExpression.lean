import Literate.Proofs.Document.Preparation
import Literate.Proofs.Language.Parenthesized
import Literate.Proofs.Worker.Interpreted

/-!
# A bare last expression is printed

A code that ends in a line that is an expression is prepared as a block that prints the expression
last, with truth values as words. Empty lines make no difference to the lines before, and none of
them begins like a directive, since they are cut into tokens. The expression does not end in a
semicolon, and the parentheses around it change none of its tokens. So the output of the code ends
with the value of the expression.
-/

namespace Literate

namespace Token

/-- The tokens of lines one after another. -/
def scanLines : List Text → Except LexError (List Token)
  | [] => .ok []
  | l :: ls => (scan l).bind fun xs => (scanLines ls).map fun ys => xs ++ ys

/-- The tokens of a text are those of its lines. -/
theorem scan_unlines (ls : List Text) : scan (Text.unlines ls) = scanLines ls := by
  induction ls with
  | nil => exact scan.eq_1
  | cons l ls ih =>
    cases ls with
    | nil =>
      have hline : Text.unlines [l] = l := by simp [Text.unlines]
      rw [hline, scanLines, scanLines]
      cases scan l <;> simp [Except.bind, Except.map]
    | cons l' ls =>
      rw [Text.unlines_cons (by simp), scan_append_newline, ih]
      rfl

/-- The tokens of more lines follow those of the lines before. -/
theorem scanLines_append (ls ls' : List Text) :
    scanLines (ls ++ ls') =
      (scanLines ls).bind fun xs => (scanLines ls').map fun ys => xs ++ ys := by
  induction ls with
  | nil =>
    rw [List.nil_append, scanLines]
    cases scanLines ls' <;> rfl
  | cons l ls ih =>
    rw [List.cons_append, scanLines, scanLines, ih]
    cases scan l with
    | error e => rfl
    | ok xs =>
      cases scanLines ls with
      | error e => rfl
      | ok ys => cases scanLines ls' <;> simp [Except.bind, Except.map]

/-- Lines that are left out make no difference if they are empty. -/
theorem scanLines_filter {keep : Text → Bool} {ls : List Text}
    (h : ∀ l ∈ ls, keep l = false → l = []) : scanLines (ls.filter keep) = scanLines ls := by
  induction ls with
  | nil => rfl
  | cons l ls ih =>
    obtain ⟨hl, hls⟩ := List.forall_mem_cons.mp h
    rw [List.filter_cons]
    cases hkeep : keep l with
    | true => rw [if_pos rfl, scanLines, scanLines, ih hls]
    | false =>
      rw [if_neg (by simp), hl hkeep, scanLines, scan, ih hls]
      cases scanLines ls <;> rfl

private theorem exists_scan_of_mem {ls : List Text} {tokens : List Token}
    (h : scanLines ls = .ok tokens)
    {l : Text} (hl : l ∈ ls) : ∃ xs, scan l = .ok xs := by
  induction ls generalizing tokens with
  | nil => cases hl
  | cons l' ls ih =>
    obtain ⟨xs, hxs, hrest⟩ := bind_eq_ok.mp h
    obtain ⟨ys, hys, -⟩ := map_eq_ok.mp hrest
    rcases List.mem_cons.mp hl with rfl | hl
    · exact ⟨xs, hxs⟩
    · exact ih hys hl

/-- No token begins with the sign of a directive. -/
theorem head?_ne_of_scan {l : Text} {tokens : List Token} (h : scan l = .ok tokens) :
    l.head? ≠ some '#' := by
  intro hhead
  obtain ⟨rest, rfl⟩ := List.head?_eq_some_iff.mp hhead
  have hnext : next? '#' rest = none := rfl
  rw [scan_cons, hnext] at h
  cases h

end Token

/-- The operands of a print statement that are no values. -/
inductive Item.Manipulates : Expr → Item → Prop
  | endl : Manipulates (.var "std::endl".toList) .endl
  | boolalpha : Manipulates (.var "std::boolalpha".toList) (.boolalpha true)
  | noboolalpha : Manipulates (.var "std::noboolalpha".toList) (.boolalpha false)
  | precision (e : Expr) : Manipulates (.call "std::setprecision".toList [e]) (.precision e)

/-- The operand of a print statement that an expression is. -/
def Item.Prints (e : Expr) (i : Item) : Prop :=
  Manipulates e i ∨ (∀ j, ¬Manipulates e j) ∧ i = .value e

/-- Every expression is an operand of a print statement in one way. -/
theorem Item.prints_ofExpr (e : Expr) : Item.Prints e (.ofExpr e) := by
  unfold ofExpr
  split
  · next name =>
    split
    · next h => exact .inl (h ▸ .endl)
    · next hendl =>
      split
      · next h => exact .inl (h ▸ .boolalpha)
      · next hboolalpha =>
        split
        · next h => exact .inl (h ▸ .noboolalpha)
        · next hnoboolalpha =>
          refine .inr ⟨?_, rfl⟩
          rintro j (_ | _ | _)
          · exact hendl rfl
          · exact hboolalpha rfl
          · exact hnoboolalpha rfl
  · split
    · next h => exact .inl (h ▸ .precision _)
    · next h =>
      refine .inr ⟨?_, rfl⟩
      rintro j ⟨⟩
      exact h rfl
  · next hvar hcall =>
    refine .inr ⟨?_, rfl⟩
    rintro j (_ | _ | _)
    · exact hvar _ rfl
    · exact hvar _ rfl
    · exact hvar _ rfl
    · exact hcall _ _ rfl

namespace Preparation

variable {p : Preparation} {S l code : Text} {tokens : List Token}

/-- A code whose last line is a given one, and what stands before it. -/
def LastLine (S l code : Text) : Prop :=
  '\n' ∉ l ∧ (code = S ++ '\n' :: l ∨ S = [] ∧ code = l)

/-- The lines before the last one are cut into the same tokens as the text before it. -/
theorem LastLine.exists_splitOn (h : LastLine S l code) :
    ∃ ls, code.splitOn '\n' = ls ++ [l] ∧ Token.scanLines ls = Token.scan S := by
  obtain ⟨hl, rfl | ⟨rfl, rfl⟩⟩ := h
  · refine ⟨S.splitOn '\n', ?_, ?_⟩
    · rw [List.splitOn_append_cons_self, List.splitOn_eq_singleton hl]
    · rw [← Token.scan_unlines]
      exact congrArg Token.scan (List.intercalate_splitOn '\n')
  · exact ⟨[], List.splitOn_eq_singleton hl, Token.scan.eq_1.symm⟩

/-- A line that is cut into tokens is no directive. -/
theorem isDefinition_of_scan (hp : p.directive = "#include".toList)
    (h : Token.scan l = .ok tokens) : p.isDefinition l = false := by
  rw [isDefinition, hp]
  cases l with
  | nil => rfl
  | cons c rest =>
    have hc : '#' ≠ c := by
      rintro rfl
      exact Token.head?_ne_of_scan h rfl
    simp [List.isPrefixOf, hc]

/-- An expression without comments does not end in a semicolon. -/
theorem completed_of_read {e : Expr} (hl : Token.Uncommented l) (hscan : Token.scan l = .ok tokens)
    (he : Expr.read tokens = .ok (e, [])) :
    completed l = "std::cout << std::boolalpha << (".toList ++ l ++ ");".toList := by
  refine if_neg fun hlast => ?_
  obtain ⟨before, hsemi⟩ := hl.exists_of_getLast? hlast
  obtain ⟨used, rfl, hused⟩ := (Expr.read_eq_ok.mp he).exists_append
  rw [hscan, List.append_nil] at hsemi
  obtain rfl := Except.ok.inj hsemi
  simp at hused

/-- The block of a code that ends in an expression: the statement that sets the number format, the
statements before the expression, and a statement that prints it. -/
theorem ofText_block {ss : List Statement} {e : Expr} (hp : p.directive = "#include".toList)
    (hprecision : p.precision < Nat.pow 2 63) (hcode : LastLine S l code)
    (hS : Statement.ofText S = .ok ss) (hl : Token.Uncommented l)
    (hscan : Token.scan l = .ok tokens) (he : Expr.read tokens = .ok (e, [])) :
    p.definitions (code.splitOn '\n') = [p.baseline] ∧
      Statement.ofText (p.prepare ⟨code⟩).block =
        .ok (formatted p.precision :: ss ++ [.print .out [.boolalpha true, .ofExpr e]]) := by
  obtain ⟨ls, hlines, hls⟩ := hcode.exists_splitOn
  obtain ⟨before, hbefore, hreadBefore⟩ := Statement.ofText_eq_ok.mp hS
  rw [hbefore] at hls
  have hplain : ∀ l' ∈ ls, p.isDefinition l' = false := fun l' hl' =>
    (Token.exists_scan_of_mem hls hl').elim fun _ h => isDefinition_of_scan hp h
  have hlast := isDefinition_of_scan hp hscan
  have hne : l ≠ [] := by
    rintro rfl
    rw [Token.scan] at hscan
    obtain rfl := Except.ok.inj hscan
    rw [Expr.read, Expr.readLevel_nil] at he
    cases he
  constructor
  · have hall : ∀ l' ∈ ls ++ [l], p.isDefinition l' = false :=
      List.forall_mem_append.mpr ⟨hplain, List.forall_mem_singleton.mpr hlast⟩
    rw [hlines, definitions, List.filter_eq_nil_iff.mpr fun l' hl' => by simp [hall l' hl'],
      List.nil_append]
  obtain ⟨format, hformat, hreadFormat⟩ :=
    Statement.ofText_eq_ok.mp (ofText_formatStatement hprecision)
  obtain ⟨printed, hprinted, hreadPrinted⟩ :=
    Statement.ofText_eq_ok.mp (Statement.ofText_boolalpha hl hscan he)
  have hkept : Token.scanLines (ls.filter fun line => line ≠ [] && !p.isDefinition line) =
      .ok before := by
    rw [Token.scanLines_filter, hls]
    intro l' hl' hdropped
    simpa [hplain l' hl'] using hdropped
  have hblock : (p.prepare ⟨code⟩).block =
      Text.unlines (p.formatStatement ::
        (ls.filter fun line => line ≠ [] && !p.isDefinition line) ++
        ["std::cout << std::boolalpha << (".toList ++ l ++ ");".toList]) := by
    have hkeep : (decide (l ≠ []) && !p.isDefinition l) = true := by simp [hne, hlast]
    rw [prepare, statements, hlines, List.filter_append, List.filter_singleton, hkeep, cond_true,
      ← List.cons_append, completeLast_append_singleton, completed_of_read hl hscan he]
  refine Statement.ofText_eq_ok.mpr ⟨format ++ before ++ printed, ?_, ?_⟩
  · rw [hblock, Token.scan_unlines, Token.scanLines_append, Token.scanLines, hformat, hkept,
      Token.scanLines, hprinted]
    simp [Token.scanLines, Except.bind, Except.map]
  · rw [List.append_assoc, Statement.readAll_append hreadFormat,
      Statement.readAll_append hreadBefore, hreadPrinted]
    rfl

end Preparation

/-- Printing a value with truth values as words. -/
theorem Statement.runAll_boolalpha {m : Machine} {e : Expr} {v : Value} (h : m.eval e = .ok v) :
    runAll m [.print .out [.boolalpha true, .value e]] =
      ((m.setBoolalpha true).write .out (v.render m.state.precision true), none) := by
  have h' : (m.setBoolalpha true).eval e = .ok v := h
  simp only [runAll, run, Item.runAll, Item.run, h', Machine.andThen]
  rfl

namespace Worker

/-- A request without definitions of its own whose block runs to its end. -/
theorem handle_of_runAll {w : Worker Interpreter} {request : Request} {name : Text}
    {statements : List Statement} {m : Machine}
    (hdefinitions : (w.preparation.prepare request).definitions = [w.preparation.baseline])
    (hbaseline : Header.ofDefinition w.preparation.baseline = .ok name)
    (hcheck : w.engine.check (w.preparation.prepare request).block = .ok statements)
    (hrun : Statement.runAll ⟨w.engine.catching, {}⟩ statements = (m, none)) :
    w.handle request = .ok (⟨m.output.stdout, m.output.stderr, none⟩,
      { w with engine := m.state.inMode w.engine.mode, state := .ready }) := by
  have hdefine : define {} (w.preparation.prepare request).definitions w.engine =
      .ok (({}, none), w.engine) := by
    rw [hdefinitions]
    simp only [define, Engine.define, Interpreter.define, hbaseline]
    rfl
  have hguarded := Interpreter.guarded_of_check hcheck
  have hran := run_of_define hdefine
  rw [hguarded, hrun] at hran
  rw [handle_of_run hran]
  simp [respond, Captured.record, Answer.output, Answer.fault?]

/-- A code that ends in an expression is prepared as the statement that sets the number format, the
statements before the expression and one that prints it, with truth values as words. If the names
are resolved, the statements run to their end and the expression has a value, the output of the
request is theirs and then the value, unless the expression is a manipulator. -/
theorem bare_expression_printed (w : Worker Interpreter) {S l code : Text} {ss : List Statement}
    {tokens : List Token} {e : Expr} (hp : w.preparation.directive = "#include".toList)
    (hprecision : w.preparation.precision < Nat.pow 2 63)
    (hcode : Preparation.LastLine S l code) (hS : Statement.ofText S = .ok ss)
    (hl : Token.Uncommented l) (hscan : Token.scan l = .ok tokens)
    (he : Expr.read tokens = .ok (e, [])) :
    let format := Preparation.formatted w.preparation.precision
    ∃ item, Item.Prints e item ∧
      Statement.ofText (w.preparation.prepare ⟨code⟩).block =
        .ok (format :: ss ++ [.print .out [.boolalpha true, item]]) ∧
      ∀ name known m v, Header.ofDefinition w.preparation.baseline = .ok name →
        Statement.resolveAll w.engine.store.declares ss = .ok known → e.resolve known = .ok () →
        Statement.runAll ⟨w.engine.catching, {}⟩ (format :: ss) = (m, none) → m.eval e = .ok v →
        (∀ manipulator, ¬Item.Manipulates e manipulator) →
        ∃ w', w.handle ⟨code⟩ = .ok
          (⟨m.output.stdout ++ v.render m.state.precision true, m.output.stderr, none⟩, w') := by
  intro format
  obtain ⟨hdefinitions, hblock⟩ := Preparation.ofText_block hp hprecision hcode hS hl hscan he
  refine ⟨.ofExpr e, Item.prints_ofExpr e, hblock, ?_⟩
  intro name known m v hbaseline hknown hresolve hrun hv hvalue
  have hitem : Item.ofExpr e = .value e :=
    ((Item.prints_ofExpr e).resolve_left fun h => hvalue _ h).2
  rw [hitem] at hblock
  have hresolved : Statement.resolveAll w.engine.store.declares
      (format :: ss ++ [.print .out [.boolalpha true, .value e]]) = .ok known := by
    have hfirst : Statement.resolveAll w.engine.store.declares (format :: ss) = .ok known := hknown
    rw [Statement.resolveAll_append, hfirst]
    simp [Except.bind, bind, Statement.resolveAll, Statement.resolve, Item.resolveAll, Item.resolve,
      hresolve]
  have hcheck := Interpreter.check_eq_ok.mpr ⟨hblock, known, hresolved⟩
  have hall : Statement.runAll ⟨w.engine.catching, {}⟩
      (format :: ss ++ [.print .out [.boolalpha true, .value e]]) =
        ((m.setBoolalpha true).write .out (v.render m.state.precision true), none) := by
    rw [Statement.runAll_append, hrun]
    exact Statement.runAll_boolalpha hv
  exact ⟨_, handle_of_runAll hdefinitions hbaseline hcheck hall⟩

/-- A disjunction with a string that ends in a semicolon is an expression, and its value is printed
as a word. -/
theorem bare_expression_printed_disjunction :
    let w : Worker Interpreter := { engine := {} }
    let code := "bool b = 1 < 2;\nb || \"a;\"".toList
    let e := Expr.binary .or (.var "b".toList) (.str "a;".toList)
    Statement.ofText (w.preparation.prepare ⟨code⟩).block =
        .ok [Preparation.formatted 6,
          .declare .bool "b".toList (some (.binary .lt (.int 1) (.int 2))),
          .print .out [.boolalpha true, .value e]] ∧
      ∃ w', w.handle ⟨code⟩ = .ok (⟨"true".toList, [], none⟩, w') := by
  intro w code e
  have hcode : Preparation.LastLine "bool b = 1 < 2;".toList "b || \"a;\"".toList code :=
    ⟨by decide, .inl rfl⟩
  have hscanS : Token.scan "bool b = 1 < 2;".toList =
      .ok [.name "bool".toList, .name "b".toList, .sym .eq, .int 1, .sym .lt, .int 2,
        .sym .semi] := by decide +kernel
  have hS : Statement.ofText "bool b = 1 < 2;".toList =
      .ok [.declare .bool "b".toList (some (.binary .lt (.int 1) (.int 2)))] :=
    Statement.ofText_eq_ok.mpr ⟨_, hscanS, rfl⟩
  have hl : Token.Uncommented "b || \"a;\"".toList :=
    .cons (by decide) rfl <| .cons (by decide) rfl <| .cons (by decide) rfl <|
      .cons (by decide) rfl <| .cons (by decide) rfl .nil
  have hscan : Token.scan "b || \"a;\"".toList =
      .ok [.name "b".toList, .sym .pipePipe, .str "a;".toList] := by decide +kernel
  have he : Expr.read [.name "b".toList, .sym .pipePipe, .str "a;".toList] = .ok (e, []) := rfl
  obtain ⟨item, hitem, hblock, hhandle⟩ :=
    bare_expression_printed w rfl (by decide) hcode hS hl hscan he
  have hvalue (manipulator : Item) :
      ¬Item.Manipulates (.binary .or (.var "b".toList) (.str "a;".toList)) manipulator := by
    rintro ⟨⟩
  obtain rfl := (hitem.resolve_left (hvalue _)).2
  refine ⟨hblock, ?_⟩
  exact hhandle _ _ _ (.bool true) rfl rfl rfl rfl rfl hvalue

end Worker

end Literate

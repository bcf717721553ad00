import Literate.Proofs.Language.Calls
import Literate.Proofs.Worker.BareExpression

/-!
# Comments behind lines of code

A comment changes none of the tokens of the line before it. The last line of a block is completed as
a text though: whether it is a statement is told from the character that it ends in, be that in a
comment. So a comment changes nothing on a line that further statements follow, nor on the last one
if both the line and the comment end in a semicolon. Otherwise the comment decides what becomes of
the last line. One that ends in a semicolon has the line run as it stands, and any other has it put
behind the output stream, in a parenthesis that the comment keeps open.
-/

namespace Literate

/-- A line with a space and a comment behind it. -/
def Text.commented (l words : Text) : Text :=
  l ++ ' ' :: '/' :: '/' :: words

/-- The last character of a commented line is that of the comment. -/
theorem Text.getLast?_commented (l words : Text) :
    (commented l words).getLast? = some ';' ↔ words.getLast? = some ';' := by
  cases words with
  | nil => simp [commented]
  | cons c words => simp [commented, List.getLast?_cons_cons]

namespace Token

variable {l l' : Text}

/-- A line can be replaced among others by one with the same tokens. -/
theorem scan_unlines_congr (h : scan l = scan l') (before after : List Text) :
    scan (Text.unlines (before ++ l :: after)) = scan (Text.unlines (before ++ l' :: after)) := by
  rw [scan_unlines, scan_unlines, scanLines_append, scanLines_append, scanLines, scanLines, h]

/-- The beginning of a statement that prints an expression. -/
theorem scan_opened {tokens : List Token} (h : scan l = .ok tokens) :
    scan ("std::cout << std::boolalpha << (".toList ++ l) =
      .ok (.name "std::cout".toList :: .sym .shl :: .name "std::boolalpha".toList :: .sym .shl ::
        .sym .lparen :: tokens) := by
  have hparen : scan ("(".toList ++ l) = (scan l).map (.sym .lparen :: ·) := scan_token rfl
  have hbegin : "std::cout << std::boolalpha << (".toList =
      "std::cout << ".toList ++ ("std::boolalpha << ".toList ++ "(".toList) := rfl
  rw [hbegin, List.append_assoc, List.append_assoc, scan_cout, scan_boolalpha, hparen, h]
  rfl

end Token

/-- An interpreter runs the tokens of a block. -/
theorem Worker.run_congr {block block' : Text} (h : Token.scan block = Token.scan block')
    (ds : List Text) (s : Interpreter) : run ⟨ds, block⟩ s = run ⟨ds, block'⟩ s := by
  have hread : Statement.ofText block = Statement.ofText block' := by
    simp only [Statement.ofText, h]
  have hguarded (t : Interpreter) : Engine.guarded block t = Engine.guarded block' t := by
    simp only [Engine.guarded, Engine.execute, Interpreter.execute, Interpreter.run,
      Interpreter.check, hread]
  simp only [run, hguarded]

namespace Preparation

variable {p : Preparation} {code l words : Text} {before after : List Text} {tokens : List Token}

/-- Whether one of some lines is a statement. -/
def States (p : Preparation) (ls : List Text) : Prop :=
  ∃ l ∈ ls, l ≠ [] ∧ p.isDefinition l = false

/-- How a code is prepared around one of its statements. -/
theorem prepare_of_splitOn (hcode : code.splitOn '\n' = before ++ l :: after) (hne : l ≠ [])
    (hl : p.isDefinition l = false) :
    p.prepare ⟨code⟩ = ⟨p.definitions (before ++ after), Text.unlines (p.statements before ++
      completeLast (l :: after.filter fun line => line ≠ [] && !p.isDefinition line))⟩ := by
  have hkeep : (decide (l ≠ []) && !p.isDefinition l) = true := by simp [hne, hl]
  have hdefinitions : p.definitions (before ++ l :: after) = p.definitions (before ++ after) := by
    simp [definitions, hl]
  have hstatements : p.statements (before ++ l :: after) = p.statements before ++
      l :: after.filter fun line => line ≠ [] && !p.isDefinition line := by
    rw [statements, List.filter_append, List.filter_cons, if_pos hkeep, ← List.cons_append]
    rfl
  rw [prepare, hcode, hdefinitions, hstatements, completeLast_append (List.cons_ne_nil _ _)]

/-- The lines of a code with a comment behind one of them. -/
theorem splitOn_commented (hcode : code.splitOn '\n' = before ++ l :: after)
    (hwords : '\n' ∉ words) :
    (Text.unlines (before ++ Text.commented l words :: after)).splitOn '\n' =
      before ++ Text.commented l words :: after := by
  have hlines : ∀ l' ∈ before ++ l :: after, '\n' ∉ l' := by
    rw [← hcode]
    exact fun l' hl' => Text.newline_notMem_of_mem_splitOn hl'
  rw [List.forall_mem_append, List.forall_mem_cons] at hlines
  obtain ⟨hbefore, hl, hafter⟩ := hlines
  have hcommented : '\n' ∉ Text.commented l words := by
    simp [Text.commented, hl, hwords]
  refine Text.splitOn_unlines (by simp) ?_
  exact List.forall_mem_append.mpr ⟨hbefore, List.forall_mem_cons.mpr ⟨hcommented, hafter⟩⟩

/-- A code with a comment behind a statement is prepared with that comment. -/
theorem prepare_commented (hp : p.directive = "#include".toList)
    (hcode : code.splitOn '\n' = before ++ l :: after) (hscan : Token.scan l = .ok tokens)
    (hwords : '\n' ∉ words) :
    p.prepare ⟨Text.unlines (before ++ Text.commented l words :: after)⟩ =
      ⟨p.definitions (before ++ after), Text.unlines (p.statements before ++
        completeLast (Text.commented l words ::
          after.filter fun line => line ≠ [] && !p.isDefinition line))⟩ :=
  prepare_of_splitOn (splitOn_commented hcode hwords) (by simp [Text.commented])
    (isDefinition_of_scan hp (Token.scan_append_comment hscan hwords))

/-- Which lines of a code are kept in a block, and whether there are any. -/
theorem states_iff : p.States after ↔
    (after.filter fun line => line ≠ [] && !p.isDefinition line) ≠ [] := by
  simp [States]

/-- A last line with a comment has the tokens of the line, or of the line behind an output stream
and an open parenthesis. -/
theorem scan_completed_commented (hscan : Token.scan l = .ok tokens) (hwords : '\n' ∉ words) :
    Token.scan (completed (Text.commented l words)) =
      Token.scan (if words.getLast? = some ';' then l
        else "std::cout << std::boolalpha << (".toList ++ l) := by
  rw [completed]
  by_cases hlast : words.getLast? = some ';'
  · rw [if_pos ((Text.getLast?_commented l words).mpr hlast), if_pos hlast, hscan]
    exact Token.scan_append_comment hscan hwords
  · rw [if_neg fun h => hlast ((Text.getLast?_commented l words).mp h), if_neg hlast,
      Token.scan_opened hscan]
    have hend : '\n' ∉ words ++ ");".toList := List.not_mem_append hwords (by decide)
    have hopened := Token.scan_append_comment (Token.scan_opened hscan) hend
    rw [← hopened]
    simp [Text.commented]

end Preparation

namespace Worker

open Preparation

/-- A comment behind a line of a code that is cut into tokens. The request is handled as without it
if a statement follows the line, or if the line and the comment end in a semicolon. If no statement
follows, the last line of the block is the line as it stands where the comment ends in a semicolon,
and otherwise the line behind the output stream and a parenthesis that is not closed. -/
theorem handle_commented (w : Worker Interpreter) {code l words : Text} {before after : List Text}
    {tokens : List Token} (hp : w.preparation.directive = "#include".toList)
    (hcode : code.splitOn '\n' = before ++ l :: after) (hne : l ≠ [])
    (hscan : Token.scan l = .ok tokens) (hwords : '\n' ∉ words) :
    let p := w.preparation
    let commented := Text.unlines (before ++ Text.commented l words :: after)
    (p.States after ∨ l.getLast? = some ';' ∧ words.getLast? = some ';' →
      w.handle ⟨commented⟩ = w.handle ⟨code⟩) ∧
    (¬p.States after →
      run (p.prepare ⟨commented⟩) w.engine =
        run ⟨(p.prepare ⟨code⟩).definitions, Text.unlines (p.statements before ++
          [if words.getLast? = some ';' then l
            else "std::cout << std::boolalpha << (".toList ++ l])⟩ w.engine) := by
  intro p commented
  have hprepare := prepare_of_splitOn (p := p) hcode hne (isDefinition_of_scan hp hscan)
  have hprepare' := prepare_commented hp hcode hscan hwords
  have hlast (hafter : ¬p.States after) : run (p.prepare ⟨commented⟩) w.engine =
      run ⟨(p.prepare ⟨code⟩).definitions, Text.unlines (p.statements before ++
        [if words.getLast? = some ';' then l
          else "std::cout << std::boolalpha << (".toList ++ l])⟩ w.engine := by
    have hblock := Token.scan_unlines_congr (scan_completed_commented hscan hwords)
      (p.statements before) []
    rw [states_iff, not_not] at hafter
    rw [hprepare, hprepare', hafter, completeLast, run_congr hblock]
  refine ⟨fun h => ?_, hlast⟩
  have hrun : run (p.prepare ⟨commented⟩) w.engine = run (p.prepare ⟨code⟩) w.engine := by
    by_cases hafter : p.States after
    · rw [states_iff] at hafter
      obtain ⟨next, later, hkept⟩ := List.exists_cons_of_ne_nil hafter
      have hline : Token.scan (Text.commented l words) = Token.scan l :=
        (Token.scan_append_comment hscan hwords).trans hscan.symm
      have hblock := Token.scan_unlines_congr hline (p.statements before)
        (completeLast (next :: later))
      have hrest (line : Text) :
          completeLast (line :: next :: later) = line :: completeLast (next :: later) := rfl
      rw [hprepare, hprepare', hkept, hrest, hrest, run_congr hblock]
    · obtain ⟨hl, hend⟩ := h.resolve_left hafter
      rw [hlast hafter, if_pos hend]
      rw [states_iff, not_not] at hafter
      rw [hprepare, hafter, completeLast, completed, if_pos hl]
  exact handle_congr rfl hrun

/-- A comment behind a declaration changes nothing. Behind an expression it keeps the parenthesis
open that the expression is put into. -/
theorem handle_commented_expression :
    let w : Worker Interpreter := { engine := {} }
    w.handle ⟨"int x = 1; // one\nx".toList⟩ = w.handle ⟨"int x = 1;\nx".toList⟩ ∧
      run (w.preparation.prepare ⟨"1 + 1 // two".toList⟩) w.engine =
        run ⟨["#include <iostream>".toList], w.preparation.formatStatement ++
          '\n' :: "std::cout << std::boolalpha << (1 + 1".toList⟩ w.engine := by
  intro w
  have hdeclaration : Token.scan "int x = 1;".toList =
      .ok [.name "int".toList, .name "x".toList, .sym .eq, .int 1, .sym .semi] := by decide +kernel
  have hsum : Token.scan "1 + 1".toList = .ok [.int 1, .sym .plus, .int 1] := by decide +kernel
  have hlines : "int x = 1;\nx".toList.splitOn '\n' = [] ++ "int x = 1;".toList :: ["x".toList] := by
    decide
  have hline : "1 + 1".toList.splitOn '\n' = [] ++ "1 + 1".toList :: [] := by decide
  have hone : '\n' ∉ " one".toList := by decide
  have htwo : '\n' ∉ " two".toList := by decide
  have hfirst := w.handle_commented rfl hlines (by decide) hdeclaration hone
  have hlast := w.handle_commented rfl hline (by decide) hsum htwo
  have hopened : Text.unlines (w.preparation.statements [] ++
      ["std::cout << std::boolalpha << (".toList ++ "1 + 1".toList]) =
        w.preparation.formatStatement ++
          '\n' :: "std::cout << std::boolalpha << (1 + 1".toList := by
    decide +kernel
  refine ⟨hfirst.1 (.inl ⟨_, List.mem_singleton_self _, by decide⟩), ?_⟩
  rw [← hopened]
  refine hlast.2 ?_
  rintro ⟨_, ⟨⟩, _⟩

/-- A comment behind an expression that is printed makes the request fail. -/
theorem not_forall_handle_commented :
    ¬∀ (w : Worker Interpreter) (code l words : Text) (before after : List Text)
      (tokens : List Token), Engine.Steps {} w.engine → w.preparation.directive = "#include".toList →
        code.splitOn '\n' = before ++ l :: after → w.preparation.isDefinition l = false →
        (∃ c ∈ l, Text.isBlank c = false) → Token.scan l = .ok tokens → '\n' ∉ words →
        w.handle ⟨Text.unlines (before ++ Text.commented l words :: after)⟩ = w.handle ⟨code⟩ := by
  intro h
  let w : Worker Interpreter := { engine := {} }
  have hsum : Token.scan "1 + 1".toList = .ok [.int 1, .sym .plus, .int 1] := by decide +kernel
  have hsame := h w "1 + 1".toList "1 + 1".toList " two".toList [] [] _ .refl rfl (by decide)
    (by decide) ⟨'1', by decide, rfl⟩ hsum (by decide)
  -- Without the comment the parenthesis is closed, and the sum is printed.
  have hcode : LastLine [] "1 + 1".toList "1 + 1".toList := ⟨by decide, .inr ⟨rfl, rfl⟩⟩
  have hempty : Statement.ofText [] = .ok [] := Statement.ofText_eq_ok.mpr ⟨_, Token.scan.eq_1, rfl⟩
  have hl : Token.Uncommented "1 + 1".toList :=
    .cons (by decide) rfl <| .cons (by decide) rfl <| .cons (by decide) rfl <|
      .cons (by decide) rfl <| .cons (by decide) rfl .nil
  obtain ⟨hdefinitions, hread⟩ :=
    ofText_block (p := w.preparation) rfl (by decide) hcode hempty hl hsum rfl
  have hcheck := Interpreter.check_eq_ok.mpr ⟨hread, w.engine.store.declares, rfl⟩
  have hprinted := handle_of_runAll hdefinitions rfl hcheck rfl
  -- The comment takes what closes the parenthesis.
  have hformat := ofText_formatStatement (p := w.preparation) (by decide)
  have hblock : (w.preparation.prepare ⟨"1 + 1 // two".toList⟩).block =
      w.preparation.formatStatement ++
        '\n' :: "std::cout << std::boolalpha << (1 + 1 // two);".toList := by
    decide +kernel
  have hrefused : w.engine.check (w.preparation.prepare ⟨"1 + 1 // two".toList⟩).block =
      .error (.parse .closingParen) := by
    have hopened : Statement.ofText "std::cout << std::boolalpha << (1 + 1 // two);".toList =
        .error (.parse .closingParen) := by
      have hscan : Token.scan "std::cout << std::boolalpha << (1 + 1 // two);".toList =
          .ok [.name "std::cout".toList, .sym .shl, .name "std::boolalpha".toList, .sym .shl,
            .sym .lparen, .int 1, .sym .plus, .int 1] := by decide +kernel
      rw [Statement.ofText, hscan]
      rfl
    rw [Interpreter.check, hblock, Statement.ofText_append hformat, hopened]
    rfl
  rcases accepts_or_refused w ⟨"1 + 1 // two".toList⟩ with ⟨_, haccepts⟩ | ⟨_, _, hrun⟩
  · cases haccepts.check.symm.trans hrefused
  · have hresponse := (handle_of_run hrun).symm.trans (hsame.trans hprinted)
    cases congrArg (fun r => r.1.fault) (Except.ok.inj hresponse)

end Worker

end Literate

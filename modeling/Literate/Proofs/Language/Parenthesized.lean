import Literate.Proofs.Language.NumberFormat
import Literate.Proofs.Language.Writing

/-!
# Printing an expression in parentheses

The tokens of an expression are read in parentheses as the same expression, at whatever level its
operators bind. So a text without comments whose tokens are an expression can be printed by putting
it in parentheses behind the output stream.
-/

namespace Literate

namespace Expr

variable {p : Phrase} {t rest more : List Token} {e : Expr}

/-- A chain of operators that begins at the end of the tokens is empty. -/
theorem Reads.eq_nil_of_chain {level : Nat} {left : Expr}
    (h : Reads (.chain level left) [] e rest) : rest = [] := by
  have hlt := h.length_lt
  exact List.length_eq_zero_iff.mp (Nat.lt_one_iff.mp hlt)

/-- A phrase that is read up to the end of the tokens is read alike where tokens follow that do not
go on with an expression. -/
theorem Reads.append (h : Reads p t e rest) (hmore : rest = [] → Ends 0 more) :
    Reads p (t ++ more) e (rest ++ more) := by
  induction h with
  | operand hlevel _ ih => exact .operand hlevel (ih hmore)
  | level hlevel _ hchain ihleft ihchain =>
    refine .level hlevel (ihleft ?_) (ihchain hmore)
    rintro rfl
    exact hmore hchain.eq_nil_of_chain
  | @stop level rest left h =>
    refine .stop ?_
    cases rest with
    | nil => exact (hmore rfl).operator level (Nat.zero_le level)
    | cons x rest => rw [operator?_append (by simp), h]; rfl
  | link _ hchain ihright ihchain =>
    refine .link (ihright ?_) (ihchain hmore)
    rintro rfl
    exact hmore hchain.eq_nil_of_chain
  | neg _ ih => exact .neg (ih hmore)
  | not _ ih => exact .not (ih hmore)
  | plus _ ih => exact .plus (ih hmore)
  | primary _ ih => exact .primary (ih hmore)
  | int n => exact .int n _
  | double x => exact .double x _
  | str s => exact .str s _
  | @name name rest h =>
    refine .name fun hhead => ?_
    cases rest with
    | nil => exact absurd hhead (hmore rfl).head
    | cons x rest => exact h hhead
  | callEmpty hname => exact .callEmpty hname _
  | call hname _ ih => exact .call hname (ih hmore)
  | paren _ ih => exact .paren (ih (by simp))
  | last _ ih => exact .last (ih (by simp))
  | further _ _ ih ihothers => exact .further (ih (by simp)) (ihothers hmore)

/-- The tokens that are read as a phrase hold no semicolon. -/
theorem Reads.exists_append (h : Reads p t e rest) :
    ∃ used, t = used ++ rest ∧ .sym .semi ∉ used := by
  have cons {x : Token} {t rest : List Token} (hx : x ≠ .sym .semi)
      (h : ∃ used, t = used ++ rest ∧ .sym .semi ∉ used) :
      ∃ used, x :: t = used ++ rest ∧ .sym .semi ∉ used := by
    obtain ⟨used, rfl, hused⟩ := h
    exact ⟨x :: used, rfl, by simp [hx.symm, hused]⟩
  have trans {t mid rest : List Token} (h : ∃ used, t = used ++ mid ∧ .sym .semi ∉ used)
      (h' : ∃ used, mid = used ++ rest ∧ .sym .semi ∉ used) :
      ∃ used, t = used ++ rest ∧ .sym .semi ∉ used := by
    obtain ⟨used, rfl, hused⟩ := h
    obtain ⟨used', rfl, hused'⟩ := h'
    exact ⟨used ++ used', by simp, by simp [hused, hused']⟩
  induction h with
  | operand _ _ ih => exact ih
  | level _ _ _ ihleft ihchain => exact trans ihleft ihchain
  | stop => exact ⟨[], rfl, by simp⟩
  | @link op _ _ _ _ _ _ _ _ ihright ihchain =>
    exact cons (by cases op <;> simp [BinaryOp.symbol]) (trans ihright ihchain)
  | neg _ ih => exact cons (by simp) ih
  | not _ ih => exact cons (by simp) ih
  | plus _ ih => exact cons (by simp) ih
  | primary _ ih => exact ih
  | int => exact ⟨[_], rfl, by simp⟩
  | double => exact ⟨[_], rfl, by simp⟩
  | str => exact ⟨[_], rfl, by simp⟩
  | name => exact ⟨[_], rfl, by simp⟩
  | callEmpty => exact ⟨[_, _, _], rfl, by simp⟩
  | call _ _ ih => exact cons (by simp) (cons (by simp) ih)
  | paren _ ih => exact cons (by simp) (trans ih ⟨[_], rfl, by simp⟩)
  | last _ ih => exact trans ih ⟨[_], rfl, by simp⟩
  | further _ _ ih ihothers => exact trans ih (cons (by simp) ihothers)

/-- A name before a shift sign is an operand. -/
theorem readSum_name (name : Text) (rest : List Token) :
    readSum (.name name :: .sym .shl :: rest) = .ok (ofName name, .sym .shl :: rest) := by
  have hread : Reads .operand (.name name :: .sym .shl :: rest) (ofName name) (.sym .shl :: rest) :=
    .primary (.name (by simp))
  exact readSum_eq_ok.mpr (.descend (by decide) (Nat.le_refl 6) (.operand (Nat.le_refl 6) hread)
    (ends_sym rfl (by decide) 4 rest))

/-- The tokens of an expression in parentheses are an operand. -/
theorem readSum_parenthesized (h : read t = .ok (e, [])) (rest : List Token) :
    readSum (.sym .lparen :: t ++ .sym .rparen :: .sym .semi :: rest) =
      .ok (e, .sym .semi :: rest) := by
  have hends : Ends 0 (.sym .rparen :: .sym .semi :: rest) := ends_sym rfl (by decide) 0 _
  have hparen : Reads .operand (.sym .lparen :: t ++ .sym .rparen :: .sym .semi :: rest) e
      (.sym .semi :: rest) := .primary (.paren ((read_eq_ok.mp h).append fun _ => hends))
  exact readSum_eq_ok.mpr (.descend (by decide) (Nat.le_refl 6) (.operand (Nat.le_refl 6) hparen)
    (ends_sym rfl (by decide) 4 rest))

end Expr

/-- An expression in parentheses is the last operand of a print statement. -/
theorem Item.readAll_parenthesized {t : List Token} {e : Expr} (h : Expr.read t = .ok (e, []))
    (count : Nat) (rest : List Token) :
    readAll (count + 1) (.sym .shl :: .sym .lparen :: t ++ .sym .rparen :: .sym .semi :: rest) =
      .ok ([ofExpr e], .sym .semi :: rest) :=
  bind_eq_ok.mpr ⟨_, Expr.readSum_parenthesized h rest,
    bind_eq_ok.mpr ⟨_, by cases count <;> rfl, rfl⟩⟩

namespace Statement

/-- Operands of the output stream up to a semicolon are one print statement. -/
theorem readAll_print {t : List Token} {items : List Item}
    (h : Item.readAll (t.length + 1) (.sym .shl :: t) = .ok (items, [.sym .semi])) :
    readAll (.name "std::cout".toList :: .sym .shl :: t) = .ok [.print .out items] := by
  have hbody : readBody (.name "std::cout".toList :: .sym .shl :: t) =
      .ok (.print .out items, [.sym .semi]) :=
    bind_eq_ok.mpr ⟨_, h, rfl⟩
  have hread : read (.name "std::cout".toList :: .sym .shl :: t) = .ok (.print .out items, []) :=
    bind_eq_ok.mpr ⟨_, hbody, rfl⟩
  rw [readAll_cons, if_neg (by simp), hread]
  rfl

variable {t : List Token} {e : Expr}

private theorem readAll_parenthesized (h : Expr.read t = .ok (e, [])) :
    readAll (.name "std::cout".toList :: .sym .shl ::
      (.sym .lparen :: t ++ [.sym .rparen, .sym .semi])) = .ok [.print .out [.ofExpr e]] :=
  readAll_print (Item.readAll_parenthesized h _ [])

private theorem readAll_boolalpha (h : Expr.read t = .ok (e, [])) :
    readAll (.name "std::cout".toList :: .sym .shl :: .name "std::boolalpha".toList :: .sym .shl ::
      (.sym .lparen :: t ++ [.sym .rparen, .sym .semi])) =
      .ok [.print .out [.boolalpha true, .ofExpr e]] := by
  have hname := Expr.readSum_name "std::boolalpha".toList
    (.sym .lparen :: t ++ [.sym .rparen, .sym .semi])
  exact readAll_print (bind_eq_ok.mpr ⟨_, hname,
    bind_eq_ok.mpr ⟨_, Item.readAll_parenthesized h _ [], rfl⟩⟩)

end Statement

namespace Token

/-- The words that make truth values readable are two tokens before whatever follows. -/
theorem scan_boolalpha (t : Text) :
    scan ("std::boolalpha << ".toList ++ t) =
      (scan t).map fun tokens => .name "std::boolalpha".toList :: .sym .shl :: tokens := by
  have hname : scan ("std::boolalpha << ".toList ++ t) =
      (scan (" << ".toList ++ t)).map (.name "std::boolalpha".toList :: ·) := scan_token rfl
  rw [hname, scan_shl]
  cases scan t <;> rfl

variable {l : Text} {tokens : List Token}

/-- A text without comments keeps its tokens in parentheses. -/
theorem scan_parenthesized (hl : Uncommented l) (h : scan l = .ok tokens) :
    scan ('(' :: l ++ ");".toList) =
      .ok (.sym .lparen :: tokens ++ [.sym .rparen, .sym .semi]) := by
  have hparen : scan ('(' :: (l ++ ");".toList)) =
      (scan (l ++ ");".toList)).map (.sym .lparen :: ·) := scan_token rfl
  have hclosing : scan ");".toList = .ok [.sym .rparen, .sym .semi] := by decide +kernel
  have hinner := hl.scan_append delimits_rparen (b := [';'])
    (closesNoString_of_notMem (by decide))
  rw [List.cons_append, hparen]
  change (scan (l ++ [')', ';'])).map _ = _
  rw [hinner, h]
  change ((scan ");".toList).map _).map _ = _
  rw [hclosing]
  rfl

end Token

namespace Statement

variable {l : Text} {tokens : List Token} {e : Expr}

/-- A text without comments that is an expression is printed from parentheses. -/
theorem ofText_parenthesized (hl : Token.Uncommented l) (hscan : Token.scan l = .ok tokens)
    (he : Expr.read tokens = .ok (e, [])) :
    ofText ("std::cout << (".toList ++ l ++ ");".toList) = .ok [.print .out [.ofExpr e]] := by
  refine ofText_eq_ok.mpr ⟨_, ?_, readAll_parenthesized he⟩
  have hbegin : "std::cout << (".toList = "std::cout << ".toList ++ ['('] := rfl
  rw [hbegin, List.append_assoc, List.append_assoc, List.singleton_append, ← List.cons_append,
    Token.scan_cout, Token.scan_parenthesized hl hscan]
  rfl

/-- A text without comments that is an expression is printed after the truth values are set to be
words. -/
theorem ofText_boolalpha (hl : Token.Uncommented l) (hscan : Token.scan l = .ok tokens)
    (he : Expr.read tokens = .ok (e, [])) :
    ofText ("std::cout << std::boolalpha << (".toList ++ l ++ ");".toList) =
      .ok [.print .out [.boolalpha true, .ofExpr e]] := by
  refine ofText_eq_ok.mpr ⟨_, ?_, readAll_boolalpha he⟩
  have hbegin : "std::cout << std::boolalpha << (".toList =
      "std::cout << ".toList ++ ("std::boolalpha << ".toList ++ ['(']) := rfl
  rw [hbegin, List.append_assoc, List.append_assoc, List.append_assoc, List.singleton_append,
    ← List.cons_append, Token.scan_cout, Token.scan_boolalpha, Token.scan_parenthesized hl hscan]
  rfl

end Statement

end Literate

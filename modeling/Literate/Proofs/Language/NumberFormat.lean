import Literate.Engine.Interpreter
import Literate.Proofs.Language.Join
import Literate.Proofs.Text.Lines
import Literate.Request

/-!
# The statement that sets the number format

Every block that is prepared for an interpreter begins with a statement that sets the number of
significant digits. It reads as that statement where the number is within the integer literals, and
otherwise the whole block is refused. Running it leaves nothing of the number of digits before.
-/

namespace Literate

namespace Token

variable {c : Char} {rest after : Text}

/-- A token that is read stands before the tokens of the rest. -/
theorem scan_token {token : Token} (h : next? c rest = some (some token, after)) :
    scan (c :: rest) = (scan after).map (token :: ·) := by
  rw [scan_cons, h]
  rfl

/-- A gap that is read adds nothing to the tokens of the rest. -/
theorem scan_gap (h : next? c rest = some (none, after)) : scan (c :: rest) = scan after := by
  rw [scan_cons, h]
  cases hscan : scan after with
  | error e => simp [hscan, Except.map]
  | ok tokens => simp [hscan, Except.map]

/-- A shift sign between spaces. -/
theorem scan_shl (t : Text) : scan (" << ".toList ++ t) = (scan t).map (.sym .shl :: ·) := by
  have hgap : scan (" << ".toList ++ t) = scan ("<< ".toList ++ t) := scan_gap rfl
  have hshl : scan ("<< ".toList ++ t) = (scan (" ".toList ++ t)).map (.sym .shl :: ·) :=
    scan_token rfl
  have hgap' : scan (" ".toList ++ t) = scan t := scan_gap rfl
  rw [hgap, hshl, hgap']

/-- What is written to the output stream is read whatever it is. -/
theorem scan_cout (t : Text) :
    scan ("std::cout << ".toList ++ t) =
      (scan t).map fun tokens => .name "std::cout".toList :: .sym .shl :: tokens := by
  have hname : scan ("std::cout << ".toList ++ t) =
      (scan (" << ".toList ++ t)).map (.name "std::cout".toList :: ·) := scan_token rfl
  rw [hname, scan_shl]
  cases scan t <;> rfl

/-- A digit begins nothing but a number. -/
theorem next?_of_isDigit (hc : c.isDigit = true) (rest : Text) :
    next? c rest = (readNumber? (c :: rest)).map fun r => (some r.1, r.2) := by
  have hgap : isGap c = false := by
    rw [Bool.eq_false_iff]
    intro h
    rw [(delimits_of_isGap h).digit] at hc
    cases hc
  have hslash : ¬(c = '/' ∧ rest.head? = some '/') := by
    rintro ⟨rfl, -⟩
    revert hc
    decide
  have hstart : isNameStart c = false := by
    rw [Bool.eq_false_iff]
    intro h
    delta isNameStart Char.isAlpha Char.isUpper Char.isLower at h
    simp only [Bool.or_eq_true, Bool.and_eq_true, decide_eq_true_eq] at h
    simp only [Char.isDigit, Bool.and_eq_true, decide_eq_true_eq] at hc
    rcases h with (h | h) | rfl
    · exact absurd (UInt32.le_trans h.1 hc.2) (by decide)
    · exact absurd (UInt32.le_trans h.1 hc.2) (by decide)
    · exact absurd hc.2 (by decide)
  rw [next?, hgap, hstart, if_neg (by simp), if_neg hslash, if_neg (by simp), if_pos hc]

/-- A number in decimal digits is read as that number before a text that does not go on it, if it is
within the integer literals. -/
theorem readNumber?_ofNat (n : Nat) (h : Delimited rest) :
    readNumber? (Decimal.ofNat n ++ rest) =
      if n < Nat.pow 2 63 then some (.int (Int64.ofNat n), rest) else none := by
  obtain ⟨htake, hdrop⟩ := Text.takeWhile_dropWhile_append (p := Char.isDigit)
    (fun c hc => Decimal.isDigit_of_mem_ofNat hc) (fun d hd => (h d hd).digit)
  have hpoint : rest.head? ≠ some '.' := fun hd => (h '.' hd).mark (by simp)
  rw [readNumber?_of_no_point (by rwa [hdrop]), htake, hdrop, h.readExponent?_eq_none,
    Decimal.value_ofNat]

end Token

namespace Preparation

variable {p : Preparation}

/-- The statement that a number format is set by. -/
def formatted (digits : Nat) : Statement :=
  .print .out [.precision (.int (Int64.ofNat digits))]

/-- What stands before the number in the statement is read whatever the number is. -/
theorem scan_setprecision (t : Text) :
    Token.scan ("std::cout << std::setprecision(".toList ++ t) =
      (Token.scan t).map fun tokens =>
        [.name "std::cout".toList, .sym .shl, .name "std::setprecision".toList, .sym .lparen] ++
          tokens := by
  have hname : Token.scan ("std::setprecision(".toList ++ t) =
      (Token.scan ('(' :: t)).map (.name "std::setprecision".toList :: ·) := Token.scan_token rfl
  have hparen : Token.scan ('(' :: t) = (Token.scan t).map (.sym .lparen :: ·) :=
    Token.scan_token rfl
  have htext : "std::cout << std::setprecision(".toList =
      "std::cout << ".toList ++ "std::setprecision(".toList := by decide
  rw [htext, List.append_assoc, Token.scan_cout, hname, hparen]
  cases Token.scan t <;> rfl

/-- The number of digits and what closes the statement are read if the number is within the integer
literals, and otherwise refused at the first digit. -/
theorem scan_digits (n : Nat) :
    (n < Nat.pow 2 63 → Token.scan (Decimal.ofNat n ++ ");".toList) =
      .ok [.int (Int64.ofNat n), .sym .rparen, .sym .semi]) ∧
    (¬n < Nat.pow 2 63 → ∃ c ∈ (Decimal.ofNat n).head?,
      Token.scan (Decimal.ofNat n ++ ");".toList) = .error ⟨c⟩) := by
  obtain ⟨c, digits, hdigits⟩ := List.exists_cons_of_ne_nil (Decimal.ofNat_ne_nil n)
  have hc : c.isDigit = true := Decimal.isDigit_of_mem_ofNat (hdigits ▸ List.mem_cons_self)
  have hclose : Token.Delimited [')', ';'] := by
    rintro d ⟨⟩
    exact Token.delimits_rparen
  have hnumber := Token.readNumber?_ofNat n hclose
  have hnext := Token.next?_of_isDigit hc (digits ++ [')', ';'])
  have hclosing : Token.scan [')', ';'] = .ok [.sym .rparen, .sym .semi] := by decide +kernel
  have htext : Decimal.ofNat n ++ ");".toList = c :: (digits ++ [')', ';']) := by
    rw [hdigits]
    rfl
  rw [hdigits, List.cons_append] at hnumber
  rw [hnumber] at hnext
  rw [htext]
  constructor
  · intro hsmall
    rw [if_pos hsmall] at hnext
    rw [Token.scan_token hnext, hclosing]
    rfl
  · intro hlarge
    rw [if_neg hlarge] at hnext
    rw [Token.scan_cons, hnext, hdigits]
    exact ⟨c, rfl, rfl⟩

private theorem scan_formatStatement (p : Preparation) :
    Token.scan p.formatStatement =
      (Token.scan (Decimal.ofNat p.precision ++ ");".toList)).map fun tokens =>
        [.name "std::cout".toList, .sym .shl, .name "std::setprecision".toList, .sym .lparen] ++
          tokens := by
  have hassoc : p.formatStatement =
      "std::cout << std::setprecision(".toList ++ (Decimal.ofNat p.precision ++ ");".toList) :=
    List.append_assoc _ _ _
  rw [hassoc, scan_setprecision]

/-- The statement reads as one that sets the number format, if the number of digits is within the
integer literals. -/
theorem ofText_formatStatement {p : Preparation} (h : p.precision < Nat.pow 2 63) :
    Statement.ofText p.formatStatement = .ok [formatted p.precision] := by
  have hscan := scan_formatStatement p
  rw [(scan_digits p.precision).1 h] at hscan
  exact Statement.ofText_eq_ok.mpr ⟨_, hscan, rfl⟩

/-- A block begins with the statement, which stands on a line of its own. -/
theorem block_eq (p : Preparation) (r : Request) :
    (p.prepare r).block = p.formatStatement ∨
      ∃ rest, (p.prepare r).block = p.formatStatement ++ '\n' :: rest := by
  rw [prepare, statements]
  cases (r.code.splitOn '\n').filter fun line => line ≠ [] && !p.isDefinition line with
  | nil =>
    left
    rw [completeLast, completed, if_pos (getLast?_formatStatement p)]
    exact List.append_nil _
  | cons line lines =>
    right
    refine ⟨Text.unlines (completeLast (line :: lines)), ?_⟩
    have hne : completeLast (line :: lines) ≠ [] := by cases lines <;> simp [completeLast]
    rw [completeLast, Text.unlines_cons hne]
    simp

/-- A number of digits that is too large for a literal is refused, with every block that begins with
it. -/
theorem scan_formatStatement_of_not_lt {p : Preparation} (h : ¬p.precision < Nat.pow 2 63) :
    ∃ c ∈ (Decimal.ofNat p.precision).head?, Token.scan p.formatStatement = .error ⟨c⟩ ∧
      ∀ r, Token.scan (p.prepare r).block = .error ⟨c⟩ := by
  obtain ⟨c, hc, hdigits⟩ := (scan_digits p.precision).2 h
  have hscan : Token.scan p.formatStatement = .error ⟨c⟩ := by
    rw [scan_formatStatement, hdigits]
    rfl
  refine ⟨c, hc, hscan, fun r => ?_⟩
  rcases block_eq p r with hblock | ⟨rest, hblock⟩
  · rw [hblock, hscan]
  · rw [hblock, Token.scan_append_newline, hscan]
    rfl

/-- A block that reads as statements begins with the one that sets the number format. -/
theorem exists_of_ofText_block {p : Preparation} {r : Request} {statements : List Statement}
    (h : Statement.ofText (p.prepare r).block = .ok statements) :
    ∃ rest, statements = formatted p.precision :: rest := by
  by_cases hsmall : p.precision < Nat.pow 2 63
  · have hformat := ofText_formatStatement hsmall
    rcases block_eq p r with hblock | ⟨rest, hblock⟩
    · rw [hblock, hformat] at h
      exact ⟨[], (Except.ok.inj h).symm⟩
    · rw [hblock, Statement.ofText_append hformat] at h
      obtain ⟨more, -, rfl⟩ := map_eq_ok.mp h
      exact ⟨more, rfl⟩
  · obtain ⟨tokens, htokens, -⟩ := Statement.ofText_eq_ok.mp h
    obtain ⟨c, -, -, hscan⟩ := scan_formatStatement_of_not_lt hsmall
    cases (hscan r).symm.trans htokens

end Preparation

end Literate
